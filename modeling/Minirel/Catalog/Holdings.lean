import Minirel.Catalog
import Minirel.HeapFile.Holdings

/-! The calls on the catalogs and resources: whatever fails, what a call leaves
pinned is of files it leaves open. -/
namespace Minirel
open Program Holdings

section tidy
variable {α β : Type} {p : Prog α} {f : α → Prog β}

theorem Tidy.andThen {last : β → Holdings → Prop} (first : Tidy p)
    (next : ∀ value, Handling 0 (f value) last) :
    Handling 0 (p >>= f) last := by
  refine Handles.bind first ?_
  rintro value _ rfl
  exact next value

theorem Tidy.except {ε : Type} {q : Prog (Except ε α)} {next : Except ε α → Prog β} (first : Tidy q)
    (error : ∀ e, Tidy (next (.error e))) (ok : ∀ value, Tidy (next (.ok value))) :
    Tidy (q >>= next) := by
  refine first.andThen fun r => ?_
  cases r with
  | error e => exact error e
  | ok value => exact ok value

theorem Tidy.beside {held : Holdings} (tidy : Tidy p) : Handling held p fun _ held' =>
    held' = held := by
  have framed := Handles.frame held tidy
  rw [zero_add] at framed
  refine framed.mono ?_
  rintro _ _ ⟨_, rfl, rfl⟩
  exact zero_add _

end tidy

theorem HeapFileScan.end_delete_handling {s : HeapFileScan} {held : Holdings} {α : Type} {value : α}
    (has : s.Has held) :
    Handling held (do
      let (_, s) ← s.endScan
      s.delete
      return value) fun _ held => held = 0 := by
  refine .bind (endScan_handling has) fun _ _ has' => .bind (delete_handling has') ?_
  rintro _ _ rfl
  exact .pure rfl

theorem addRecord_tidy (fileName : Name) (bytes : List UInt8) :
    Tidy (addRecord fileName bytes) := by
  refine .bind (InsertFileScan.new_handling fileName) fun r held has => ?_
  cases r with
  | error => exact .pure has
  | ok ifs =>
    refine .bind (InsertFileScan.insertRecord_handling _ has) fun r held has' => ?_
    refine .bind (InsertFileScan.delete_handling has') ?_
    rintro _ _ rfl
    obtain ⟨result, _⟩ := r
    cases result <;> exact .pure rfl

theorem openLookup_handling (fileName relation : Name) : Handling 0 (openLookup fileName relation)
    fun r held => match r with
    | .error _ => held = 0
    | .ok s => s.Has held := by
  refine .bind (HeapFileScan.new_handling fileName) fun r held has => ?_
  cases r with
  | error => exact .pure has
  | ok hfs =>
    have has' : (hfs.startScan (some (byRelation relation))).2.Has held :=
      HeapFileScan.startScan_has has
    refine .ite (fun _ => .bind (HeapFileScan.delete_handling has') ?_) fun _ => .pure has'
    rintro _ _ rfl
    exact .pure rfl

namespace RelCatalog

theorem getInfo_tidy (fuel : Nat) (relation : Name) : Tidy (getInfo fuel relation) := by
  refine .ite (fun _ => .pure rfl) fun _ => .bind (openLookup_handling _ _) fun r held has => ?_
  cases r with
  | error => exact .pure has
  | ok hfs =>
    refine .bind (HeapFileScan.scanNext_handling fuel has) fun r held has' => ?_
    refine .ite (fun _ => HeapFileScan.end_delete_handling has') fun _ => ?_
    refine .bind (HeapFileScan.getRecord_handling has') fun found held has'' => ?_
    cases found with
    | error => exact .abandon has''.mem_backed rfl
    | ok rec =>
      refine .ite (fun _ => .halt_bind) fun _ => ?_
      refine .bind (HeapFileScan.endScan_handling has'') fun _ _ ended =>
        .bind (HeapFileScan.delete_handling ended) ?_
      rintro _ _ rfl
      exact .ite (fun _ => .pure rfl) fun _ => .pure rfl

theorem removeInfo_tidy (fuel : Nat) (relation : Name) : Tidy (removeInfo fuel relation) := by
  refine .ite (fun _ => .pure rfl) fun _ => .bind (openLookup_handling _ _) fun r held has => ?_
  cases r with
  | error => exact .pure has
  | ok hfs =>
    refine .bind (HeapFileScan.scanNext_handling fuel has) fun r held has' => ?_
    refine .ite (fun _ => .bind (HeapFileScan.delete_handling has') ?_) fun _ => ?_
    · rintro _ _ rfl
      exact .pure rfl
    refine .bind (HeapFileScan.deleteRecord_handling has') fun _ _ removed =>
      .bind (HeapFileScan.delete_handling removed) ?_
    rintro _ _ rfl
    exact .pure rfl

end RelCatalog

namespace AttrCatalog

theorem search_handling {held : Holdings} (attrName : Name) (fuel : Nat) {s : HeapFileScan}
    (has : s.Has held) :
    Handling held (search attrName fuel s) fun r held =>
      match r with
      | .returned _ => held = 0
      | .ended _ s => s.Has held
      | .found _ s => s.Has held := by
  induction fuel generalizing s held with
  | zero => exact .halt
  | succ fuel ih =>
    refine .bind (HeapFileScan.scanNext_handling fuel has) fun r held has' => ?_
    refine .ite (fun _ => .pure has') fun _ => ?_
    refine .bind (HeapFileScan.getRecord_handling has') fun found held has'' => ?_
    cases found with
    | error => exact .abandon has''.mem_backed rfl
    | ok rec => exact .ite (fun _ => .halt_bind) fun _ => .ite (fun _ => .pure has'') fun _ => ih has''

theorem getInfo_tidy (fuel : Nat) (relation attrName : Name) :
    Tidy (getInfo fuel relation attrName) := by
  refine .ite (fun _ => .pure rfl) fun _ => .bind (openLookup_handling _ _) fun r held has => ?_
  cases r with
  | error => exact .pure has
  | ok hfs =>
    refine .bind (search_handling attrName fuel has) fun r held has' => ?_
    cases r with
    | returned => exact .pure has'
    | ended status s => exact HeapFileScan.end_delete_handling has'
    | found record s =>
      refine .bind (HeapFileScan.endScan_handling has') fun _ _ ended =>
        .bind (HeapFileScan.delete_handling ended) ?_
      rintro _ _ rfl
      exact .ite (fun _ => .pure rfl) fun _ => .pure rfl

theorem removeInfo_tidy (fuel : Nat) (relation attrName : Name) :
    Tidy (removeInfo fuel relation attrName) := by
  refine .ite (fun _ => .pure rfl) fun _ => .bind (openLookup_handling _ _) fun r held has => ?_
  cases r with
  | error => exact .pure has
  | ok hfs =>
    refine .bind (search_handling attrName fuel has) fun r held has' => ?_
    cases r with
    | returned => exact .pure has'
    | ended status s => exact HeapFileScan.end_delete_handling has'
    | found record s =>
      exact .bind (HeapFileScan.deleteRecord_handling has') fun _ _ removed =>
        HeapFileScan.end_delete_handling removed

theorem collect_handling {held : Holdings} (fuel : Nat) {s : HeapFileScan} (has : s.Has held) :
    Handling held (collect fuel s) fun r held =>
      match r with
      | .error _ => held = 0
      | .ok r => r.2.2.Has held := by
  induction fuel generalizing s held with
  | zero => exact .halt
  | succ fuel ih =>
    refine .bind (HeapFileScan.scanNext_handling fuel has) fun r held has' => ?_
    refine .ite (fun _ => .pure has') fun _ => ?_
    refine .bind (HeapFileScan.getRecord_handling has') fun found held has'' => ?_
    cases found with
    | error => exact .abandon has''.mem_backed rfl
    | ok rec =>
      refine .ite (fun _ => .halt_bind) fun _ => .bind (ih has'') fun r held rest => ?_
      cases r <;> exact .pure rest

theorem getRelInfo_tidy (fuel : Nat) (relation : Name) : Tidy (getRelInfo fuel relation) := by
  refine .ite (fun _ => .pure rfl) fun _ => .bind (openLookup_handling _ _) fun r held has => ?_
  cases r with
  | error => exact .pure has
  | ok hfs =>
    refine .bind (collect_handling fuel has) fun r held has' => ?_
    cases r with
    | error => exact .pure has'
    | ok r =>
      refine .bind (HeapFileScan.endScan_handling has') fun _ _ ended =>
        .bind (HeapFileScan.delete_handling ended) ?_
      rintro _ _ rfl
      exact .ite (fun _ => .pure rfl) fun _ => .ite (fun _ => .pure rfl) fun _ =>
        .ite (fun _ => .pure rfl) fun _ => .pure rfl

theorem removeAll_tidy (fuel : Nat) (relation : Name) (attrs : List AttrDesc) :
    Tidy (removeAll fuel relation attrs) := by
  induction attrs with
  | nil => exact .pure rfl
  | cons attr attrs ih =>
    exact (removeInfo_tidy fuel relation attr.attrName).andThen fun _ => .ite (fun _ => .pure rfl)
      fun _ => ih

theorem dropRelation_tidy (fuel : Nat) (relation : Name) : Tidy (dropRelation fuel relation) := by
  exact .ite (fun _ => .pure rfl) fun _ =>
    (getRelInfo_tidy fuel relation).except (fun _ => .pure rfl) fun attrs =>
    removeAll_tidy fuel relation attrs

end AttrCatalog

namespace RelCatalog

theorem addAttrs_tidy (relation : Name) (offset : Int) (attrs : List AttrInfo) :
    Tidy (addAttrs relation offset attrs) := by
  induction attrs generalizing offset with
  | nil => exact .pure rfl
  | cons attr attrs ih =>
    refine .ite (fun _ => .pure rfl) fun _ => (addRecord_tidy _ _).andThen fun _ => ?_
    exact .ite (fun _ => .pure rfl) fun _ => ih _

theorem createRel_tidy (fuel : Nat) (relation : Name) (attrList : List AttrInfo) :
    Tidy (createRel fuel relation attrList) := by
  refine .ite (fun _ => .pure rfl) fun _ => .ite (fun _ => .pure rfl) fun _ =>
    (getInfo_tidy fuel relation).andThen fun r => ?_
  cases r with
  | ok => exact .pure rfl
  | error status =>
    refine .ite (fun _ => .pure rfl) fun _ => .ite (fun _ => .pure rfl) fun _ =>
      .ite (fun _ => .pure rfl) fun _ => ?_
    refine (addRecord_tidy _ _).andThen fun _ => .ite (fun _ => .pure rfl) fun _ => ?_
    exact (addAttrs_tidy _ _ _).andThen fun _ => .ite (fun _ => .pure rfl) fun _ =>
      createHeapFile_tidy relation

theorem destroyRel_tidy (fuel : Nat) (relation : Name) : Tidy (destroyRel fuel relation) := by
  refine .ite (fun _ => .pure rfl) fun _ => (AttrCatalog.dropRelation_tidy fuel relation).andThen
    fun _ => .ite (fun _ => .pure rfl) fun _ => ?_
  refine (removeInfo_tidy fuel relation).andThen fun _ => .ite (fun _ => .pure rfl) fun _ => ?_
  exact .perform fun _ _ => add_zero _

end RelCatalog
end Minirel
