import Mathlib.Algebra.Group.Prod
import Minirel.HeapFile.Calls
import Minirel.HeapFile.Pins
import Minirel.Lib.Resource

/-! Pins and open files as resources. A program may leave some behind on an
early return, but nothing is pinned of a file that it does not leave open too. -/
namespace Minirel
open Program Pins StorageCall

abbrev Holdings := Pins × (Name → Int)

namespace Holdings

def openChange : (c : StorageCall) → c.Reply → Name → Int
  | .openFile name, status => if status = .ok then Pi.single name 1 else 0
  | .closeFile file, _ => -Pi.single file 1
  | _, _ => 0

/-- Pins are released and files are closed without fail. -/
def accounting : Accounting StorageCall.Reply Holdings where
  admits
    | .unPinPage _ _ _, status => status = .ok
    | .closeFile _, status => status = .ok
    | _, _ => True
  change c reply := (account c 0 reply, openChange c reply)

/-- What may be left: pins on files that are left open. -/
def backed : AddSubmonoid Holdings where
  carrier := { left | ∀ file, 0 ≤ left.2 file ∧ (left.2 file = 0 → ∀ n, left.1 (file, n) = 0) }
  zero_mem' := fun _ => ⟨le_refl _, fun _ _ => rfl⟩
  add_mem' := by
    intro a b first second file
    obtain ⟨low, none⟩ := first file
    obtain ⟨low', none'⟩ := second file
    simp only [Prod.snd_add, Prod.fst_add, Pi.add_apply]
    refine ⟨by omega, fun zero n => ?_⟩
    rw [none (by omega) n, none' (by omega) n, add_zero]

/-- Pins on one file, which is open. -/
theorem mem_backed {held : Holdings} {file : Name} (once : held.2 = Pi.single file 1)
    (only : ∀ other ≠ file, ∀ n, held.1 (other, n) = 0) : held ∈ backed := by
  intro other
  rw [once]
  by_cases same : other = file
  · subst same
    simp
  · exact ⟨by simp [same], fun _ n => only other same n⟩

end Holdings

open Holdings

abbrev Handling {α : Type} (before : Holdings) (p : Prog α) (after : α → Holdings → Prop) : Prop :=
  Handles accounting backed before p after

/-- Nothing is in hand before, and what is left open holds what is left pinned. -/
abbrev Tidy {α : Type} (p : Prog α) : Prop := Handling 0 p fun _ held => held = 0

theorem Pins.account_eq (c : StorageCall) (pins : Pins) (reply : c.Reply) :
    account c pins reply = pins + account c 0 reply := by
  cases c with
  | readPage | unPinPage =>
    simp only [account]
    split <;> simp [sub_eq_add_neg]
  | allocPage => cases reply <;> simp [account]
  | _ => simp [account]

section calls
variable {α : Type} {file : Name} {n : Int} {pins : Pins} {opened : Name → Int} {before : Holdings}

theorem openFile_handling (name : Name) : Handling 0 (Storage.openFile name) fun status held =>
    held = (0, if status = .ok then Pi.single name 1 else 0) := .perform fun _ _ => zero_add _

theorem readPage_handling : Handling (pins, opened) (Storage.readPage file n) fun status held =>
    held = (pins + if status = .ok then one (file, n) else 0, opened) := by
  refine .perform fun status _ => Prod.ext (congrArg (pins + ·) ?_) (add_zero _)
  change (if _ then _ else _) = _
  rw [zero_add]

theorem allocPage_handling : Handling (pins, opened) (Storage.allocPage file) fun r held =>
    held = (pins + (match r with | .ok n => one (file, n) | .error _ => 0), opened) := by
  refine .perform fun r _ => Prod.ext (congrArg (pins + ·) ?_) (add_zero _)
  cases r with
  | error => rfl
  | ok n => exact zero_add _

theorem unPinPage_handling {dirty : Bool} : Handling (pins, opened) (Storage.unPinPage file n dirty)
    fun _ held => held = (pins - one (file, n), opened) :=
  .perform fun _ released => Prod.ext ((account_eq ..).symm.trans (account_released released))
    (add_zero _)

/-- Calls that neither pin nor open. -/
theorem quiet_handling {p : Prog α} {post : α → Prop}
    (makes : p.Makes (fun c => ∀ reply, accounting.change c reply = 0) post) :
    Handling before p fun value held => post value ∧ held = before := by
  intro others
  have keeps (c : StorageCall) (g : Holdings) (reply : c.Reply)
    (none : ∀ reply, accounting.change c reply = 0)
      (same : g = others + before) : accounting.contract.next c g reply = others + before :=
    (congrArg (g + ·) (none reply)).trans ((add_zero g).trans same)
  refine (makes.ensures keeps rfl).mono ?_
  rintro value _ ⟨holds, rfl⟩
  exact ⟨before, 0, ⟨holds, rfl⟩, backed.zero_mem, by rw [add_zero]⟩

theorem quiet_call {c : StorageCall} (none : ∀ reply, accounting.change c reply = 0) :
    Handling before (perform c) fun _ held => held = before :=
  .perform fun reply _ => by rw [none, add_zero]

theorem header_handling : Handling before (Storage.header file n) fun _ held => held = before :=
  (quiet_handling (Storage.header_makes (fun _ => rfl) fun _ => trivial)).mono fun _ _ same => same.2

theorem page_handling : Handling before (Storage.page file n) fun _ held => held = before :=
  (quiet_handling (Storage.page_makes (fun _ => rfl) fun _ => trivial)).mono fun _ _ same => same.2

end calls

namespace HeapFile
variable {α : Type} {h : HeapFile} {held : Holdings} {p : Prog α}

def Has (h : HeapFile) (held : Holdings) : Prop := h.Owns held.1 ∧ held.2 = Pi.single h.filePtr 1

theorem Has.mem_backed (has : h.Has held) : held ∈ backed := by
  obtain ⟨owns, once⟩ := has
  refine Holdings.mem_backed once fun other apart n => ?_
  rw [owns.held]
  split <;> simp [one, apart]

theorem pinned_ensures {pins : Pins} {post : α → Pins → Prop} (others : Holdings)
    (ensures : p.Ensures (sure False) pins post) {opened : Name → Int} :
    p.Ensures accounting.contract (others + (pins, opened)) fun value g => ∃ pins',
      g.1 = others.1 + pins' ∧ post value pins' := by
  refine ensures.transfer (fun pins (g : Holdings) => g.1 = others.1 + pins)
    (fun c pins g reply same admitted => ⟨?_, ?_⟩) rfl
  · cases c with
    | unPinPage => exact admitted
    | readPage => exact fun impossible => impossible.elim
    | _ => trivial
  · change g.1 + account c 0 reply = others.1 + account c pins reply
    rw [same, account_eq c pins, add_assoc]

/-- A method that makes no calls but for pages of its file. -/
theorem Has.method {obj : α → HeapFile} (has : h.Has held)
    (owned : p.Ensures (sure False) held.1 fun value pins => (obj value).Owns pins)
    (makes : p.Makes (Touches h.filePtr) fun value => (obj value).filePtr = h.filePtr) :
    Handling held p fun value held' => (obj value).Has held' := by
  intro others
  have keeps (c : StorageCall) (g : Holdings) (reply : c.Reply) (touches : Touches h.filePtr c)
      (same : g.2 = others.2 + held.2) : (accounting.contract.next c g reply).2 = others.2 +
        held.2 := by
    have none : openChange c reply = 0 := by cases c <;> first | rfl | cases touches
    change g.2 + openChange c reply = _
    rw [none, add_zero, same]
  have opened := makes.ensures keeps (rfl : (others + held).2 = _)
  refine ((pinned_ensures others owned).and opened).mono ?_
  rintro value g ⟨⟨pins, first, owns⟩, file, second⟩
  refine ⟨(pins, held.2), 0, ⟨owns, ?_⟩, Holdings.backed.zero_mem, ?_⟩
  · rw [file]
    exact has.2
  · rw [add_zero]
    exact Prod.ext first second

/-- The constructor may go on without a page. -/
theorem new_handling (name : Name) : Handling 0 (HeapFile.new name) fun r held =>
    match r with
    | .error _ => held = 0
    | .ok h => h.Has held := by
  refine .bind (openFile_handling name) ?_
  rintro status _ rfl
  refine .ite (fun failed => .pure (by rw [if_neg failed]; rfl)) fun ok => ?_
  rw [if_pos (not_not.mp ok)]
  refine .bind (quiet_call fun _ => rfl) ?_
  rintro (_ | headerPageNo) _ rfl
  · exact .halt
  refine .bind readPage_handling ?_
  rintro status _ rfl
  refine .ite (fun _ => .halt_bind) fun ok => ?_
  rw [if_pos (not_not.mp ok), zero_add]
  refine .bind header_handling ?_
  rintro hdr _ rfl
  refine .bind readPage_handling ?_
  rintro status _ rfl
  refine .pure ⟨?_, rfl⟩
  by_cases ok : status = .ok
  · exact .of_set (if_pos ok) (by rw [if_pos ok])
  · exact .of_unset (if_neg ok) (by rw [if_neg ok, add_zero])

/-- A destructor that releases the pins and closes the file once. -/
theorem Has.destructor {p : Prog Unit} (has : h.Has held)
    (released : p.Ensures (sure False) held.1 fun _ pins => pins = 0)
    (closed : ∀ g, p.Ensures accounting.contract g fun _ g' => g'.2 = g.2 - Pi.single h.filePtr 1) :
    Handling held p fun _ held' => held' = 0 := by
  intro others
  refine ((pinned_ensures others released).and (closed (others + held))).mono ?_
  rintro _ g ⟨⟨_, first, rfl⟩, second⟩
  refine ⟨0, 0, rfl, Holdings.backed.zero_mem, Prod.ext first ?_⟩
  rw [second, Prod.snd_add, has.2, add_sub_cancel_right, add_zero]
  exact (add_zero _).symm

theorem delete_closes (h : HeapFile) (g : Holdings) :
    h.delete.Ensures accounting.contract g fun _ g' => g'.2 = g.2 - Pi.single h.filePtr 1 := by
  simp only [delete, ensures_ite, ensures_bind, ensures_pure, Storage.unPinPage, Storage.closeFile,
    ensures_perform]
  refine ⟨fun _ status _ status' _ status'' _ => ?_, fun _ status _ status' _ => ?_⟩
  · change g.2 + 0 + 0 + -Pi.single h.filePtr 1 = _
    rw [add_zero, add_zero, sub_eq_add_neg]
  · change g.2 + 0 + -Pi.single h.filePtr 1 = _
    rw [add_zero, sub_eq_add_neg]

theorem delete_handling (has : h.Has held) : Handling held h.delete fun _ held' => held' = 0 :=
  has.destructor (delete_owns has.1) h.delete_closes

end HeapFile

namespace HeapFileScan
variable {s : HeapFileScan} {held : Holdings}

theorem new_handling (name : Name) : Handling 0 (HeapFileScan.new name) fun r held =>
    match r with
    | .error _ => held = 0
    | .ok s => s.Has held := by
  refine .bind (HeapFile.new_handling name) fun r held has => ?_
  cases r with
  | error => exact .pure has
  | ok h => exact .pure has

theorem endScan_handling (has : s.Has held) : Handling held s.endScan fun r held' =>
    r.2.Has held' :=
  has.method (endScan_owns has.1) (s.endScan_makes.allow fun _ => Reads.touches)

theorem scanNext_handling (fuel : Nat) (has : s.Has held) : Handling held (s.scanNext fuel)
    fun r held' => r.2.Has held' :=
  has.method (scanNext_owns fuel has.1) ((s.scanNext_makes fuel).allow fun _ => Reads.touches)

theorem getRecord_handling (has : s.Has held) : Handling held s.getRecord fun _ held' =>
    s.Has held' := by
  have owned : s.getRecord.Ensures (sure False) held.1 fun _ pins => s.Owns pins := by
    simp only [getRecord, ensures_bind, ensures_pure]
    exact HeapFile.page_ensures (fun _ _ => rfl) fun _ _ => has.1
  exact has.method owned ((s.getRecord_makes.allow fun _ => Reads.touches).mono fun _ _ => rfl)

theorem deleteRecord_handling (has : s.Has held) : Handling held s.deleteRecord fun r held' =>
    r.2.Has held' :=
  has.method (deleteRecord_owns has.1) s.deleteRecord_makes

theorem startScan_has {filter : Option Filter} (has : s.Has held) :
    (s.startScan filter).2.Has held := by
  cases filter with
  | none => exact has
  | some f =>
    simp only [startScan]
    split <;> exact has

theorem delete_handling (has : s.Has held) : Handling held s.delete fun _ held' => held' = 0 :=
  .bind (endScan_handling has) fun _ _ has' => HeapFile.delete_handling has'

end HeapFileScan

namespace InsertFileScan
variable {h : HeapFile} {held : Holdings}

theorem insertRecord_handling (rec : Record) (has : h.Has held) :
    Handling held (insertRecord h rec) fun r held' => r.2.Has held' :=
  has.method (insertRecord_owns has.1) (insertRecord_makes h rec)

theorem delete_handling (has : h.Has held) : Handling held (InsertFileScan.delete h) fun _ held' =>
    held' = 0 := by
  refine has.destructor (delete_owns has.1) fun g => ?_
  simp only [InsertFileScan.delete, ensures_ite, ensures_bind, Storage.unPinPage, ensures_perform]
  refine ⟨fun _ status _ => ?_, fun _ => h.delete_closes g⟩
  refine (HeapFile.delete_closes _ _).mono fun _ g' closed => closed.trans ?_
  change g.2 + 0 - _ = _
  rw [add_zero]

/-- If the last page cannot be read, the object is left without a page. -/
theorem new_handling (name : Name) : Handling 0 (InsertFileScan.new name) fun r held =>
    match r with
    | .error _ => held = 0
    | .ok h => h.Has held := by
  refine .bind (HeapFile.new_handling name) fun r held has => ?_
  cases r with
  | error => exact .pure has
  | ok h =>
    obtain ⟨pins, opened⟩ := held
    obtain ⟨owns, once⟩ : h.Has (pins, opened) := has
    obtain rfl : opened = Pi.single h.filePtr 1 := once
    refine .bind header_handling ?_
    rintro hdr _ rfl
    refine .ite (fun moves => ?_) fun _ => .pure ⟨owns, rfl⟩
    refine .bind unPinPage_handling ?_
    rintro status _ rfl
    have released : pins - one (h.filePtr, h.curPageNo) = one (h.filePtr, h.headerPageNo) :=
      (account_released rfl).symm.trans (owns.released moves.1 rfl h.curDirtyFlag)
    rw [released]
    refine .bind readPage_handling ?_
    rintro status _ rfl
    refine .ite (fun failed => ?_) fun ok => .pure ⟨.of_set rfl ?_, rfl⟩
    · rw [if_neg failed, add_zero]
      exact .abandon (HeapFile.Has.mem_backed (h := { h with curPage := none })
        ⟨.of_unset rfl rfl, rfl⟩) rfl
    · rw [if_pos (not_not.mp ok)]

end InsertFileScan

/-! Creation: one file is open, and pages of it are pinned. -/

section creation
variable {α : Type} {name : Name} {pins : Pins}

theorem stop_handling {value : α} {after : α → Holdings → Prop}
    (only : ∀ other ≠ name, ∀ n, pins (other, n) = 0) (holds : after value 0) :
    Handling (pins, Pi.single name 1) (pure value) after :=
  .abandon (Holdings.mem_backed rfl only) holds

theorem createHeapFile_tidy (name : Name) : Tidy (createHeapFile name) := by
  have unpinned : ∀ other ≠ name, ∀ n, (0 : Pins) (other, n) = 0 := fun _ _ _ => rfl
  have pinned (n : Int) : ∀ other ≠ name, ∀ m, one (name, n) (other, m) = 0 := by
    intro other apart m
    simp [one, apart]
  refine .bind (openFile_handling name) ?_
  rintro status _ rfl
  refine .ite (fun ok => ?_) fun failed => ?_
  · rw [if_pos ok]
    exact stop_handling unpinned rfl
  rw [if_neg failed]
  refine .bind (quiet_call fun _ => rfl) ?_
  rintro status _ rfl
  refine .ite (fun _ => .pure rfl) fun _ => .bind (openFile_handling name) ?_
  rintro status _ rfl
  refine .ite (fun failed => ?_) fun ok => ?_
  · rw [if_neg failed]
    exact .pure rfl
  rw [if_pos (not_not.mp ok)]
  refine .bind allocPage_handling ?_
  rintro (_ | hdrPageNo) _ rfl
  · exact stop_handling unpinned rfl
  refine .bind allocPage_handling ?_
  rintro (_ | newPageNo) _ rfl
  · exact stop_handling (by simpa using pinned hdrPageNo) rfl
  simp only [zero_add]
  refine .bind page_handling ?_
  rintro newPage _ rfl
  refine .bind (quiet_call fun _ => rfl) ?_
  rintro _ _ rfl
  refine .bind (quiet_call fun _ => rfl) ?_
  rintro _ _ rfl
  refine .bind unPinPage_handling ?_
  rintro status _ rfl
  rw [add_sub_cancel_right]
  refine .ite (fun _ => stop_handling (pinned hdrPageNo) rfl) fun _ => .bind unPinPage_handling ?_
  rintro status _ rfl
  rw [sub_self]
  refine .ite (fun _ => stop_handling unpinned rfl) fun _ => ?_
  refine .bind (quiet_call fun _ => rfl) ?_
  rintro status _ rfl
  refine .ite (fun _ => stop_handling unpinned rfl) fun _ => .perform fun status _ => ?_
  exact Prod.ext (add_zero _) (add_neg_cancel _)

end creation

/-! On flat storage, where no pin and no open file can be lost. -/

theorem accounting_flat {c : StorageCall} {st st' : Flat} {reply : c.Reply}
    (answer : Flat.handle c st = some (reply, st')) :
    accounting.admits c reply ∧ ∀ name, (st'.openCnt name : Int) = st.openCnt name +
      openChange c reply name := by
  cases c with
  | openFile name =>
    refine ⟨trivial, fun other => ?_⟩
    simp only [Flat.handle] at answer
    split_ifs at answer <;> cases answer
    · simp [openChange]
    · by_cases same : other = name
      · simp [openChange, Flat.opened, same]
      · simp [openChange, Flat.opened, same]
    · simp [openChange]
  | closeFile file =>
    simp only [Flat.handle] at answer
    split_ifs at answer with unopened
    cases answer
    refine ⟨rfl, fun other => ?_⟩
    by_cases same : other = file
    · subst same
      simp only [openChange, Flat.openCnt_closed, Pi.neg_apply, Pi.single_eq_same]
      omega
    · simp [openChange, Flat.closed, same]
  | unPinPage file pageNo dirty =>
    cases answer
    exact ⟨rfl, fun _ => (add_zero _).symm⟩
  | createFile name =>
    refine ⟨trivial, fun other => ?_⟩
    simp only [Flat.handle] at answer
    split_ifs at answer <;> cases answer <;> exact (add_zero _).symm
  | destroyFile name =>
    refine ⟨trivial, fun other => ?_⟩
    simp only [Flat.handle] at answer
    split_ifs at answer <;> cases answer <;> exact (add_zero _).symm
  | flushFile file =>
    cases answer
    exact ⟨trivial, fun _ => (add_zero _).symm⟩
  | getFirstPage file | readPage file | allocPage file | load file | store file =>
    obtain ⟨f, -, same⟩ := Option.map_eq_some_iff.mp answer
    cases same
    exact ⟨trivial, fun _ => (add_zero _).symm⟩

/-- Where the open count of a file stays the same but for what is in hand, so do
its pins. -/
theorem Handles.flat {α : Type} {p : Prog α} {after : α → Holdings → Prop} {st st' : Flat}
    {pins pins' : Pins} {value : α} (handles : Handling 0 p after)
    (returned : run (traced Flat.handle account) p (st, pins) = some (value, st', pins')) :
    ∃ held, after value held ∧ ∀ name, (st.openCnt name : Int) + held.2 name ≤ st'.openCnt name ∧
      ((st'.openCnt name : Int) = st.openCnt name + held.2 name →
        ∀ n, pins' (name, n) = pins (name, n) + held.1 (name, n)) := by
  obtain ⟨g, ⟨pinned, opened⟩, held, left, holds, waste, rfl⟩ :=
    (handles (pins, fun name => st.openCnt name)).sound
    (fun (s : Flat × Pins) g => s.2 = g.1 ∧ ∀ name, (s.1.openCnt name : Int) = g.2 name)
    (fun c s g reply t ⟨pinned, opened⟩ answer => by
      obtain ⟨⟨reply', u⟩, answer', pair⟩ := Option.map_eq_some_iff.mp answer
      cases pair
      obtain ⟨admitted, changed⟩ := accounting_flat answer'
      refine ⟨admitted, ?_, fun name => ?_⟩
      · change account c s.2 reply' = g.1 + account c 0 reply'
        rw [account_eq, pinned]
      · change (u.openCnt name : Int) = g.2 name + openChange c reply' name
        rw [changed, opened]) ⟨(add_zero _).symm, fun name => (add_zero _).symm⟩ returned
  refine ⟨held, holds, fun name => ?_⟩
  obtain ⟨low, none⟩ := waste name
  have total : (st'.openCnt name : Int) = st.openCnt name + (held.2 name + left.2 name) := opened name
  refine ⟨by omega, fun same n => ?_⟩
  have total' : pins' (name, n) = pins (name, n) + (held.1 (name, n) + left.1 (name, n)) :=
    congrFun pinned (name, n)
  rw [total', none (by omega) n, add_zero]

end Minirel
