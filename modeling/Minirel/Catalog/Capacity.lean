import Minirel.Catalog.History
import Minirel.Lib.Contract
import Minirel.HeapFile.Refinement

/-! The widths of records that the heap file of a new relation takes: the limit
of `createRel` against those of `InsertFileScan` and `Page`. -/
namespace Minirel
open Transition

namespace InsertFileScan
variable {h h' : HeapFile} {st st' : Flat} {name : Name} {m n : Int} {rec : Record}
    {status : Status}

/-- The page, if it is a data page, has the space of a new one. -/
def Roomy (st : Flat) (name : Name) (m : Int) : Prop :=
  ∀ f p, st.files name = some f → f.page m = .data p → p.freeSpace = 1004

theorem Roomy.store {image : Image} {u : Unit}
    (returned : Flat.run (Program.perform (StorageCall.store name n image)) st = some (u, st'))
    (roomy : n ≠ m → Roomy st name m) (fresh : n = m → ∀ p, image = .data p → p.freeSpace = 1004) :
    Roomy st' name m := by
  obtain ⟨f, there, rfl⟩ := Flat.run_store_inv returned
  intro g p there' image'
  rw [Flat.files_put] at there'
  cases there'
  by_cases same : n = m
  · subst same
    rw [FlatFile.set_page_self] at image'
    exact fresh rfl p image'
  · rw [FlatFile.set_page_of_ne _ _ (Ne.symm same)] at image'
    exact roomy same f p there image'

theorem Roomy.load {p : Page} (roomy : Roomy st name m)
    (returned : Flat.run (Storage.page name m) st = some (p, st')) : p.freeSpace = 1004 := by
  obtain ⟨f, there, image, rfl⟩ := Flat.run_page_inv returned
  exact roomy f p there image

theorem placed_no_error {rid : RID} {place : Prog Unit} :
    Flat.run (do place; return ((.ok rid : Except Status RID), ← counted h)) st ≠
      some ((.error status, h'), st') := by
  intro returned
  obtain ⟨_, _, _, returned⟩ := Program.run_bind_inv _ _ returned
  obtain ⟨_, _, _, returned⟩ := Program.run_bind_inv _ _ returned
  cases returned

/-- A new page takes any record of at most 1000 bytes. -/
theorem insertOnNewPage_no_error (small : rec.length ≤ 1000) :
    Flat.run (insertOnNewPage h rec) st ≠ some ((.error status, h'), st') := by
  intro returned
  unfold insertOnNewPage at returned
  obtain ⟨reply, st₁, alloc, rest₁⟩ := Program.run_bind_inv _ _ returned
  obtain ⟨f, there, rfl, rfl⟩ := Flat.run_allocPage_inv alloc
  simp only at rest₁
  obtain ⟨page, st₂, load, rest₂⟩ := Program.run_bind_inv _ _ rest₁
  obtain ⟨_, st₃, store, rest₃⟩ := Program.run_bind_inv _ _ rest₂
  have roomy₃ : Roomy st₃ h.filePtr f.numPages := Roomy.store store (fun apart => absurd rfl apart) (by
    rintro _ p same
    cases same
    rfl)
  obtain ⟨hdr, st₄, loadHeader, rest₄⟩ := Program.run_bind_inv _ _ rest₃
  obtain ⟨_, _, _, rfl⟩ := Flat.run_header_inv loadHeader
  obtain ⟨_, st₅, storeHeader, rest₅⟩ := Program.run_bind_inv _ _ rest₄
  have roomy₅ : Roomy st₅ h.filePtr f.numPages := Roomy.store storeHeader (fun _ => roomy₃) (by
    rintro _ p same
    cases same)
  cases cur : h.curPage with
  | none =>
    simp only [HeapFile.page, cur] at rest₅
    obtain ⟨_, _, halted, _⟩ := Program.run_bind_inv _ _ rest₅
    cases halted
  | some n =>
    simp only [HeapFile.page, HeapFile.setPage, cur] at rest₅
    obtain ⟨p, st₆, loadCur, rest₆⟩ := Program.run_bind_inv _ _ rest₅
    obtain ⟨_, _, _, rfl⟩ := Flat.run_page_inv loadCur
    obtain ⟨_, st₇, storeCur, rest₇⟩ := Program.run_bind_inv _ _ rest₆
    have roomy₇ : Roomy st₇ h.filePtr f.numPages := Roomy.store storeCur (fun _ => roomy₅) (by
      rintro rfl q same
      cases same
      have space : p.freeSpace = 1004 := roomy₅.load loadCur
      exact space)
    rw [Program.run_bind_of _ _ (Flat.run_unPinPage ..)] at rest₇
    simp only [ne_eq, not_true_eq_false, if_false] at rest₇
    obtain ⟨q, st₈, loadNew, rest₈⟩ := Program.run_bind_inv _ _ rest₇
    have space := roomy₇.load loadNew
    simp only [Page.insertRecord, space, show ¬ rec.length + 4 > 1004 by omega, if_false] at rest₈
    exact placed_no_error rest₈

/-- No record of at most 1000 bytes is refused for its length. -/
theorem insertRecord_takes (low : 0 ≤ rec.length) (small : rec.length ≤ 1000)
    (returned : Flat.run (insertRecord h rec) st = some ((.error status, h'), st')) :
    status ≠ .invalidRecLen ∧ status ≠ .noSpace := by
  unfold insertRecord at returned
  rw [if_neg (by simp only [pageSize, dpFixed]; omega)] at returned
  have attempt : ∀ {k : HeapFile} {st₁ : Flat},
      ¬ Flat.run (k.page >>= insertOnPage k rec) st₁ = some ((.error status, h'), st') := by
    intro k st₁ returned
    obtain ⟨p, st₂, _, rest⟩ := Program.run_bind_inv _ _ returned
    rw [insertOnPage] at rest
    split at rest
    · exact placed_no_error rest
    · exact insertOnNewPage_no_error small rest
  simp only at returned
  split at returned
  · obtain ⟨hdr, st₁, _, rest₁⟩ := Program.run_bind_inv _ _ returned
    obtain ⟨result, st₂, read, rest₂⟩ := Program.run_bind_inv _ _ rest₁
    split at rest₂
    next failed =>
      cases rest₂
      obtain ⟨rfl | rfl | rfl, _⟩ := Flat.run_readPage_inv read
      · exact absurd rfl failed
      · exact ⟨by simp, by simp⟩
      · exact ⟨by simp, by simp⟩
    next => exact absurd rest₂ attempt
  · exact absurd returned attempt

variable {f : FlatFile} {hdr : FileHdrPage} {chain : Chain} {bytes : List UInt8}

/-- A longer record is refused in every state of the file. -/
theorem insertRecord_refuses (heap : Heap f hdr chain) (there : st.files name = some f)
    (opened : h.Opened name f hdr.lastPage) (large : 1000 < bytes.length) :
    ∃ status h' st', Flat.run (insertRecord h (.ofBytes bytes)) st =
      some ((.error status, h'), st') ∧ (status = .invalidRecLen ∨ status = .noSpace) := by
  have length := Record.ofBytes_length bytes
  by_cases huge : 1004 < bytes.length
  · exact ⟨.invalidRecLen, h, st, insertRecord_invalid (.inr (by omega)), .inl rfl⟩
  · obtain ⟨p, pre, rfl⟩ := heap.last_page
    obtain ⟨h', g, run, _, _⟩ := insertRecord_noSpace (.ofBytes bytes) heap there opened (by omega)
      (by omega)
    exact ⟨.noSpace, h', st.put name g, run, .inr rfl⟩

end InsertFileScan

/-! A lookup that fails gives a status other than OK. -/

section failures
open Program

abbrev Sane {α : Type} (result : Except Status α) : Prop := result ≠ .error .ok

theorem HeapFile.new_sane (name : Name) :
    (HeapFile.new name).Ensures (.free StorageCall.Reply) () (fun result _ => Sane result) := by
  simp only [HeapFile.new, ensures_bind, ensures_ite, ensures_pure, Storage.openFile,
    Storage.getFirstPage, ensures_perform]
  refine fun status _ => ⟨fun failed same => failed (Except.error.inj same), fun _ reply _ => ?_⟩
  cases reply with
  | error => trivial
  | ok n =>
    simp only [ensures_bind, ensures_ite, ensures_pure]
    refine .of_forall fun _ _ =>
      ⟨fun _ => trivial, fun _ => .of_forall fun _ _ => .of_forall fun _ _ same => ?_⟩
    cases same

theorem openLookup_sane (fileName relation : Name) :
    (openLookup fileName relation).Ensures (.free StorageCall.Reply) ()
      (fun result _ => Sane result) := by
  simp only [openLookup, HeapFileScan.new, ensures_bind]
  refine (HeapFile.new_sane fileName).mono fun result _ sane => ?_
  cases result with
  | error status => exact fun same => sane (congrArg _ (Except.error.inj same))
  | ok h =>
    simp only [ensures_pure, ensures_ite, ensures_bind]
    exact ⟨fun failed => .of_forall fun _ _ same => failed (Except.error.inj same), fun _ same =>
      by cases same⟩

theorem HeapFileScan.getRecord_sane (s : HeapFileScan) :
    s.getRecord.Ensures (.free StorageCall.Reply) () (fun result _ => Sane result) := by
  simp only [HeapFileScan.getRecord, ensures_bind, ensures_pure]
  refine .of_forall fun page _ => ?_
  simp only [Page.getRecord]
  split <;> simp

theorem RelCatalog.getInfo_sane (fuel : Nat) (relation : Name) :
    (getInfo fuel relation).Ensures (.free StorageCall.Reply) () (fun result _ => Sane result) := by
  simp only [getInfo, ensures_bind, ensures_ite, ensures_pure]
  refine ⟨fun _ => by simp, fun _ => (openLookup_sane _ _).mono fun result _ sane => ?_⟩
  cases result with
  | error status => exact fun same => sane (congrArg _ (Except.error.inj same))
  | ok hfs =>
    simp only [ensures_bind, ensures_ite, ensures_pure]
    refine .of_forall fun r _ =>
      ⟨fun failed => ?_, fun _ => r.2.getRecord_sane.mono fun rec _ sane => ?_⟩
    · refine .of_forall fun _ _ => .of_forall fun _ _ same => ?_
      have same := Except.error.inj same
      split at same
      · cases same
      · exact failed same
    · cases rec with
      | error status => exact fun same => sane (congrArg _ (Except.error.inj same))
      | ok bytes =>
        simp only [ensures_bind, ensures_ite, ensures_pure]
        refine ⟨fun _ => trivial, fun _ => .of_forall fun ended _ => .of_forall fun _ _ => ?_⟩
        exact ⟨fun failed same => failed (Except.error.inj same), fun _ same => by cases same⟩

end failures

theorem RelCatalog.createRel_created {fuel : Nat} {relation : Name} {attrList : List AttrInfo}
    {st st' : Flat} (returned : Flat.run (createRel fuel relation attrList) st = some (.ok, st')) :
    ∃ st₁, Flat.run (createHeapFile relation) st₁ = some (.ok, st') := by
  unfold createRel at returned
  split at returned
  · cases returned
  split at returned
  · cases returned
  obtain ⟨info, st₁, info', rest₁⟩ := Program.run_bind_inv _ _ returned
  split at rest₁
  · cases rest₁
  split at rest₁
  next other =>
    cases rest₁
    exact absurd rfl ((getInfo_sane fuel relation).sound_free info')
  split at rest₁
  · cases rest₁
  split at rest₁
  · cases rest₁
  obtain ⟨added, st₂, _, rest₂⟩ := Program.run_bind_inv _ _ rest₁
  split at rest₂
  next failed =>
    cases rest₂
    exact absurd rfl failed
  obtain ⟨added', st₃, _, rest₃⟩ := Program.run_bind_inv _ _ rest₂
  split at rest₃
  next failed =>
    cases rest₃
    exact absurd rfl failed
  exact ⟨st₃, rest₃⟩

namespace Sessions

/-- The calls of `Step`, and insertions of records of any length, whatever they
return. -/
inductive AnyStep (name : Name) : Sessions → Action → Sessions → Prop
  | call {w w' : Sessions} {action : Action} (step : Step name w action w') : AnyStep name w action w'
  | insertRecord (call : Flat.run (InsertFileScan.insertRecord h (.ofBytes bytes)) st =
      some ((result, h'), st')) :
      AnyStep name ⟨st, .inserting h, records⟩ (.insertRecord bytes) ⟨st', .inserting h', records'⟩

/-- In no state that clients of the file can bring about is a record of the
given width refused for its length. -/
def Fillable (name : Name) (width : Int) (st : Flat) : Prop :=
  ∀ w, Reachable (· = ⟨st, .idle, fun _ => none⟩) (AnyStep name) w → ∀ h, w.session = .inserting h →
    ∀ bytes status h' st', (bytes.length : Int) = width →
      Flat.run (InsertFileScan.insertRecord h (.ofBytes bytes)) w.storage =
        some ((.error status, h'), st') →
      status ≠ .invalidRecLen ∧ status ≠ .noSpace

theorem not_fillable {fuel : Nat} {relation : Name} {attrList : List AttrInfo} {st st' : Flat}
    (created : Flat.run (RelCatalog.createRel fuel relation attrList) st = some (.ok, st'))
    (wide : 1000 < RelCatalog.tupleWidth attrList) :
    ¬ Fillable relation (RelCatalog.tupleWidth attrList) st' := by
  intro fillable
  obtain ⟨st₁, create⟩ := RelCatalog.createRel_created created
  obtain ⟨named, f, hdr, chain, there, heap, _⟩ :=
    Created.invariant (w := ⟨st', .idle, fun _ => none⟩) ⟨st₁, create, rfl, rfl⟩
  obtain ⟨h, start, opened⟩ := InsertFileScan.new_spec heap there named
  have reached : Reachable (· = ⟨st', .idle, fun _ => none⟩) (AnyStep relation)
    ⟨st'.opened relation, .inserting h, fun _ => none⟩ :=
      .next (.initial rfl) (.call (.openInsert start))
  have width : ((List.replicate (RelCatalog.tupleWidth attrList).toNat (0 : UInt8)).length : Int) =
      RelCatalog.tupleWidth attrList := by
    rw [List.length_replicate]
    omega
  obtain ⟨status, h', st'', refused, why⟩ := InsertFileScan.insertRecord_refuses heap
    (show (st'.opened relation).files relation = some f from there) opened
    (show 1000 < (List.replicate (RelCatalog.tupleWidth attrList).toNat 0).length by omega)
  have taken := fillable _ reached h rfl _ status h' st'' width refused
  rcases why with rfl | rfl
  · exact taken.1 rfl
  · exact taken.2 rfl

/-- A relation can be filled exactly when its tuples have at most 1000 bytes. -/
theorem fillable_iff {fuel : Nat} {relation : Name} {attrList : List AttrInfo} {st st' : Flat}
    (created : Flat.run (RelCatalog.createRel fuel relation attrList) st = some (.ok, st')) :
    Fillable relation (RelCatalog.tupleWidth attrList) st' ↔
      RelCatalog.tupleWidth attrList ≤ 1000 := by
  constructor
  · intro fillable
    by_contra wide
    exact not_fillable created (by omega) fillable
  · intro narrow w _ h _ bytes status h' st'' width returned
    refine InsertFileScan.insertRecord_takes ?_ ?_ returned
    · rw [Record.ofBytes_length]
      omega
    · rw [Record.ofBytes_length]
      omega

/-- A relation of one integer can be filled. -/
theorem fillable_iff_int : ∃ st, Fillable (chars "r") 4 st := by
  obtain ⟨_, st, _, _, _, bound, returns⟩ := Recorded.exists_createRel_run (chars "r")
    [⟨chars "r", chars "a", 1, 4, none⟩] (by decide) ⟨by decide, by decide, by decide⟩
    (fun _ => ⟨by decide, by decide, by decide, rfl, by decide, by decide⟩) (by decide)
  exact ⟨st, (fillable_iff (returns bound (Nat.le_refl _))).mpr (by decide)⟩

/-- Four strings of 255 characters and an integer fill a page of 1024 bytes, and
no record of that width can be inserted. -/
theorem created_not_fillable :
    let attrs : List AttrInfo :=
      [⟨chars "r", chars "a", 0, 255, none⟩, ⟨chars "r", chars "b", 0, 255, none⟩,
      ⟨chars "r", chars "c", 0, 255, none⟩, ⟨chars "r", chars "d", 0, 255, none⟩,
        ⟨chars "r", chars "e", 1, 4, none⟩]
    ∃ fuel st st', Flat.run (RelCatalog.createRel fuel (chars "r") attrs) st = some (.ok, st') ∧
      RelCatalog.tupleWidth attrs = 1024 ∧
        ¬ Fillable (chars "r") (RelCatalog.tupleWidth attrs) st' := by
  intro attrs
  obtain ⟨st, st', _, _, _, bound, returns⟩ :=
    Recorded.exists_createRel_run (chars "r") attrs (by decide)
    ⟨by decide, by decide, by decide⟩
      (fun _ => ⟨by decide, by decide, by decide, rfl, by decide, by decide⟩) (by decide)
  have run := returns bound (Nat.le_refl _)
  exact ⟨bound, st, st', run, by decide, not_fillable run (by decide)⟩

end Sessions
end Minirel
