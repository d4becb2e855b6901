import Mathlib.Logic.Function.Basic
import Minirel.Page.Layout
import Minirel.Lib.Transition
import Minirel.Lib.Enumerate

/-! The page as a finite map from slot numbers to byte strings. -/
namespace Minirel.Page
open Transition Enumerate Function

variable {p q : Page} {i : Int} {bytes : List UInt8}

/-- The bytes bound to a slot number; clients see slot numbers, which are the
negated array indices. -/
def binding (p : Page) (slotNo : Int) : Option (List UInt8) :=
  if p.Live (-slotNo) then some (p.record (-slotNo)) else none

theorem binding_live (live : p.Live (-slotNo)) : p.binding slotNo = some (p.record (-slotNo)) :=
  if_pos live

theorem binding_dead (dead : ¬ p.Live (-slotNo)) : p.binding slotNo = none :=
  if_neg dead

theorem binding_ne_none : p.binding slotNo ≠ none ↔ p.Live (-slotNo) := by
  unfold binding
  split <;> simp [*]

theorem binding_init (p : Page) (pageNo : Int) : (p.init pageNo).binding = fun _ => none := by
  funext k
  apply binding_dead
  rintro ⟨h1, h2, _⟩
  simp only [init] at h1
  omega

/-- A slot number bound by neither page, or by both to the same bytes. -/
theorem binding_congr (live : q.Live (-k) ↔ p.Live (-k))
    (same : p.Live (-k) → q.record (-k) = p.record (-k)) : q.binding k = p.binding k := by
  by_cases bound : p.Live (-k)
  · rw [binding_live bound, binding_live (live.mpr bound), same bound]
  · rw [binding_dead bound, binding_dead (fun h => bound (live.mp h))]

theorem binding_setNextPage (n : Int) : (p.setNextPage n).binding = p.binding := by
  funext k
  refine binding_congr (live_setNextPage n) (fun live => ?_)
  unfold record
  rw [slot_setNextPage n live.2.1]
  rfl

theorem Inserted.binding (ins : Inserted p bytes (-k) q) (inv : p.Invariant)
    (nonempty : 0 < bytes.length) : q.binding = update p.binding k (some bytes) := by
  funext j
  have live := ins.live_iff nonempty (-j)
  by_cases same : j = k
  · subst same
    rw [update_self, binding_live (live.mpr (Or.inl rfl)), ins.record_new]
  · rw [update_of_ne same]
    refine binding_congr (live.trans (or_iff_right (by omega))) (fun h => ins.record_old inv h)

theorem Deleted.binding (del : Deleted p (-k) q) (inv : p.Invariant) :
    q.binding = update p.binding k none := by
  funext j
  have live := del.live_iff (-j)
  by_cases same : j = k
  · subst same
    rw [update_self]
    exact binding_dead (fun h => (live.mp h).2 rfl)
  · rw [update_of_ne same]
    have apart : -j ≠ -k := by omega
    exact binding_congr (live.trans (and_iff_left apart)) (fun h => del.record inv h apart)

/-- What a successful insertion does, in terms of the map: the least free slot
number is bound. -/
structure Binds (p : Page) (bytes : List UInt8) (k : Int) (q : Page) : Prop where
  invariant : q.Invariant
  nonneg : 0 ≤ k
  free : p.binding k = none
  first : ∀ j, 0 ≤ j → j < k → p.binding j ≠ none
  binding : q.binding = update p.binding k (some bytes)
  next : q.nextPage = p.nextPage
  cur : q.curPage = p.curPage

/-- A record that fits is bound to the least free slot number. -/
theorem insertRecord_spec (inv : p.Invariant) (nonempty : 0 < bytes.length)
    (fits : (bytes.length : Int) + 4 ≤ p.freeSpace) :
    ∃ k q, p.insertRecord (.ofBytes bytes) = .ok (⟨p.curPage, k⟩, q) ∧ Binds p bytes k q := by
  obtain ⟨i, q, run, ins⟩ := insertRecord_fits inv fits
  have atNeg : Inserted p bytes (- -i) q := by rwa [Int.neg_neg]
  refine ⟨-i, q, run, ins.invariant inv nonempty fits, ?_, ?_, ?_, atNeg.binding inv nonempty,
    ins.next, ins.cur⟩
  · have := ins.hole.below
    omega
  · exact binding_dead atNeg.was_free
  · intro j h1 h2
    have skipped := ins.hole.skipped (-j) (by omega) (by omega)
    have above := ins.hole.above
    exact binding_ne_none.mpr ⟨by omega, by omega, by simpa using skipped⟩

/-- What a successful deletion does, in terms of the map. -/
structure Unbinds (p : Page) (k : Int) (q : Page) : Prop where
  invariant : q.Invariant
  binding : q.binding = update p.binding k none
  next : q.nextPage = p.nextPage
  cur : q.curPage = p.curPage

theorem deleteRecord_spec {rid : RID} (inv : p.Invariant) (bound : p.binding rid.slotNo ≠ none) :
    ∃ q, p.deleteRecord rid = .ok q ∧ Unbinds p rid.slotNo q := by
  obtain ⟨q, run, del⟩ := deleteRecord_live inv (binding_ne_none.mp bound)
  exact ⟨q, run, del.invariant inv, del.binding inv, del.next, del.cur⟩

theorem getRecord_spec {rid : RID} (inv : p.Invariant) (bound : p.binding rid.slotNo = some bytes) :
    p.getRecord rid = .ok bytes := by
  have live : p.Live (-rid.slotNo) := binding_ne_none.mp (by rw [bound]; simp)
  rw [getRecord_live inv live]
  rw [binding_live live] at bound
  exact congrArg Except.ok (Option.some.inj bound)

theorem getRecord_unbound {rid : RID} (nonneg : 0 ≤ rid.slotNo)
    (unbound : p.binding rid.slotNo = none) : p.getRecord rid = .error .invalidSlotNo := by
  have dead : ¬ p.Live (-rid.slotNo) := fun live => binding_ne_none.mpr live unbound
  simp only [getRecord]
  rw [if_neg]
  rintro ⟨inside, positive⟩
  exact dead ⟨inside, by omega, by omega⟩

/-! Iteration. A page has room for at most 251 slots, so its records are listed
by the keys below that bound. -/

/-- The records after slot number `k`, in slot order. -/
def after (p : Page) (k : Int) : List (Int × List UInt8) := span p.binding (k + 1) 251

def entries (p : Page) : List (Int × List UInt8) := span p.binding 0 251

theorem after_of_entries (none : p.entries = []) (k : Int) (start : -1 ≤ k) : p.after k = [] := by
  apply span_eq_nil
  intro j h1 h2
  by_contra bound
  obtain ⟨b, bound⟩ := Option.ne_none_iff_exists'.mp bound
  have member : (j, b) ∈ p.entries := mem_span.mpr ⟨by omega, h2, bound⟩
  rw [none] at member
  cases member

theorem binding_of_neg (h : k < 0) : p.binding k = none :=
  binding_dead (fun live => by have := live.2.1; omega)

theorem binding_of_slotCnt (h : -p.slotCnt ≤ k) : p.binding k = none :=
  binding_dead (fun live => by have := live.1; omega)

theorem Invariant.slotCnt_ge (inv : p.Invariant) : -251 ≤ p.slotCnt := by
  have space := inv.space_eq
  have used := inv.used
  have room := inv.room
  omega

theorem Invariant.binding_bounds (inv : p.Invariant) (bound : p.binding k = some bytes) :
    0 ≤ k ∧ k < 251 := by
  have live : p.Live (-k) := binding_ne_none.mp (by rw [bound]; simp)
  have inside := live.1
  have below := live.2.1
  have := inv.slotCnt_ge
  omega

/-- A record takes its bytes and a slot out of the free space. -/
theorem Invariant.freeSpace_le (inv : p.Invariant) (bound : p.binding k = some bytes) :
    p.freeSpace + bytes.length + 4 ≤ 1004 := by
  have live : p.Live (-k) := binding_ne_none.mp (by rw [bound]; simp)
  rw [binding_live live] at bound
  obtain ⟨positive, low, high⟩ := inv.extent _ live
  have size : bytes.length = (p.slot (-k)).length.toNat := by
    rw [← Option.some.inj bound, record, ByteMemory.read_length]
  have space := inv.space_eq
  have inside := live.1
  have below := live.2.1
  omega

/-- The records listed after an insertion: the new one joins at its slot. -/
theorem Binds.entries (binds : Binds p bytes k q) :
    p.entries = span p.binding 0 k ++ p.after k ∧
      q.entries = span p.binding 0 k ++ (k, bytes) :: p.after k := by
  have new : q.binding k = some bytes := by rw [binds.binding, update_self]
  have small := (binds.invariant.binding_bounds new).2
  refine ⟨span_miss binds.nonneg small binds.free, ?_⟩
  rw [Page.entries, span_hit binds.nonneg small new, binds.binding,
    span_update_outside (Or.inr (Int.le_refl k)),
    span_update_outside (Or.inl (Int.lt_add_one_iff.mpr (Int.le_refl k)))]
  rfl

/-- The records listed after a deletion; those behind it stay the same. -/
theorem Unbinds.entries (unbinds : Unbinds p k q) (inv : p.Invariant)
    (bound : p.binding k = some bytes) :
    p.entries = span p.binding 0 k ++ (k, bytes) :: p.after k ∧
      q.entries = span p.binding 0 k ++ p.after k ∧ q.after k = p.after k := by
  obtain ⟨nonneg, small⟩ := inv.binding_bounds bound
  have gone : q.binding k = none := by rw [unbinds.binding, update_self]
  have behind : span q.binding (k + 1) 251 = p.after k := by
    rw [unbinds.binding, span_update_outside (Or.inl (Int.lt_add_one_iff.mpr (Int.le_refl k)))]
    rfl
  refine ⟨span_hit nonneg small bound, ?_, behind⟩
  rw [Page.entries, span_miss nonneg small gone, behind, unbinds.binding,
    span_update_outside (Or.inr (Int.le_refl k))]

/-- A search for a used slot finds the first record from `lo` on, if any. -/
theorem sought_record (inv : p.Invariant) {lo i : Int} (nonneg : 0 ≤ lo)
    (sought : Sought p (fun s => s.length != -1) (-lo) i) :
    (i = p.slotCnt ∧ span p.binding lo 251 = []) ∨
    (p.slotCnt < i ∧ (p.slot i).length ≠ -1 ∧
      ∃ b, p.binding (-i) = some b ∧ span p.binding lo 251 = (-i, b) :: p.after (-i)) := by
  have above := sought.above
  have below := sought.below
  have count := inv.slotCnt_ge
  have skipped : ∀ k, lo ≤ k → k < -i → p.binding k = none := by
    intro k h1 h2
    apply binding_dead
    intro live
    have empty := sought.skipped (-k) (by omega) (by omega)
    exact live.2.2 (by simpa using empty)
  rcases Int.lt_or_eq_of_le above with inside | outside
  · have found := sought.found inside
    have live : p.Live (- -i) := by
      rw [Int.neg_neg]
      exact ⟨inside, by omega, by simpa using found⟩
    refine Or.inr ⟨inside, by simpa using found, _, binding_live live, ?_⟩
    rw [span_hit (by omega) (by omega) (binding_live live), span_eq_nil skipped]
    rfl
  · refine Or.inl ⟨outside.symm, span_eq_nil (fun k h1 h2 => ?_)⟩
    by_cases low : k < -i
    · exact skipped k h1 low
    · exact binding_of_slotCnt (by omega)

/-- The first entry of the map, if there is one. -/
theorem firstRecord_spec (inv : p.Invariant) :
    (p.firstRecord = .error .noRecords ∧ p.entries = []) ∨
    ∃ k b, p.firstRecord = .ok ⟨p.curPage, k⟩ ∧ p.binding k = some b ∧
      p.entries = (k, b) :: p.after k := by
  have sought := seekFrom_spec p (fun s => s.length != -1) inv.count
  unfold firstRecord
  generalize p.seekFrom (fun s => s.length != -1) 0 = i at sought
  rcases sought_record inv (Int.le_refl 0) sought with ⟨out, none⟩ | ⟨inside, used, b, bound, list⟩
  · exact Or.inl ⟨if_pos (Or.inl out), none⟩
  · exact Or.inr ⟨-i, b, if_neg (by rintro (h | h) <;> omega), bound, list⟩

/-- Only the slot number of the current record matters; it need not be bound. -/
theorem nextRecord_spec (inv : p.Invariant) {rid : RID} (start : -1 ≤ rid.slotNo) :
    (p.nextRecord rid = .error .endOfPage ∧ p.after rid.slotNo = []) ∨
    ∃ k b, p.nextRecord rid = .ok ⟨p.curPage, k⟩ ∧ rid.slotNo < k ∧ p.binding k = some b ∧
      p.after rid.slotNo = (k, b) :: p.after k := by
  unfold nextRecord
  by_cases behind : -rid.slotNo - 1 < p.slotCnt
  · refine Or.inl ⟨?_, span_eq_nil (fun k h1 h2 => binding_of_slotCnt (by omega))⟩
    have stays : p.seekFrom (fun s => s.length != -1) (-rid.slotNo - 1) = -rid.slotNo - 1 := by
      unfold seekFrom
      rw [show (-rid.slotNo - 1 - p.slotCnt).toNat = 0 by omega]
      rfl
    simp only [stays]
    exact if_pos (Or.inl (by omega))
  · have sought := seekFrom_spec p (fun s => s.length != -1) (show p.slotCnt ≤ -rid.slotNo - 1 by omega)
    generalize p.seekFrom (fun s => s.length != -1) (-rid.slotNo - 1) = i at sought
    have below := sought.below
    have from_next : Sought p (fun s => s.length != -1) (-(rid.slotNo + 1)) i := by
      rwa [show -(rid.slotNo + 1) = -rid.slotNo - 1 by omega]
    rcases sought_record inv (by omega) from_next with ⟨out, none⟩ | ⟨inside, used, b, bound, list⟩
    · exact Or.inl ⟨if_pos (Or.inl (by omega)), none⟩
    · exact Or.inr ⟨-i, b, if_neg (by rintro (h | h) <;> omega), by omega, bound, list⟩

/-! Runs of the two updates. -/

inductive Op
  | insert (bytes : List UInt8)
  | delete (rid : RID)

/-- The lengths `InsertFileScan::insertRecord` lets through, and the slot
numbers of the record identifiers handed out. -/
def Op.Admissible : Op → Prop
  | .insert bytes => 1 ≤ bytes.length ∧ bytes.length ≤ pageSize - dpFixed
  | .delete rid => 0 ≤ rid.slotNo

instance (op : Op) : Decidable op.Admissible :=
  match op with
  | .insert _ => inferInstanceAs (Decidable (_ ∧ _))
  | .delete rid => inferInstanceAs (Decidable (0 ≤ rid.slotNo))

/-- The page after the call; a failed call returns before it writes. -/
def apply (p : Page) : Op → Page
  | .insert bytes =>
    match p.insertRecord (.ofBytes bytes) with
    | .ok (_, q) => q
    | .error _ => p
  | .delete rid =>
    match p.deleteRecord rid with
    | .ok q => q
    | .error _ => p

def Fresh (p : Page) : Prop := ∃ frame pageNo, p = init frame pageNo

def Update (p : Page) (op : Op) (q : Page) : Prop := op.Admissible ∧ q = p.apply op

theorem Invariant.apply (inv : p.Invariant) {op : Op} (admissible : op.Admissible) :
    (p.apply op).Invariant := by
  cases op with
  | insert bytes =>
    by_cases fits : (bytes.length : Int) + 4 ≤ p.freeSpace
    · obtain ⟨k, q, run, binds⟩ := insertRecord_spec inv admissible.1 fits
      simp only [Page.apply, run]
      exact binds.invariant
    · simp only [Page.apply, insertRecord_full (.ofBytes bytes) (by simpa using fits)]
      exact inv
  | delete rid =>
    by_cases bound : p.Live (-rid.slotNo)
    · obtain ⟨q, run, del⟩ := deleteRecord_live inv bound
      simp only [Page.apply, run]
      exact del.invariant inv
    · simp only [Page.apply, deleteRecord_dead admissible bound]
      exact inv

theorem reachable_invariant (reached : Reachable Fresh Update p) : p.Invariant := by
  refine reached.invariant ?_ ?_
  · rintro _ ⟨frame, pageNo, rfl⟩
    exact init_invariant frame pageNo
  · rintro p op _ inv ⟨admissible, rfl⟩
    exact inv.apply admissible

def FitsShort (v : Int) : Prop := -32768 ≤ v ∧ v < 32768

/-- The representation invariant, with what follows from it about the slot
array and the width of the fields. -/
structure WellFormed (p : Page) : Prop extends Invariant p where
  separate : ∀ i j, p.Live i → p.slotCnt < j → (p.slot i).offset + (p.slot i).length ≤ slotAddr j
  counters : FitsShort p.slotCnt ∧ FitsShort p.freePtr ∧ FitsShort p.freeSpace
  entries : ∀ i, p.slotCnt < i → i ≤ 0 → FitsShort (p.slot i).offset ∧ FitsShort (p.slot i).length

/-- The four operations are those of a partial map on slot numbers. -/
structure ActsAsMap (p : Page) : Prop where
  insert : ∀ bytes : List UInt8, 1 ≤ bytes.length → ¬ (bytes.length : Int) + 4 > p.freeSpace →
    ∃ slotNo q, p.insertRecord (.ofBytes bytes) = .ok (⟨p.curPage, slotNo⟩, q) ∧ 0 ≤ slotNo ∧
      p.binding slotNo = none ∧ q.binding = update p.binding slotNo (some bytes)
  noSpace : ∀ bytes : List UInt8, 1 ≤ bytes.length →
    (p.insertRecord (.ofBytes bytes) = .error .noSpace ↔ (bytes.length : Int) + 4 > p.freeSpace)
  delete : ∀ rid : RID, p.binding rid.slotNo ≠ none →
    ∃ q, p.deleteRecord rid = .ok q ∧ q.binding = update p.binding rid.slotNo none
  absent : ∀ rid : RID, 0 ≤ rid.slotNo → p.binding rid.slotNo = none →
    p.deleteRecord rid = .error .invalidSlotNo ∧ p.getRecord rid = .error .invalidSlotNo
  get : ∀ (rid : RID) (bytes : List UInt8), p.binding rid.slotNo = some bytes →
    p.getRecord rid = .ok bytes

theorem Invariant.wellFormed (inv : p.Invariant) : p.WellFormed := by
  have space := inv.space_eq
  have room := inv.room
  have used := inv.used
  have count := inv.count
  refine ⟨inv, ?_, ⟨⟨by omega, by omega⟩, ⟨by omega, by omega⟩, ⟨by omega, by omega⟩⟩, ?_⟩
  · intro i j live inside
    have extent := inv.extent i live
    rw [slotAddr_eq]
    omega
  · intro i inside below
    rw [slot_of_nonpos below]
    exact ⟨ByteMemory.getShort_fits _ _, ByteMemory.getShort_fits _ _⟩

theorem Invariant.actsAsMap (inv : p.Invariant) : p.ActsAsMap := by
  constructor
  · intro bytes nonempty fits
    obtain ⟨k, q, run, binds⟩ := insertRecord_spec inv nonempty (by omega)
    exact ⟨k, q, run, binds.nonneg, binds.free, binds.binding⟩
  · intro bytes nonempty
    constructor
    · intro failed
      by_contra fits
      obtain ⟨k, q, run, _⟩ := insertRecord_spec inv nonempty (by omega)
      rw [run] at failed
      cases failed
    · intro full
      exact insertRecord_full _ (by simpa using full)
  · intro rid bound
    obtain ⟨q, run, unbinds⟩ := deleteRecord_spec inv bound
    exact ⟨q, run, unbinds.binding⟩
  · intro rid nonneg unbound
    exact ⟨deleteRecord_dead nonneg (fun live => binding_ne_none.mpr live unbound),
      getRecord_unbound nonneg unbound⟩
  · intro rid bytes bound
    exact getRecord_spec inv bound

/-- Every page reached from `init` by insertions and deletions satisfies the
representation invariant and acts as a map. -/
theorem page_refines_map (reached : Reachable Fresh Update p) : p.WellFormed ∧ p.ActsAsMap :=
  ⟨(reachable_invariant reached).wellFormed, (reachable_invariant reached).actsAsMap⟩

/-- The frame held garbage; two records are inserted and the first deleted. -/
theorem page_refines_map_garbage :
    let frame : Page := ⟨fun _ => 171, 5, 900, -3, 0, 17, 17⟩
    let p := (((frame.init 3).apply (.insert [7, 7])).apply (.insert [9])).apply (.delete ⟨3, 0⟩)
    p.binding 1 = some [9] ∧ p.WellFormed ∧ p.ActsAsMap :=
  ⟨by decide +kernel, page_refines_map (.next (a := .delete ⟨3, 0⟩) (.next (a := .insert [9])
    (.next (a := .insert [7, 7]) (.initial ⟨_, 3, rfl⟩) ⟨by decide, rfl⟩) ⟨by decide, rfl⟩)
    ⟨by decide, rfl⟩)⟩

end Minirel.Page
