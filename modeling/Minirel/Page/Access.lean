import Minirel.Lib.Access
import Minirel.Page.Refinement

/-! The entries of the slot array that `getRecord` and `deleteRecord` read. The
two functions are repeated here with every access made visible. -/
namespace Minirel.Page
open Transition ByteMemory

def slotA (p : Page) (i : Int) : Access Int Slot := Access.read p.slot i

def getRecordA (p : Page) (rid : RID) : Access Int (Except Status (List UInt8)) := do
  let slotNo := -rid.slotNo
  if slotNo > p.slotCnt then
    if (← p.slotA slotNo).length > 0 then
      let offset := (← p.slotA slotNo).offset
      return .ok (read p.mem offset (← p.slotA slotNo).length.toNat)
    else return .error .invalidSlotNo
  else return .error .invalidSlotNo

def shiftSlotA (p : Page) (slotNo recLen i : Int) : Access Int Page := do
  if (← p.slotA i).length ≥ 0 then
    if (← p.slotA i).offset > (← p.slotA slotNo).offset then
      return p.setOffset i ((← p.slotA i).offset - recLen)
    else return p
  else return p

def shiftSlotsA (slotNo recLen : Int) : Nat → Int → Page → Access Int Page
  | 0, _, p => return p
  | n + 1, i, p => do shiftSlotsA slotNo recLen n (i - 1) (← p.shiftSlotA slotNo recLen i)

def trimSlotsA : Nat → Page → Access Int Page
  | 0, p => return p.trimSlot
  | n + 1, p => do
    let p := p.trimSlot
    if p.slotCnt < 0 then
      if (← p.slotA (p.slotCnt + 1)).length = -1 then trimSlotsA n p else return p
    else return p

def compactA (p : Page) (slotNo : Int) : Access Int Page := do
  let offset := (← p.slotA slotNo).offset
  let recLen := (← p.slotA slotNo).length
  let cnt := p.freePtr - (offset + recLen)
  let p := { p with mem := move p.mem (offset + recLen) offset cnt.toNat }
  let p ← shiftSlotsA slotNo recLen (-p.slotCnt).toNat 0 p
  return { p with freePtr := short (p.freePtr - recLen), freeSpace := short (p.freeSpace + recLen) }

def deleteRecordA (p : Page) (rid : RID) : Access Int (Except Status Page) := do
  let slotNo := -rid.slotNo
  if slotNo > p.slotCnt then
    if (← p.slotA slotNo).length > 0 then
      let p ← p.compactA slotNo
      if slotNo = p.slotCnt + 1 then return .ok (← trimSlotsA (-p.slotCnt).toNat p)
      else return .ok ((p.setLength slotNo (-1)).setOffset slotNo 0)
    else return .error .invalidSlotNo
  else return .error .invalidSlotNo

/-! The results are the same. -/

variable {p : Page} {rid : RID}

@[simp] theorem slotA_value (i : Int) : (p.slotA i).value = p.slot i := rfl

theorem getRecordA_value (p : Page) (rid : RID) : (p.getRecordA rid).value = p.getRecord rid := by
  simp only [getRecordA, getRecord]
  by_cases inside : -rid.slotNo > p.slotCnt
  · by_cases used : (p.slot (-rid.slotNo)).length > 0
    · simp [inside, used]
    · simp [inside, used]
  · simp [inside]

theorem shiftSlotA_value (p : Page) (slotNo recLen i : Int) :
    (p.shiftSlotA slotNo recLen i).value = p.shiftSlot slotNo recLen i := by
  simp only [shiftSlotA, shiftSlot]
  by_cases used : (p.slot i).length ≥ 0
  · by_cases right : (p.slot i).offset > (p.slot slotNo).offset
    · simp [used, right]
    · simp [used, right]
  · simp [used]

theorem shiftSlotsA_value (slotNo recLen : Int) (n : Nat) (i : Int) (p : Page) :
    (shiftSlotsA slotNo recLen n i p).value = shiftSlots slotNo recLen n i p := by
  induction n generalizing i p with
  | zero => rfl
  | succ n ih => simp only [shiftSlotsA, shiftSlots, Access.value_bind, shiftSlotA_value, ih]

theorem trimSlotsA_value (n : Nat) (p : Page) : (trimSlotsA n p).value = trimSlots n p := by
  induction n generalizing p with
  | zero => rfl
  | succ n ih =>
    simp only [trimSlotsA, trimSlots]
    by_cases negative : p.trimSlot.slotCnt < 0
    · by_cases empty : (p.trimSlot.slot (p.trimSlot.slotCnt + 1)).length = -1
      · simp [negative, empty, ih]
      · simp [negative, empty]
    · simp [negative]

theorem compactA_value (p : Page) (slotNo : Int) :
    (p.compactA slotNo).value = p.compact slotNo := by
  simp [compactA, compact, shiftSlotsA_value]

theorem deleteRecordA_value (p : Page) (rid : RID) :
    (p.deleteRecordA rid).value = p.deleteRecord rid := by
  simp only [deleteRecordA, deleteRecord]
  by_cases inside : -rid.slotNo > p.slotCnt
  · by_cases used : (p.slot (-rid.slotNo)).length > 0
    · by_cases last : -rid.slotNo = (p.compact (-rid.slotNo)).slotCnt + 1
      · simp [inside, used, compactA_value, trimSlotsA_value, ← last]
      · simp [inside, used, compactA_value, last]
    · simp [inside, used]
  · simp [inside]

/-! What is read. -/

def Entry (p : Page) (i : Int) : Prop := p.slotCnt < i ∧ i ≤ 0

theorem slotA_within {ok : Int → Prop} {i : Int} (inside : ok i) : (p.slotA i).Within ok :=
  .read inside

theorem shiftSlotsA_within {ok : Int → Prop} {slotNo recLen : Int} (self : ok slotNo) (n : Nat)
    (i : Int) (inside : ∀ j, i - n < j → j ≤ i → ok j) :
    (shiftSlotsA slotNo recLen n i p).Within ok := by
  induction n generalizing i p with
  | zero => exact .pure p
  | succ n ih =>
    have here : ok i := inside i (by omega) (by omega)
    refine .bind (.bind (slotA_within here)
      (.ite (fun _ => .bind (slotA_within here) (.bind (slotA_within self) ?_)) (.pure _)))
      (ih _ fun j low high => inside j (by omega) (by omega))
    exact .ite (fun _ => .bind (slotA_within here) (.pure _)) (.pure _)

theorem trimSlotsA_within {low : Int} (n : Nat) (above : low ≤ p.slotCnt)
    (fits : -32768 ≤ p.slotCnt) (count : p.slotCnt ≤ 0) : (trimSlotsA n p).Within fun i => low < i ∧
      i ≤ 0 := by
  induction n generalizing p with
  | zero => exact .pure _
  | succ n ih =>
    have next : p.trimSlot.slotCnt = p.slotCnt + 1 := short_of_fits (by omega) (by omega)
    refine .ite (fun negative =>
      .bind (slotA_within ⟨by omega, by omega⟩) (.ite (fun _ => ?_) (.pure _))) (.pure _)
    exact ih (by omega) (by omega) (by omega)

theorem getRecordA_within (nonneg : 0 ≤ rid.slotNo) : (p.getRecordA rid).Within p.Entry := by
  refine .ite (fun inside => ?_) (.pure _)
  have entry : p.Entry (-rid.slotNo) := ⟨inside, by omega⟩
  refine .bind (slotA_within entry) (.ite (fun _ => ?_) (.pure _))
  exact .bind (slotA_within entry) (.bind (slotA_within entry) (.pure _))

theorem compactA_within {slotNo : Int} (count : p.slotCnt ≤ 0) (entry : p.Entry slotNo) :
    (p.compactA slotNo).Within p.Entry := by
  refine .bind (slotA_within entry) (.bind (slotA_within entry) (.bind ?_ (.pure _)))
  exact shiftSlotsA_within entry _ 0 fun j low high => ⟨by simp only at low; omega, high⟩

theorem shiftSlots_slotCnt (slotNo recLen : Int) (n : Nat) (i : Int) (low : i ≤ 0) (p : Page) :
    (shiftSlots slotNo recLen n i p).slotCnt = p.slotCnt := by
  induction n generalizing i p with
  | zero => rfl
  | succ n ih =>
    simp only [shiftSlots, ih (i - 1) (by omega), shiftSlot, setOffset, if_pos low]
    split <;> rfl

theorem compact_slotCnt (p : Page) (slotNo : Int) : (p.compact slotNo).slotCnt = p.slotCnt :=
  shiftSlots_slotCnt _ _ _ 0 (Int.le_refl 0) _

/-- The slot count of a page: a `short`, negative once there are slots. -/
def Counted (p : Page) : Prop := -32768 ≤ p.slotCnt ∧ p.slotCnt ≤ 0

theorem Invariant.counted (inv : p.Invariant) : p.Counted := by
  have small := inv.slotCnt_ge
  exact ⟨by omega, inv.count⟩

theorem deleteRecordA_within (counted : p.Counted) (nonneg : 0 ≤ rid.slotNo) :
    (p.deleteRecordA rid).Within p.Entry := by
  obtain ⟨fits, count⟩ := counted
  refine .ite (fun inside => ?_) (.pure _)
  have entry : p.Entry (-rid.slotNo) := ⟨inside, by omega⟩
  refine .bind (slotA_within entry) (.ite (fun _ => ?_) (.pure _))
  have same := p.compact_slotCnt (-rid.slotNo)
  refine .bind (compactA_within count entry) ?_
  rw [compactA_value]
  refine .ite (fun _ => .bind ?_ (.pure _)) (.pure _)
  exact trimSlotsA_within _ (Int.le_of_eq same.symm) (by omega) (by omega)

/-- A record identifier is accepted exactly if it names a live slot, and nothing
but the array is read to find out. -/
structure Guarded (p : Page) (rid : RID) : Prop where
  getReads : (p.getRecordA rid).Within p.Entry
  deleteReads : (p.deleteRecordA rid).Within p.Entry
  get : if p.Live (-rid.slotNo) then ∃ bytes, p.getRecord rid = .ok bytes else p.getRecord rid =
    .error .invalidSlotNo
  delete : if p.Live (-rid.slotNo) then ∃ q, p.deleteRecord rid = .ok q
    else p.deleteRecord rid = .error .invalidSlotNo ∧ p.apply (.delete rid) = p

theorem getRecord_isOk (p : Page) (rid : RID) : (∃ bytes, p.getRecord rid = .ok bytes) ↔
    p.slotCnt < -rid.slotNo ∧ 0 < (p.slot (-rid.slotNo)).length := by
  simp only [getRecord]
  split
  next inside => exact iff_of_true ⟨_, rfl⟩ inside
  next outside => exact iff_of_false (by simp) outside

theorem deleteRecord_positive (inside : p.slotCnt < -rid.slotNo)
    (positive : 0 < (p.slot (-rid.slotNo)).length) :
    ∃ q, p.deleteRecord rid = .ok q := by
  simp only [deleteRecord]
  rw [if_pos ⟨inside, positive⟩]
  split
  · exact ⟨_, rfl⟩
  · exact ⟨_, rfl⟩

/-- Of a record identifier that passes: it is not negative, and if it names a
slot in use then the record is not empty. -/
theorem Counted.guarded_exactly (counted : p.Counted) (rid : RID) : p.Guarded rid ↔
    0 ≤ rid.slotNo ∧ (p.Live (-rid.slotNo) → 0 < (p.slot (-rid.slotNo)).length) := by
  constructor
  · intro guarded
    refine ⟨?_, fun live => ?_⟩
    · by_contra negative
      -- a positive index passes the comparison with `slotCnt`
      have inside : -rid.slotNo > p.slotCnt := by have := counted.2; omega
      have read : -rid.slotNo ∈ (p.getRecordA rid).reads := by
        simp only [getRecordA, inside, if_true]
        exact List.mem_append_left _ (List.mem_singleton.mpr rfl)
      have := (guarded.getReads _ read).2
      omega
    · have found := guarded.get
      rw [if_pos live] at found
      exact ((p.getRecord_isOk rid).mp found).2
  · rintro ⟨nonneg, filled⟩
    refine ⟨getRecordA_within nonneg, deleteRecordA_within counted nonneg, ?_, ?_⟩
    · split
      next live => exact (p.getRecord_isOk rid).mpr ⟨live.1, filled live⟩
      next dead => exact getRecord_unbound nonneg (binding_dead dead)
    · split
      next live => exact deleteRecord_positive live.1 (filled live)
      next dead =>
        have failed := deleteRecord_dead nonneg dead
        exact ⟨failed, by simp only [Page.apply, failed]⟩

/-- On a page made by insertions and deletions exactly the slot numbers that are
not negative are checked as they should be. On any other page a slot in use may
also hold an empty record, which is refused. -/
theorem guarded_iff (p : Page) (rid : RID) :
    (Reachable Fresh Update p → (p.Guarded rid ↔ 0 ≤ rid.slotNo)) ∧
    (p.Counted → (p.Guarded rid ↔
      0 ≤ rid.slotNo ∧ (p.Live (-rid.slotNo) → 0 < (p.slot (-rid.slotNo)).length))) := by
  refine ⟨fun reached => ?_, fun counted => counted.guarded_exactly rid⟩
  have inv := reachable_invariant reached
  rw [inv.counted.guarded_exactly rid]
  exact and_iff_left fun live => (inv.extent _ live).1

/-- A page with two records, one of which was deleted. -/
theorem guarded_iff_deleted :
    let frame : Page := ⟨fun _ => 171, 5, 900, -3, 0, 17, 17⟩
    let p := (((frame.init 3).apply (.insert [7, 7])).apply (.insert [9])).apply (.delete ⟨3, 0⟩)
    p.Guarded ⟨3, 0⟩ ∧ p.Guarded ⟨3, 1⟩ := by
  intro frame p
  have reached : Reachable Fresh Update p := .next (a := .delete ⟨3, 0⟩) (.next (a := .insert [9])
    (.next (a := .insert [7, 7]) (.initial ⟨_, 3, rfl⟩) ⟨by decide, rfl⟩) ⟨by decide, rfl⟩)
      ⟨by decide, rfl⟩
  exact ⟨((guarded_iff p _).1 reached).mpr (by decide), ((guarded_iff p _).1 reached).mpr (by decide)⟩

/-- `NULLRID` is taken for a record that lies in front of the page and is as long
as all its records; deleting it empties the page. -/
theorem nullRid_accepted :
    let frame : Page := ⟨fun _ => 171, 5, 900, -3, 0, 17, 17⟩
    let p := (frame.init 3).apply (.insert [7, 7])
    Reachable Fresh Update p ∧ ¬ p.Live (-nullRid.slotNo) ∧ p.getRecord nullRid = .ok [171, 7] ∧
    p.binding 0 = some [7, 7] ∧ (p.apply (.delete nullRid)).binding 0 = none ∧ ¬ p.Guarded nullRid := by
  intro frame p
  have reached : Reachable Fresh Update p := .next (a := .insert [7, 7]) (.initial ⟨_, 3, rfl⟩)
    ⟨by decide, rfl⟩
  have dead : ¬ p.Live (-nullRid.slotNo) := by decide +kernel
  have accepted : p.getRecord nullRid = .ok [171, 7] := by decide +kernel
  refine ⟨reached, dead, accepted, by decide +kernel, by decide +kernel, fun guarded => ?_⟩
  have refused := guarded.get
  rw [if_neg dead, accepted] at refused
  cases refused

end Minirel.Page
