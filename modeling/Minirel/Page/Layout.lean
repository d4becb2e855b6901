import Minirel.Page

/-! The slotted-page representation invariant and the effect of the two page
updates on it. Each update is first described cell by cell, without reference
to the invariant it is about to restore. -/
namespace Minirel.Page
open ByteMemory

variable {p q : Page} {i j v : Int}

/-! Cells. A slot update with an index of at most 0 changes one entry and
leaves the counters and the record bytes alone. -/

theorem slotAddr_eq (i : Int) : slotAddr i = 1004 + 4 * i := by
  simp [slotAddr, pageSize, dpFixed]

theorem slot_of_nonpos (h : i ≤ 0) :
    p.slot i = ⟨getShort p.mem (1004 + 4 * i), getShort p.mem (1004 + 4 * i + 2)⟩ := by
  rw [slot, if_pos h, slotAddr_eq]

theorem slot_congr (low : Int) (agree : ∀ a, low ≤ a → getShort q.mem a = getShort p.mem a)
    (above : low ≤ 1004 + 4 * i) (h : i ≤ 0) : q.slot i = p.slot i := by
  rw [slot_of_nonpos h, slot_of_nonpos h, agree _ above, agree _ (by omega)]

theorem setOffset_of_nonpos (h : i ≤ 0) :
    p.setOffset i v = { p with mem := setShort p.mem (1004 + 4 * i) v } := by
  rw [setOffset, if_pos h, slotAddr_eq]

theorem setLength_of_nonpos (h : i ≤ 0) :
    p.setLength i v = { p with mem := setShort p.mem (1004 + 4 * i + 2) v } := by
  rw [setLength, if_pos h, slotAddr_eq]

theorem slot_setOffset (hi : i ≤ 0) (hj : j ≤ 0) : (p.setOffset i v).slot j =
    if j = i then ⟨short v, (p.slot i).length⟩ else p.slot j := by
  rw [setOffset_of_nonpos hi, slot_of_nonpos hj]
  split
  next same =>
    subst same
    rw [getShort_setShort, getShort_setShort_ne (by omega), slot_of_nonpos hj]
  next apart => rw [getShort_setShort_ne (by omega), getShort_setShort_ne (by omega), slot_of_nonpos hj]

theorem slot_setLength (hi : i ≤ 0) (hj : j ≤ 0) : (p.setLength i v).slot j =
    if j = i then ⟨(p.slot i).offset, short v⟩ else p.slot j := by
  rw [setLength_of_nonpos hi, slot_of_nonpos hj]
  split
  next same =>
    subst same
    rw [getShort_setShort, getShort_setShort_ne (by omega), slot_of_nonpos hj]
  next apart => rw [getShort_setShort_ne (by omega), getShort_setShort_ne (by omega), slot_of_nonpos hj]

/-- `slot[i]` is inside the array and holds a record. -/
def Live (p : Page) (i : Int) : Prop := p.slotCnt < i ∧ i ≤ 0 ∧ (p.slot i).length ≠ -1

instance (p : Page) (i : Int) : Decidable (p.Live i) := inferInstanceAs (Decidable (_ ∧ _))

/-- The live slots tile `[0, freePtr)`, the free space is what lies between
them and the slot array, and the array never ends in a hole. -/
structure Invariant (p : Page) : Prop where
  count : p.slotCnt ≤ 0
  used : 0 ≤ p.freePtr
  space : p.freeSpace = (pageSize - dpFixed) - p.freePtr - 4 * (-p.slotCnt)
  room : 0 ≤ p.freeSpace
  extent : ∀ i, p.Live i → 0 < (p.slot i).length ∧ 0 ≤ (p.slot i).offset ∧
    (p.slot i).offset + (p.slot i).length ≤ p.freePtr
  disjoint : ∀ i j, p.Live i → p.Live j → i ≠ j →
    (p.slot i).offset + (p.slot i).length ≤ (p.slot j).offset ∨
      (p.slot j).offset + (p.slot j).length ≤ (p.slot i).offset
  covers : ∀ x, 0 ≤ x → x < p.freePtr →
    ∃ i, p.Live i ∧ (p.slot i).offset ≤ x ∧ x < (p.slot i).offset + (p.slot i).length
  last : p.slotCnt < 0 → p.Live (p.slotCnt + 1)

def record (p : Page) (i : Int) : List UInt8 :=
  read p.mem (p.slot i).offset (p.slot i).length.toNat

theorem Invariant.space_eq (inv : p.Invariant) :
    p.freeSpace = 1004 - p.freePtr + 4 * p.slotCnt := by
  have h := inv.space
  simp only [pageSize, dpFixed] at h
  omega

theorem seek_spec (p : Page) (stop : Slot → Bool) (n : Nat) (i : Int) :
    i - n ≤ p.seek stop n i ∧ p.seek stop n i ≤ i ∧
      (∀ j, p.seek stop n i < j → j ≤ i → stop (p.slot j) = false) ∧
      (i - n < p.seek stop n i → stop (p.slot (p.seek stop n i)) = true) := by
  induction n generalizing i with
  | zero =>
    simp only [seek]
    exact ⟨by omega, by omega, fun j h1 h2 => by omega, fun h => by omega⟩
  | succ n ih =>
    by_cases hit : stop (p.slot i) = true
    · simp only [seek, hit, if_true]
      exact ⟨by omega, by omega, fun j h1 h2 => by omega, fun _ => trivial⟩
    · have miss : stop (p.slot i) = false := by simpa using hit
      simp only [seek, miss, Bool.false_eq_true, if_false]
      obtain ⟨low, high, skipped, found⟩ := ih (i - 1)
      refine ⟨by omega, by omega, ?_, fun h => found (by omega)⟩
      intro j h1 h2
      by_cases same : j = i
      · rw [same, miss]
      · exact skipped j h1 (by omega)

structure Sought (p : Page) (stop : Slot → Bool) (start i : Int) : Prop where
  above : p.slotCnt ≤ i
  below : i ≤ start
  skipped : ∀ j, i < j → j ≤ start → stop (p.slot j) = false
  found : p.slotCnt < i → stop (p.slot i) = true

/-- The search ends at the first slot that stops it, or below the last. -/
theorem seekFrom_spec (p : Page) (stop : Slot → Bool) {start : Int} (h : p.slotCnt ≤ start) :
    Sought p stop start (p.seekFrom stop start) := by
  obtain ⟨low, high, skipped, found⟩ := seek_spec p stop (start - p.slotCnt).toNat start
  exact ⟨by unfold seekFrom; omega, high, skipped, fun h => found (by unfold seekFrom at h; omega)⟩

/-! Insertion. -/

/-- `q` is `p` with `bytes` appended to the record area and bound to `slot[i]`. -/
structure Inserted (p : Page) (bytes : List UInt8) (i : Int) (q : Page) : Prop where
  hole : Sought p (fun s => s.length == -1) 0 i
  charged : (i = p.slotCnt ∧ q.slotCnt = p.slotCnt - 1 ∧ q.freeSpace = p.freeSpace - bytes.length - 4) ∨
    (p.slotCnt < i ∧ q.slotCnt = p.slotCnt ∧ q.freeSpace = p.freeSpace - bytes.length)
  freePtr : q.freePtr = p.freePtr + bytes.length
  slot : q.slot i = ⟨p.freePtr, bytes.length⟩
  others : ∀ j, p.slotCnt < j → j ≤ 0 → j ≠ i → q.slot j = p.slot j
  stored : read q.mem p.freePtr bytes.length = bytes
  kept : ∀ (a : Int) (n : Nat), a + n ≤ p.freePtr → read q.mem a n = read p.mem a n
  next : q.nextPage = p.nextPage
  cur : q.curPage = p.curPage

theorem insertRecord_full (rec : Record) (full : rec.length + 4 > p.freeSpace) :
    p.insertRecord rec = .error .noSpace := by
  simp only [insertRecord, if_pos full]

variable {bytes : List UInt8}

theorem charge_spec (inv : p.Invariant) (above : p.slotCnt ≤ i)
    (fits : (bytes.length : Int) + 4 ≤ p.freeSpace) :
    let c := p.charge i bytes.length
    ((i = p.slotCnt ∧ c.slotCnt = p.slotCnt - 1 ∧ c.freeSpace = p.freeSpace - bytes.length - 4) ∨
      (p.slotCnt < i ∧ c.slotCnt = p.slotCnt ∧ c.freeSpace = p.freeSpace - bytes.length)) ∧
      c.freePtr = p.freePtr ∧ c.mem = p.mem ∧ c.nextPage = p.nextPage ∧ c.curPage = p.curPage := by
  have space := inv.space_eq
  have count := inv.count
  have used := inv.used
  by_cases new : i = p.slotCnt
  · rw [charge, if_pos new]
    refine ⟨Or.inl ⟨new, short_of_fits (by omega) (by omega), ?_⟩, rfl, rfl, rfl, rfl⟩
    exact (short_of_fits (by omega) (by omega)).trans (by omega)
  · rw [charge, if_neg new]
    exact ⟨Or.inr ⟨by omega, rfl, short_of_fits (by omega) (by omega)⟩, rfl, rfl, rfl, rfl⟩

/-- Everything but the new entry is kept, above `edge` and below `freePtr`. -/
theorem place_spec (bytes : List UInt8) (edge : Int) (below : i ≤ 0) (used : 0 ≤ p.freePtr)
    (room : p.freePtr + bytes.length ≤ edge) (inside : edge ≤ 1004 + 4 * i) :
    let q := p.place i (.ofBytes bytes)
    q.slotCnt = p.slotCnt ∧ q.freePtr = p.freePtr + bytes.length ∧ q.freeSpace = p.freeSpace ∧
      q.slot i = ⟨p.freePtr, bytes.length⟩ ∧
      (∀ j, edge ≤ 1004 + 4 * j → j ≤ 0 → j ≠ i → q.slot j = p.slot j) ∧
      read q.mem p.freePtr bytes.length = bytes ∧
      (∀ (a : Int) (n : Nat), a + n ≤ p.freePtr → read q.mem a n = read p.mem a n) ∧
      q.nextPage = p.nextPage ∧ q.curPage = p.curPage := by
  have ptr : short (p.freePtr + bytes.length) = p.freePtr + bytes.length :=
    short_of_fits (by omega) (by omega)
  -- the slot entry is written first, the record bytes stay below it
  obtain ⟨e, he⟩ : ∃ e, e = (p.setOffset i p.freePtr).setLength i bytes.length := ⟨_, rfl⟩
  have fields : e = { p with mem := e.mem } := by
    rw [he, setLength_of_nonpos below, setOffset_of_nonpos below]
  have entry : e.slot i = ⟨p.freePtr, bytes.length⟩ := by
    rw [he, slot_setLength below below, if_pos rfl, slot_setOffset below below, if_pos rfl,
      short_of_fits (by omega) (by omega), short_of_fits (by omega) (by omega)]
  have others : ∀ j, j ≤ 0 → j ≠ i → e.slot j = p.slot j := by
    intro j hj apart
    rw [he, slot_setLength below hj, if_neg apart, slot_setOffset below hj, if_neg apart]
  have kept : ∀ (a : Int) (n : Nat), a + n ≤ p.freePtr → read e.mem a n = read p.mem a n := by
    intro a n h
    rw [he, setLength_of_nonpos below, setOffset_of_nonpos below]
    rw [read_setShort (by omega), read_setShort (by omega)]
  have placed : p.place i (.ofBytes bytes) =
      { p with mem := write e.mem p.freePtr bytes, freePtr := p.freePtr + bytes.length } := by
    unfold place
    simp only [Record.ofBytes_length, Record.bytes_ofBytes, ← he]
    rw [fields]
    simp only [ptr]
  have above : ∀ a, edge ≤ a → getShort (write e.mem p.freePtr bytes) a = getShort e.mem a :=
    fun a h => getShort_write (by omega)
  simp only [placed]
  refine ⟨trivial, trivial, trivial, ?_, ?_, read_write _ _ _, ?_, trivial, trivial⟩
  · rw [← entry]
    exact slot_congr _ above inside below
  · intro j h hj apart
    rw [← others j hj apart]
    exact slot_congr _ above h hj
  · intro a n h
    rw [read_write_outside (Or.inl h), kept a n h]

theorem insertRecord_fits (inv : p.Invariant) (fits : ((bytes.length : Int) + 4) ≤ p.freeSpace) :
    ∃ i q, p.insertRecord (.ofBytes bytes) = .ok (⟨p.curPage, -i⟩, q) ∧ Inserted p bytes i q := by
  have space := inv.space_eq
  have count := inv.count
  have sought := seekFrom_spec p (fun s => s.length == -1) count
  obtain ⟨i, hi⟩ : ∃ i, i = p.seekFrom (fun s => s.length == -1) 0 := ⟨_, rfl⟩
  rw [← hi] at sought
  have above := sought.above
  have result : p.insertRecord (.ofBytes bytes) =
      .ok (⟨p.curPage, -i⟩, (p.charge i bytes.length).place i (.ofBytes bytes)) := by
    simp only [insertRecord, Record.ofBytes_length, ← hi]
    rw [if_neg (by omega)]
  have charged := charge_spec inv above fits
  generalize p.charge i bytes.length = c at charged result
  obtain ⟨cCharged, cPtr, cMem, cNext, cCur⟩ := charged
  have cSlot : ∀ j, j ≤ 0 → c.slot j = p.slot j := by
    intro j hj
    rw [slot_of_nonpos hj, slot_of_nonpos hj, cMem]
  have placed := place_spec (p := c) bytes (1004 + 4 * p.slotCnt) sought.below
    (by rw [cPtr]; exact inv.used) (by omega) (by omega)
  generalize c.place i (.ofBytes bytes) = q at placed result
  obtain ⟨qCount, qPtr, qSpace, qSlot, qOthers, qStored, qKept, qNext, qCur⟩ := placed
  refine ⟨i, q, result, sought, ?_, ?_, ?_, ?_, ?_, ?_, qNext.trans cNext, qCur.trans cCur⟩
  · rw [qCount, qSpace]
    exact cCharged
  · rw [qPtr, cPtr]
  · rw [qSlot, cPtr]
  · intro j inside hj apart
    rw [qOthers j (by omega) hj apart, cSlot j hj]
  · rw [← cPtr]
    exact qStored
  · intro a n h
    rw [qKept a n (by omega), cMem]


theorem Inserted.live_iff (ins : Inserted p bytes i q) (nonempty : 0 < bytes.length) (j : Int) :
    q.Live j ↔ j = i ∨ p.Live j := by
  have above := ins.hole.above
  have below := ins.hole.below
  have charged := ins.charged
  by_cases same : j = i
  · subst same
    simp only [Live, ins.slot, true_or, iff_true]
    exact ⟨by omega, below, by omega⟩
  · simp only [same, false_or, Live]
    by_cases inside : p.slotCnt < j ∧ j ≤ 0
    · rw [ins.others j inside.1 inside.2 same]
      exact ⟨fun h => ⟨inside.1, h.2⟩, fun h => ⟨by omega, h.2⟩⟩
    · exact ⟨fun h => absurd (show p.slotCnt < j ∧ j ≤ 0 by omega) inside,
        fun h => absurd ⟨h.1, h.2.1⟩ inside⟩

theorem Inserted.was_free (ins : Inserted p bytes i q) : ¬ p.Live i := by
  intro live
  exact live.2.2 (by simpa using ins.hole.found live.1)

/-- The new record lies behind the others, where the free space was. -/
theorem Inserted.invariant (ins : Inserted p bytes i q) (inv : p.Invariant)
    (nonempty : 0 < bytes.length) (fits : (bytes.length : Int) + 4 ≤ p.freeSpace) :
    q.Invariant := by
  have above := ins.hole.above
  have charged := ins.charged
  have space := inv.space_eq
  have used := inv.used
  have count := inv.count
  have ptr := ins.freePtr
  have free := ins.was_free
  have entry : ∀ j, p.Live j → q.slot j = p.slot j := fun j live =>
    ins.others j live.1 live.2.1 (fun h => free (h ▸ live))
  refine ⟨by omega, by omega, ?_, by omega, ?_, ?_, ?_, ?_⟩
  · simp only [pageSize, dpFixed]
    omega
  · intro j live
    rcases (ins.live_iff nonempty j).mp live with rfl | live
    · rw [ins.slot]
      exact ⟨by simpa using nonempty, used, ptr.ge⟩
    · obtain ⟨h1, h2, h3⟩ := inv.extent j live
      rw [entry j live]
      exact ⟨h1, h2, by omega⟩
  · -- the new record starts where the old ones end
    intro j k liveJ liveK apart
    rcases (ins.live_iff nonempty j).mp liveJ with rfl | liveJ
    · rcases (ins.live_iff nonempty k).mp liveK with rfl | liveK
      · exact absurd rfl apart
      · rw [entry k liveK, ins.slot]
        exact Or.inr (inv.extent k liveK).2.2
    · rw [entry j liveJ]
      rcases (ins.live_iff nonempty k).mp liveK with rfl | liveK
      · rw [ins.slot]
        exact Or.inl (inv.extent j liveJ).2.2
      · rw [entry k liveK]
        exact inv.disjoint j k liveJ liveK apart
  · intro x low high
    by_cases old : x < p.freePtr
    · obtain ⟨j, live, h1, h2⟩ := inv.covers x low old
      refine ⟨j, (ins.live_iff nonempty j).mpr (Or.inr live), ?_⟩
      rw [entry j live]
      exact ⟨h1, h2⟩
    · refine ⟨i, (ins.live_iff nonempty i).mpr (Or.inl rfl), ?_⟩
      rw [ins.slot]
      exact ⟨by simpa using old, by rw [ptr] at high; exact high⟩
  · intro nonzero
    apply (ins.live_iff nonempty _).mpr
    rcases charged with ⟨new, cnt, _⟩ | ⟨reused, cnt, _⟩
    · exact Or.inl (by omega)
    · right
      rw [cnt]
      exact inv.last (by omega)

theorem Inserted.record_new (ins : Inserted p bytes i q) : q.record i = bytes := by
  unfold record
  rw [ins.slot]
  exact ins.stored

theorem Inserted.record_old (ins : Inserted p bytes i q) (inv : p.Invariant) {j : Int}
    (live : p.Live j) : q.record j = p.record j := by
  obtain ⟨h1, h2, h3⟩ := inv.extent j live
  unfold record
  rw [ins.others j live.1 live.2.1 (fun h => ins.was_free (h ▸ live))]
  exact ins.kept _ _ (by omega)

/-! Deletion. -/

/-- The entry moves left exactly when its record lies right of the deleted one. -/
def Moves (p : Page) (d j : Int) : Prop :=
  0 ≤ (p.slot j).length ∧ (p.slot d).offset < (p.slot j).offset

/-- `q` is `p` after the offsets with an index in `(low, high]` were adjusted. -/
structure Shifted (p : Page) (d recLen low high : Int) (q : Page) : Prop where
  moved : ∀ j, low < j → j ≤ high → p.Moves d j →
    q.slot j = ⟨(p.slot j).offset - recLen, (p.slot j).length⟩
  stays : ∀ j, j ≤ 0 → (low < j → j ≤ high → ¬ p.Moves d j) → q.slot j = p.slot j
  kept : ∀ (a : Int) (n : Nat), a + n ≤ 1004 + 4 * (low + 1) → read q.mem a n = read p.mem a n
  fields : q = { p with mem := q.mem }

theorem shiftSlot_spec {d recLen : Int} (hi : i ≤ 0) (bounded : p.Moves d i →
      -32768 ≤ (p.slot i).offset - recLen ∧ (p.slot i).offset - recLen ≤ 32767) :
    Shifted p d recLen (i - 1) i (p.shiftSlot d recLen i) := by
  by_cases moves : p.Moves d i
  · have unfolded : p.shiftSlot d recLen i = p.setOffset i ((p.slot i).offset - recLen) :=
      if_pos ⟨moves.1, moves.2⟩
    rw [unfolded]
    refine ⟨?_, ?_, ?_, by rw [setOffset_of_nonpos hi]⟩
    · intro j h1 h2 _
      obtain rfl : j = i := by omega
      rw [slot_setOffset hi hi, if_pos rfl, short_of_fits (bounded moves).1 (bounded moves).2]
    · intro j hj outside
      have apart : j ≠ i := fun h => outside (by omega) (by omega) (h ▸ moves)
      rw [slot_setOffset hi hj, if_neg apart]
    · intro a n h
      rw [setOffset_of_nonpos hi]
      exact read_setShort (by omega)
  · have unfolded : p.shiftSlot d recLen i = p := if_neg (fun h => moves ⟨h.1, h.2⟩)
    rw [unfolded]
    refine ⟨?_, fun _ _ _ => rfl, fun _ _ _ => rfl, rfl⟩
    intro j h1 h2 moving
    obtain rfl : j = i := by omega
    exact absurd moving moves

/-- Each entry is adjusted once, by its own iteration: an iteration changes no
other entry, and never the offset that the comparison refers to. -/
theorem shiftSlots_spec {d recLen : Int} (hd : d ≤ 0) (n : Nat) (i : Int) (hi : i ≤ 0)
    (bounded : ∀ j, i - n < j → j ≤ i → p.Moves d j →
      -32768 ≤ (p.slot j).offset - recLen ∧ (p.slot j).offset - recLen ≤ 32767) :
    Shifted p d recLen (i - n) i (shiftSlots d recLen n i p) := by
  induction n generalizing i p with
  | zero => exact ⟨fun j h1 h2 => by omega, fun _ _ _ => rfl, fun _ _ _ => rfl, rfl⟩
  | succ n ih =>
    have first := shiftSlot_spec (d := d) hi (bounded i (by omega) (by omega))
    have pivot : (p.shiftSlot d recLen i).slot d = p.slot d := by
      apply first.stays d hd
      intro h1 h2 moves
      obtain rfl : d = i := by omega
      exact absurd moves.2 (lt_irrefl _)
    have earlier : ∀ j, j ≤ i - 1 → (p.shiftSlot d recLen i).slot j = p.slot j := by
      intro j hj
      exact first.stays j (by omega) (fun h => by omega)
    have same : ∀ j, j ≤ i - 1 → ((p.shiftSlot d recLen i).Moves d j ↔ p.Moves d j) := by
      intro j hj
      simp only [Moves, earlier j hj, pivot]
    have rest := ih (p := p.shiftSlot d recLen i) (i - 1) (by omega) (by
      intro j h1 h2 moves
      rw [earlier j h2]
      exact bounded j (by omega) (by omega) ((same j h2).mp moves))
    have range : i - 1 - (n : Int) = i - (n + 1 : Nat) := by omega
    rw [range] at rest
    rw [shiftSlots]
    refine ⟨?_, ?_, ?_, ?_⟩
    · intro j h1 h2 moves
      by_cases head : j = i
      · subst head
        rw [rest.stays j (by omega) (fun _ h => by omega)]
        exact first.moved j (by omega) (by omega) moves
      · rw [rest.moved j h1 (by omega) ((same j (by omega)).mpr moves), earlier j (by omega)]
    · intro j hj outside
      rw [rest.stays j hj (fun h1 h2 => fun m => outside h1 (by omega) ((same j h2).mp m))]
      exact first.stays j hj (fun h1 h2 => outside (by omega) h2)
    · intro a m h
      rw [rest.kept a m h]
      exact first.kept a m (by omega)
    · rw [rest.fields, first.fields]

structure Trimmed (p q : Page) : Prop where
  above : p.slotCnt < q.slotCnt
  below : q.slotCnt ≤ 0
  holes : ∀ j, p.slotCnt + 1 < j → j ≤ q.slotCnt → (p.slot j).length = -1
  last : q.slotCnt < 0 → (p.slot (q.slotCnt + 1)).length ≠ -1
  freeSpace : q.freeSpace = p.freeSpace + 4 * (q.slotCnt - p.slotCnt)
  fields : q = { p with slotCnt := q.slotCnt, freeSpace := q.freeSpace }

theorem Trimmed.slot (trim : Trimmed p q) (h : j ≤ 0) : q.slot j = p.slot j := by
  rw [trim.fields, slot_of_nonpos h, slot_of_nonpos h]

/-- By induction on the number of slots. -/
theorem trimSlots_spec (n : Nat) (count : p.slotCnt = -(n : Int)) (pos : 0 < n) (small : n ≤ 251)
    (low : 0 ≤ p.freeSpace) (high : p.freeSpace ≤ 1004 - 4 * n) : Trimmed p (trimSlots n p) := by
  induction n generalizing p with
  | zero => omega
  | succ n ih =>
    have fields : p.trimSlot = { p with slotCnt := p.slotCnt + 1, freeSpace := p.freeSpace + 4 } := by
      unfold trimSlot
      rw [short_of_fits (by omega) (by omega), short_of_fits (by omega) (by omega)]
    obtain ⟨c, hc⟩ : ∃ c, c = p.trimSlot := ⟨_, rfl⟩
    have cSlot : ∀ j, j ≤ 0 → c.slot j = p.slot j := by
      intro j hj
      rw [hc, fields, slot_of_nonpos hj, slot_of_nonpos hj]
    rw [trimSlots, ← hc]
    rw [fields] at hc
    have cCount : c.slotCnt = p.slotCnt + 1 := by rw [hc]
    have cSpace : c.freeSpace = p.freeSpace + 4 := by rw [hc]
    by_cases more : c.slotCnt < 0 ∧ (c.slot (c.slotCnt + 1)).length = -1
    · rw [if_pos more]
      have rest := ih (p := c) (by omega) (by omega) (by omega) (by omega) (by push_cast at high; omega)
      generalize trimSlots n c = t at rest ⊢
      have above := rest.above
      have below := rest.below
      refine ⟨by omega, below, ?_, ?_, by rw [rest.freeSpace]; omega, by rw [rest.fields, hc]⟩
      · intro j h1 h2
        rw [← cSlot j (by omega)]
        by_cases first : j = c.slotCnt + 1
        · rw [first]
          exact more.2
        · exact rest.holes j (by omega) h2
      · intro negative
        rw [← cSlot _ (by omega)]
        exact rest.last negative
    · rw [if_neg more]
      refine ⟨by omega, by omega, fun j h1 h2 => by omega, ?_, by omega, by rw [hc]⟩
      intro negative hole
      exact more ⟨negative, by rw [cSlot _ (by omega)]; exact hole⟩

/-- `c` is `p` with the gap of `slot[d]`'s record closed, its entry still in place. -/
structure Compacted (p : Page) (d : Int) (c : Page) : Prop where
  slotCnt : c.slotCnt = p.slotCnt
  freePtr : c.freePtr = p.freePtr - (p.slot d).length
  freeSpace : c.freeSpace = p.freeSpace + (p.slot d).length
  holes : ∀ j, p.slotCnt < j → j ≤ 0 → (p.slot j).length = -1 → c.slot j = p.slot j
  left : ∀ j, p.slotCnt < j → j ≤ 0 → (p.slot j).offset ≤ (p.slot d).offset → c.slot j = p.slot j
  right : ∀ j, p.Live j → (p.slot d).offset < (p.slot j).offset →
    c.slot j = ⟨(p.slot j).offset - (p.slot d).length, (p.slot j).length⟩
  bytesLeft : ∀ (a : Int) (n : Nat), a + n ≤ (p.slot d).offset → read c.mem a n = read p.mem a n
  bytesRight : ∀ (a : Int) (n : Nat), (p.slot d).offset ≤ a →
    a + n ≤ p.freePtr - (p.slot d).length → read c.mem a n = read p.mem (a + (p.slot d).length) n
  next : c.nextPage = p.nextPage
  cur : c.curPage = p.curPage

/-- Only records right of the gap move. -/
theorem compact_spec {d : Int} (inv : p.Invariant) (live : p.Live d) :
    Compacted p d (p.compact d) := by
  have space := inv.space_eq
  have count := inv.count
  have room := inv.room
  obtain ⟨positive, low, high⟩ := inv.extent d live
  obtain ⟨above, below, _⟩ := live
  obtain ⟨o, ho⟩ : ∃ o, o = (p.slot d).offset := ⟨_, rfl⟩
  obtain ⟨l, hl⟩ : ∃ l, l = (p.slot d).length := ⟨_, rfl⟩
  rw [← ho, ← hl] at high
  rw [← hl] at positive
  rw [← ho] at low
  -- the byte move stays below the slot array
  obtain ⟨m, hm⟩ : ∃ m : Page, m = { p with mem := move p.mem (o + l) o (p.freePtr - (o + l)).toNat } :=
    ⟨_, rfl⟩
  have mMem : m.mem = move p.mem (o + l) o (p.freePtr - (o + l)).toNat := by rw [hm]
  have mSlot : ∀ j, p.slotCnt < j → j ≤ 0 → m.slot j = p.slot j := by
    intro j h1 h2
    apply slot_congr (p.freePtr - l) _ (by omega) h2
    intro a h
    rw [mMem]
    exact getShort_move (by omega)
  have mMoves : ∀ j, p.slotCnt < j → j ≤ 0 → (m.Moves d j ↔ p.Moves d j) := by
    intro j h1 h2
    simp only [Moves, mSlot j h1 h2, mSlot d above below]
  have bounded : ∀ j, (0 : Int) - (-p.slotCnt).toNat < j → j ≤ 0 → m.Moves d j →
      -32768 ≤ (m.slot j).offset - l ∧ (m.slot j).offset - l ≤ 32767 := by
    intro j h1 h2 moves
    have inside : p.slotCnt < j := by omega
    have length := ((mMoves j inside h2).mp moves).1
    have extent := inv.extent j ⟨inside, h2, by omega⟩
    rw [mSlot j inside h2]
    omega
  have shifted := shiftSlots_spec (d := d) below (-p.slotCnt).toNat 0 (Int.le_refl 0) bounded
  obtain ⟨c, hc⟩ : ∃ c, c = shiftSlots d l (-p.slotCnt).toNat 0 m := ⟨_, rfl⟩
  rw [← hc] at shifted
  have fields : c = { p with mem := c.mem } := by
    have h := shifted.fields
    rw [hm] at h
    exact h
  have unfolded : p.compact d = { c with
      freePtr := p.freePtr - l, freeSpace := p.freeSpace + l } := by
    unfold compact
    simp only [← ho, ← hl, ← hm, ← hc]
    rw [fields]
    simp only
    rw [short_of_fits (by omega) (by omega), short_of_fits (by omega) (by omega)]
  have cSlot : ∀ j, j ≤ 0 → (p.compact d).slot j = c.slot j := by
    intro j hj
    rw [unfolded, slot_of_nonpos hj, slot_of_nonpos hj]
  have cRead : ∀ (a : Int) (n : Nat), a + n ≤ p.freePtr → read c.mem a n = read m.mem a n :=
    fun a n h => shifted.kept a n (by omega)
  have stays : ∀ j, p.slotCnt < j → j ≤ 0 → ¬ p.Moves d j → (p.compact d).slot j = p.slot j := by
    intro j h1 h2 still
    rw [cSlot j h2, shifted.stays j h2 (fun _ _ moves => still ((mMoves j h1 h2).mp moves)),
      mSlot j h1 h2]
  refine ⟨?_, ?_, ?_, ?_, ?_, ?_, ?_, ?_, ?_, ?_⟩
  · rw [unfolded, fields]
  · rw [unfolded, hl]
  · rw [unfolded, hl]
  · intro j h1 h2 hole
    exact stays j h1 h2 (fun moves => by have := moves.1; omega)
  · intro j h1 h2 order
    exact stays j h1 h2 (fun moves => by have := moves.2; omega)
  · intro j liveJ order
    have moves : m.Moves d j :=
      (mMoves j liveJ.1 liveJ.2.1).mpr ⟨(inv.extent j liveJ).1.le, order⟩
    obtain ⟨h1, h2, _⟩ := liveJ
    rw [cSlot j h2, shifted.moved j (by omega) h2 moves, mSlot j h1 h2, hl]
  · intro a n h
    rw [← ho] at h
    rw [unfolded]
    simp only
    rw [cRead a n (by omega), mMem, read_move_outside (Or.inl h)]
  · intro a n h1 h2
    rw [← ho] at h1
    rw [← hl] at h2 ⊢
    rw [unfolded]
    simp only
    rw [cRead a n (by omega), mMem, read_move h1 (by omega)]
    congr 1
    omega
  · rw [unfolded, fields]
  · rw [unfolded, fields]

/-- `q` is `p` without the record of `slot[d]`: the records right of it moved
left by its length, and the slot is a hole or was dropped with the tail. -/
structure Deleted (p : Page) (d : Int) (q : Page) : Prop where
  live : p.Live d
  above : p.slotCnt ≤ q.slotCnt
  below : q.slotCnt ≤ 0
  freePtr : q.freePtr = p.freePtr - (p.slot d).length
  freeSpace : q.freeSpace = p.freeSpace + (p.slot d).length + 4 * (q.slotCnt - p.slotCnt)
  dropped : ∀ j, p.slotCnt < j → j ≤ q.slotCnt → j = d ∨ (p.slot j).length = -1
  hole : q.slotCnt < d → (q.slot d).length = -1
  holes : ∀ j, q.slotCnt < j → j ≤ 0 → (p.slot j).length = -1 → (q.slot j).length = -1
  left : ∀ j, q.slotCnt < j → p.Live j → j ≠ d → (p.slot j).offset ≤ (p.slot d).offset →
    q.slot j = p.slot j
  right : ∀ j, q.slotCnt < j → p.Live j → (p.slot d).offset < (p.slot j).offset →
    q.slot j = ⟨(p.slot j).offset - (p.slot d).length, (p.slot j).length⟩
  bytesLeft : ∀ (a : Int) (n : Nat), a + n ≤ (p.slot d).offset → read q.mem a n = read p.mem a n
  bytesRight : ∀ (a : Int) (n : Nat), (p.slot d).offset ≤ a →
    a + n ≤ p.freePtr - (p.slot d).length → read q.mem a n = read p.mem (a + (p.slot d).length) n
  last : q.slotCnt < 0 → (q.slot (q.slotCnt + 1)).length ≠ -1
  next : q.nextPage = p.nextPage
  cur : q.curPage = p.curPage

/-- Case 1 of the source: the freed slot ends the array. -/
theorem Compacted.trim {d : Int} {c : Page} (comp : Compacted p d c) (inv : p.Invariant)
    (live : p.Live d) (final : d = p.slotCnt + 1) :
    Deleted p d (trimSlots (-c.slotCnt).toNat c) := by
  have space := inv.space_eq
  have count := comp.slotCnt
  obtain ⟨positive, low, high⟩ := inv.extent d live
  have room := inv.room
  have cSpace := comp.freeSpace
  have below : d ≤ 0 := live.2.1
  have trim := trimSlots_spec (p := c) (-c.slotCnt).toNat (by omega) (by omega) (by omega) (by omega)
    (by omega)
  generalize trimSlots (-c.slotCnt).toNat c = q at trim
  have above := trim.above
  have below := trim.below
  have qMem : q.mem = c.mem := by rw [trim.fields]
  -- a slot between the freed one and the new end keeps its length through the compaction
  have lengthC : ∀ j, p.slotCnt < j → j ≤ 0 → (c.slot j).length = (p.slot j).length := by
    intro j h1 h2
    by_cases hole : (p.slot j).length = -1
    · rw [comp.holes j h1 h2 hole]
    · by_cases order : (p.slot j).offset ≤ (p.slot d).offset
      · rw [comp.left j h1 h2 order]
      · rw [comp.right j ⟨h1, h2, hole⟩ (by omega)]
  refine ⟨live, by omega, below, ?_, ?_, ?_, fun h => by omega, ?_, ?_, ?_, ?_, ?_, ?_, ?_, ?_⟩
  · rw [trim.fields]
    exact comp.freePtr
  · rw [trim.freeSpace, cSpace, count]
  · intro j h1 h2
    by_cases same : j = d
    · exact Or.inl same
    · right
      rw [← lengthC j h1 (by omega)]
      exact trim.holes j (by omega) h2
  · intro j h1 h2 hole
    rw [trim.slot h2, lengthC j (by omega) h2, hole]
  · intro j h1 liveJ _ order
    rw [trim.slot liveJ.2.1, comp.left j liveJ.1 liveJ.2.1 order]
  · intro j h1 liveJ order
    rw [trim.slot liveJ.2.1, comp.right j liveJ order]
  · intro a n h
    rw [qMem, comp.bytesLeft a n h]
  · intro a n h1 h2
    rw [qMem, comp.bytesRight a n h1 h2]
  · intro negative
    rw [trim.slot (by omega)]
    exact trim.last negative
  · rw [trim.fields]
    exact comp.next
  · rw [trim.fields]
    exact comp.cur

/-- Case 2: the freed slot becomes a hole inside the array. -/
theorem Compacted.mark {d : Int} {c : Page} (comp : Compacted p d c) (inv : p.Invariant)
    (live : p.Live d) (inner : d ≠ p.slotCnt + 1) :
    Deleted p d ((c.setLength d (-1)).setOffset d 0) := by
  have space := inv.space_eq
  have room := inv.room
  obtain ⟨positive, low, high⟩ := inv.extent d live
  have below : d ≤ 0 := live.2.1
  have liveBelow := live.1
  obtain ⟨q, hq⟩ : ∃ q, q = (c.setLength d (-1)).setOffset d 0 := ⟨_, rfl⟩
  have fields : q = { c with mem := q.mem } := by
    rw [hq, setOffset_of_nonpos below, setLength_of_nonpos below]
  have qCount : q.slotCnt = p.slotCnt := by rw [fields]; exact comp.slotCnt
  have qSlot : ∀ j, j ≤ 0 → j ≠ d → q.slot j = c.slot j := by
    intro j hj apart
    rw [hq, slot_setOffset below hj, if_neg apart, slot_setLength below hj, if_neg apart]
  have qHole : (q.slot d).length = -1 := by
    rw [hq, slot_setOffset below below, if_pos rfl, slot_setLength below below, if_pos rfl]
    rfl
  have qRead : ∀ (a : Int) (n : Nat), a + n ≤ p.freePtr → read q.mem a n = read c.mem a n := by
    intro a n h
    rw [hq, setOffset_of_nonpos below, setLength_of_nonpos below, read_setShort (by omega),
      read_setShort (by omega)]
  rw [← hq]
  refine ⟨live, by omega, by omega, ?_, ?_, fun j h1 h2 => by omega, fun _ => qHole, ?_, ?_, ?_, ?_, ?_,
    ?_, ?_, ?_⟩
  · rw [fields]
    exact comp.freePtr
  · rw [fields]
    simp only
    rw [comp.freeSpace, comp.slotCnt]
    omega
  · intro j h1 h2 hole
    by_cases same : j = d
    · rw [same]
      exact qHole
    · rw [qSlot j h2 same, comp.holes j (by omega) h2 hole, hole]
  · intro j h1 liveJ apart order
    rw [qSlot j liveJ.2.1 apart, comp.left j liveJ.1 liveJ.2.1 order]
  · intro j h1 liveJ order
    rw [qSlot j liveJ.2.1 (fun h => by rw [h] at order; omega), comp.right j liveJ order]
  · intro a n h
    rw [qRead a n (by omega), comp.bytesLeft a n h]
  · intro a n h1 h2
    rw [qRead a n (by omega), comp.bytesRight a n h1 h2]
  · intro negative
    have final := inv.last (by omega)
    rw [qCount, qSlot _ final.2.1 (Ne.symm inner)]
    by_cases order : (p.slot (p.slotCnt + 1)).offset ≤ (p.slot d).offset
    · rw [comp.left _ final.1 final.2.1 order]
      exact final.2.2
    · rw [comp.right _ final (by omega)]
      exact final.2.2
  · rw [fields]
    exact comp.next
  · rw [fields]
    exact comp.cur

theorem deleteRecord_live {rid : RID} (inv : p.Invariant) (live : p.Live (-rid.slotNo)) :
    ∃ q, p.deleteRecord rid = .ok q ∧ Deleted p (-rid.slotNo) q := by
  have comp := compact_spec inv live
  have count := comp.slotCnt
  have guard : -rid.slotNo > p.slotCnt ∧ (p.slot (-rid.slotNo)).length > 0 :=
    ⟨live.1, (inv.extent _ live).1⟩
  by_cases final : -rid.slotNo = p.slotCnt + 1
  · refine ⟨_, ?_, comp.trim inv live final⟩
    simp only [deleteRecord, if_pos guard]
    rw [if_pos (by rw [count]; exact final)]
  · refine ⟨_, ?_, comp.mark inv live final⟩
    simp only [deleteRecord, if_pos guard]
    rw [if_neg (by rw [count]; exact final)]

theorem deleteRecord_dead {rid : RID} (nonneg : 0 ≤ rid.slotNo)
    (dead : ¬ p.Live (-rid.slotNo)) : p.deleteRecord rid = .error .invalidSlotNo := by
  simp only [deleteRecord]
  rw [if_neg]
  rintro ⟨inside, positive⟩
  exact dead ⟨inside, by omega, by omega⟩

theorem getRecord_live {rid : RID} (inv : p.Invariant) (live : p.Live (-rid.slotNo)) :
    p.getRecord rid = .ok (p.record (-rid.slotNo)) := by
  simp only [getRecord]
  rw [if_pos ⟨live.1, (inv.extent _ live).1⟩]
  rfl

theorem Deleted.live_iff {d : Int} (del : Deleted p d q) (j : Int) :
    q.Live j ↔ p.Live j ∧ j ≠ d := by
  have above := del.above
  constructor
  · rintro ⟨h1, h2, h3⟩
    have apart : j ≠ d := fun h => by subst h; exact h3 (del.hole h1)
    exact ⟨⟨by omega, h2, fun hole => h3 (del.holes j h1 h2 hole)⟩, apart⟩
  · rintro ⟨live, apart⟩
    have kept : q.slotCnt < j := by
      by_contra gone
      rcases del.dropped j live.1 (by omega) with same | hole
      · exact apart same
      · exact live.2.2 hole
    refine ⟨kept, live.2.1, ?_⟩
    by_cases order : (p.slot j).offset ≤ (p.slot d).offset
    · rw [del.left j kept live apart order]
      exact live.2.2
    · rw [del.right j kept live (by omega)]
      exact live.2.2

/-- A surviving record either ends before the deleted one or starts after it. -/
theorem Deleted.entry {d : Int} (del : Deleted p d q) (inv : p.Invariant) (live : p.Live j)
    (apart : j ≠ d) :
    ((p.slot j).offset + (p.slot j).length ≤ (p.slot d).offset ∧ q.slot j = p.slot j) ∨
      ((p.slot d).offset + (p.slot d).length ≤ (p.slot j).offset ∧
        q.slot j = ⟨(p.slot j).offset - (p.slot d).length, (p.slot j).length⟩) := by
  have kept := ((del.live_iff j).mpr ⟨live, apart⟩).1
  have extentJ := inv.extent j live
  have extentD := inv.extent d del.live
  rcases inv.disjoint j d live del.live apart with before | behind
  · exact Or.inl ⟨before, del.left j kept live apart (by omega)⟩
  · exact Or.inr ⟨behind, del.right j kept live (by omega)⟩

/-- The records that are left tile the area again. -/
theorem Deleted.invariant {d : Int} (del : Deleted p d q) (inv : p.Invariant) : q.Invariant := by
  have space := inv.space_eq
  have room := inv.room
  have ptr := del.freePtr
  have free := del.freeSpace
  have above := del.above
  obtain ⟨positive, low, high⟩ := inv.extent d del.live
  refine ⟨del.below, by omega, ?_, by omega, ?_, ?_, ?_, ?_⟩
  · simp only [pageSize, dpFixed]
    omega
  · intro j live
    obtain ⟨liveP, apart⟩ := (del.live_iff j).mp live
    obtain ⟨h1, h2, h3⟩ := inv.extent j liveP
    rcases del.entry inv liveP apart with ⟨order, same⟩ | ⟨order, same⟩
    · rw [same]
      exact ⟨h1, h2, by omega⟩
    · simp only [same]
      exact ⟨h1, by omega, by omega⟩
  · intro j k liveJ liveK apart
    obtain ⟨liveJ, apartJ⟩ := (del.live_iff j).mp liveJ
    obtain ⟨liveK, apartK⟩ := (del.live_iff k).mp liveK
    have disjoint := inv.disjoint j k liveJ liveK apart
    have positiveJ := (inv.extent j liveJ).1
    have positiveK := (inv.extent k liveK).1
    rcases del.entry inv liveJ apartJ with ⟨orderJ, sameJ⟩ | ⟨orderJ, sameJ⟩ <;>
      rcases del.entry inv liveK apartK with ⟨orderK, sameK⟩ | ⟨orderK, sameK⟩ <;>
      simp only [sameJ, sameK] <;> omega
  · -- a byte right of the gap was covered by the byte that moved there
    intro x lowX highX
    by_cases order : x < (p.slot d).offset
    · obtain ⟨j, live, h1, h2⟩ := inv.covers x lowX (by omega)
      have apart : j ≠ d := fun h => by subst h; omega
      refine ⟨j, (del.live_iff j).mpr ⟨live, apart⟩, ?_⟩
      rcases del.entry inv live apart with ⟨_, same⟩ | ⟨behind, same⟩
      · rw [same]
        exact ⟨h1, h2⟩
      · omega
    · obtain ⟨j, live, h1, h2⟩ := inv.covers (x + (p.slot d).length) (by omega) (by omega)
      have apart : j ≠ d := fun h => by subst h; omega
      refine ⟨j, (del.live_iff j).mpr ⟨live, apart⟩, ?_⟩
      rcases del.entry inv live apart with ⟨before, same⟩ | ⟨_, same⟩
      · omega
      · simp only [same]
        exact ⟨by omega, by omega⟩
  · intro negative
    exact ⟨by omega, by omega, del.last negative⟩

theorem Deleted.record {d : Int} (del : Deleted p d q) (inv : p.Invariant) (live : p.Live j)
    (apart : j ≠ d) : q.record j = p.record j := by
  obtain ⟨h1, h2, h3⟩ := inv.extent j live
  unfold Page.record
  rcases del.entry inv live apart with ⟨order, same⟩ | ⟨order, same⟩
  · rw [same, del.bytesLeft _ _ (by omega)]
  · rw [same]
    simp only
    rw [del.bytesRight _ _ (by omega) (by omega)]
    congr 1
    omega

theorem slot_setNextPage (n : Int) (below : i ≤ 0) : (p.setNextPage n).slot i = p.slot i := by
  rw [slot_of_nonpos below, slot_of_nonpos below]
  rfl

theorem live_setNextPage (n : Int) : (p.setNextPage n).Live i ↔ p.Live i := by
  unfold Live
  constructor
  · rintro ⟨inside, below, used⟩
    exact ⟨inside, below, by rwa [slot_setNextPage n below] at used⟩
  · rintro ⟨inside, below, used⟩
    exact ⟨inside, below, by rwa [slot_setNextPage n below]⟩

theorem Invariant.setNextPage (inv : p.Invariant) (n : Int) : (p.setNextPage n).Invariant := by
  have same : ∀ j, p.Live j → (p.setNextPage n).slot j = p.slot j := fun j live =>
    slot_setNextPage n live.2.1
  refine ⟨inv.count, inv.used, inv.space, inv.room, ?_, ?_, ?_, fun h =>
    (live_setNextPage n).mpr (inv.last h)⟩
  · intro j live
    rw [live_setNextPage] at live
    rw [same j live]
    exact inv.extent j live
  · intro j l first second apart
    rw [live_setNextPage] at first second
    rw [same j first, same l second]
    exact inv.disjoint j l first second apart
  · intro x low high
    obtain ⟨j, live, rest⟩ := inv.covers x low high
    refine ⟨j, (live_setNextPage n).mpr live, ?_⟩
    rwa [same j live]

theorem init_invariant (p : Page) (pageNo : Int) : (p.init pageNo).Invariant := by
  have none : ∀ i, ¬ (p.init pageNo).Live i := by
    rintro i ⟨h1, h2, _⟩
    simp only [init] at h1
    omega
  refine ⟨le_refl 0, le_refl 0, rfl, Int.natCast_nonneg 1004, fun i h => absurd h (none i),
    fun i j h => absurd h (none i), fun x h1 h2 => ?_, fun h => ?_⟩
  · simp only [init] at h2
    omega
  · simp only [init] at h
    omega

end Minirel.Page
