import Minirel.BufMgr

/-! The sweep of the clock. It only turns the hand and clears reference bits, and
it finds a frame whenever there is one: invalid frames are met in the first turn
of the hand; an unpinned page may lose its reference bit there and is taken in the
second. -/
namespace Minirel
open Function

def BufDesc.key (d : BufDesc) : Option (FilePtr × Int) :=
  if d.valid then some (d.file, d.pageNo) else none

namespace BufDesc
variable {d : BufDesc} {k : FilePtr × Int}

theorem key_eq_some : d.key = some k ↔ d.valid = true ∧ d.file = k.1 ∧ d.pageNo = k.2 := by
  unfold key
  cases d.valid <;> simp [Prod.ext_iff]

theorem key_of_valid (valid : d.valid = true) : d.key = some (d.file, d.pageNo) := if_pos valid

theorem key_eq_none : d.key = none ↔ d.valid = false := by
  unfold key
  cases d.valid <;> simp

@[simp] theorem key_set (file : FilePtr) (pageNo : Int) :
    (set file pageNo).key = some (file, pageNo) := rfl

@[simp] theorem key_clear (d : BufDesc) : d.clear.key = none := rfl

end BufDesc

namespace BufMgr
variable {bufs : Nat} {P : Type} [PageImage P] {m r s : BufMgr bufs P}

@[simp] theorem setDesc_self (m : BufMgr bufs P) (i : Fin bufs) (d : BufDesc) :
    (m.setDesc i d).bufTable i = d := update_self ..

theorem setDesc_of_ne (m : BufMgr bufs P) {i j : Fin bufs} (d : BufDesc) (apart : j ≠ i) :
    (m.setDesc i d).bufTable j = m.bufTable j := update_of_ne apart ..

@[simp] theorem setPool_self (m : BufMgr bufs P) (i : Fin bufs) (page : P) :
    (m.setPool i page).bufPool i = page := update_self ..

theorem setPool_of_ne (m : BufMgr bufs P) {i j : Fin bufs} (page : P) (apart : j ≠ i) :
    (m.setPool i page).bufPool j = m.bufPool j := update_of_ne apart ..

def lookup (m : BufMgr bufs P) (k : FilePtr × Int) : Option (Fin bufs) := m.hashTable.lookup k

theorem lookup_removeEntry (m : BufMgr bufs P) (file : FilePtr) (pageNo : Int) (k : FilePtr × Int) :
    (m.removeEntry file pageNo).lookup k = if k = (file, pageNo) then none else m.lookup k := by
  unfold removeEntry lookup
  simp only
  cases removed : m.hashTable.remove (file, pageNo) with
  | some table => exact ChainedTable.lookup_remove removed k
  | none =>
    split
    next same => rw [same]; exact ChainedTable.remove_eq_none.mp removed
    next => rfl

/-- `r` is `m` up to the clock hand, the reference bits and the statistics. -/
structure Rotated (m r : BufMgr bufs P) : Prop where
  table : ∀ i, r.bufTable i = { m.bufTable i with refbit := (r.bufTable i).refbit }
  hash : r.hashTable = m.hashTable
  pool : r.bufPool = m.bufPool
  disk : r.disk = m.disk

theorem Rotated.refl (m : BufMgr bufs P) : Rotated m m := ⟨fun _ => rfl, rfl, rfl, rfl⟩

theorem Rotated.trans (first : Rotated m r) (second : Rotated r s) : Rotated m s :=
  ⟨fun i => by rw [second.table i, first.table i], second.hash.trans first.hash,
    second.pool.trans first.pool, second.disk.trans first.disk⟩

theorem Rotated.key (turned : Rotated m r) (i : Fin bufs) :
    (r.bufTable i).key = (m.bufTable i).key := by
  rw [turned.table i]
  rfl

@[simp] theorem advanceClock_bufTable (m : BufMgr bufs P) :
    m.advanceClock.bufTable = m.bufTable := rfl

theorem rotated_advanceClock (m : BufMgr bufs P) : Rotated m m.advanceClock :=
  ⟨fun _ => rfl, rfl, rfl, rfl⟩

theorem rotated_clearRefbit (m : BufMgr bufs P) : Rotated m m.clearRefbit := by
  refine ⟨fun j => ?_, rfl, rfl, rfl⟩
  unfold clearRefbit
  by_cases same : j = m.clockHand
  · subst same
    simp only [setDesc_self]
  · simp only [setDesc_of_ne _ _ same]

/-- Where the sweep ends: at an unpinned page, whose hash entry is gone; at an
invalid frame; or having run out. -/
inductive Swept (m : BufMgr bufs P) : Nat × Bool × BufMgr bufs P → Prop
  | victim (left : Nat) (r : BufMgr bufs P) (turned : Rotated m r)
      (valid : (m.bufTable r.clockHand).valid = true)
      (unpinned : (m.bufTable r.clockHand).pinCnt = 0) :
      Swept m (left, true, r.removeEntry (m.bufTable r.clockHand).file (m.bufTable r.clockHand).pageNo)
  | free (left : Nat) (r : BufMgr bufs P) (turned : Rotated m r)
      (invalid : (m.bufTable r.clockHand).valid = false) : Swept m (left, false, r)
  | exhausted (r : BufMgr bufs P) (turned : Rotated m r) : Swept m (0, false, r)

theorem Swept.of_rotated (turned : Rotated m r) {result} (swept : Swept r result) :
    Swept m result := by
  cases swept with
  | victim left s rest valid unpinned =>
    rw [turned.table] at valid unpinned
    rw [turned.table]
    exact .victim left s (turned.trans rest) valid unpinned
  | free left s rest invalid =>
    rw [turned.table] at invalid
    exact .free left s (turned.trans rest) invalid
  | exhausted s rest => exact .exhausted s (turned.trans rest)

/-- By induction on the frames left to look at. -/
theorem sweep_spec (n : Nat) (m : BufMgr bufs P) : Swept m (sweep n m) := by
  induction n generalizing m with
  | zero => exact .exhausted m (.refl m)
  | succ n ih =>
    have turned := rotated_advanceClock m
    simp only [sweep]
    split
    next invalid => exact .free n _ turned (by simpa using invalid)
    next valid =>
      split
      next =>
        split
        next unpinned => exact .victim n _ turned (by simpa using valid) unpinned
        next => exact (ih _).of_rotated turned
      next => exact (ih _).of_rotated (turned.trans (rotated_clearRefbit _))

def frameAt (m : BufMgr bufs P) (steps : Nat) : Fin bufs :=
  ⟨(m.clockHand + steps) % bufs, Nat.mod_lt _ m.clockHand.pos⟩

theorem frameAt_advanceClock (m : BufMgr bufs P) (s : Nat) :
    m.advanceClock.frameAt s = m.frameAt (s + 1) := by
  refine Fin.ext ?_
  simp only [frameAt, advanceClock, Nat.mod_add_mod]
  congr 1
  omega

theorem frameAt_zero (m : BufMgr bufs P) : m.frameAt 0 = m.clockHand :=
  Fin.ext (Nat.mod_eq_of_lt m.clockHand.isLt)

@[simp] theorem clockHand_advanceClock (m : BufMgr bufs P) :
    m.advanceClock.clockHand = m.frameAt 1 := rfl

theorem frameAt_bufs (m : BufMgr bufs P) : m.frameAt bufs = m.clockHand := by
  refine Fin.ext ?_
  simp only [frameAt, Nat.add_mod_right]
  exact Nat.mod_eq_of_lt m.clockHand.isLt

theorem exists_frameAt (m : BufMgr bufs P) (i : Fin bufs) : ∃ s < bufs, m.frameAt (s + 1) = i := by
  have low := m.clockHand.isLt
  refine ⟨(i + (bufs - 1 - m.clockHand)) % bufs, Nat.mod_lt _ (by omega), Fin.ext ?_⟩
  calc (m.clockHand + ((i + (bufs - 1 - m.clockHand)) % bufs + 1)) % bufs
    _ = (m.clockHand + 1 + (i + (bufs - 1 - m.clockHand)) % bufs) % bufs := by congr 1; omega
    _ = (m.clockHand + 1 + (i + (bufs - 1 - m.clockHand))) % bufs := Nat.add_mod_mod ..
    _ = (i + bufs) % bufs := by congr 1; omega
    _ = i := by rw [Nat.add_mod_right, Nat.mod_eq_of_lt i.isLt]

inductive Turn (m : BufMgr bufs P) (n : Nat) : Nat × Bool × BufMgr bufs P → Prop
  | free (invalid : (m.bufTable (m.frameAt 1)).valid = false) : Turn m n (n, false, m.advanceClock)
  | victim (r : BufMgr bufs P) (valid : (m.bufTable (m.frameAt 1)).valid = true)
      (unpinned : (m.bufTable (m.frameAt 1)).pinCnt = 0) (hand : r.clockHand = m.frameAt 1) :
        Turn m n (n, true, r)
  | pass (r : BufMgr bufs P) (valid : (m.bufTable (m.frameAt 1)).valid = true) (turned : Rotated m r)
      (hand : r.clockHand = m.frameAt 1)
      (bits : ∀ i, (m.bufTable i).refbit = false → (r.bufTable i).refbit = false)
      (cleared : (r.bufTable (m.frameAt 1)).refbit = false)
      (busy : (m.bufTable (m.frameAt 1)).refbit = false → (m.bufTable (m.frameAt 1)).pinCnt ≠ 0) :
        Turn m n (sweep n r)

theorem sweep_turn (n : Nat) (m : BufMgr bufs P) : Turn m n (sweep (n + 1) m) := by
  have turned := rotated_advanceClock m
  simp only [sweep]
  split
  next invalid => exact .free (by simpa using invalid)
  next valid =>
    have valid : (m.bufTable (m.frameAt 1)).valid = true := by simpa using valid
    split
    next bit =>
      have bit : (m.bufTable (m.frameAt 1)).refbit = false := by simpa using bit
      split
      next unpinned => exact .victim _ valid unpinned rfl
      next pinned => exact .pass _ valid turned rfl (fun _ clear => clear) bit (fun _ => pinned)
    next bit =>
      have bit : (m.bufTable (m.frameAt 1)).refbit = true := by simpa using bit
      refine .pass _ valid (turned.trans (rotated_clearRefbit _)) rfl (fun i clear => ?_) ?_
        (by simp [bit])
      · by_cases same : i = m.frameAt 1
        · simp [clearRefbit, setDesc, same]
        · simpa [clearRefbit, setDesc_of_ne _ _ same] using clear
      · simp [clearRefbit, setDesc, clockHand_advanceClock]

theorem frameAt_pass {r : BufMgr bufs P} (hand : r.clockHand = m.frameAt 1) (s : Nat) :
    r.frameAt s = m.frameAt (s + 1) := by
  rw [← frameAt_advanceClock]
  simp only [frameAt, hand, clockHand_advanceClock]

theorem sweep_steps (n : Nat) (m : BufMgr bufs P) :
    ∃ steps, steps + (sweep n m).1 = n ∧ (0 < n → 0 < steps) ∧
      (sweep n m).2.2.clockHand = m.frameAt steps := by
  induction n generalizing m with
  | zero => exact ⟨0, rfl, id, (frameAt_zero m).symm⟩
  | succ n ih =>
    have turn := sweep_turn n m
    generalize sweep (n + 1) m = result at turn
    cases turn with
    | free => exact ⟨1, by simp [Nat.add_comm], by simp, rfl⟩
    | victim r _ _ hand => exact ⟨1, by simp [Nat.add_comm], by simp, hand⟩
    | pass r _ _ hand =>
      obtain ⟨steps, count, _, final⟩ := ih r
      exact ⟨steps + 1, by omega, by simp, final.trans (frameAt_pass hand steps)⟩

theorem sweep_invalid {s n : Nat} (near : s < n)
    (invalid : (m.bufTable (m.frameAt (s + 1))).valid = false) :
    n ≤ (sweep n m).1 + (s + 1) := by
  induction s generalizing m n with
  | zero =>
    obtain ⟨n, rfl⟩ : ∃ k, n = k + 1 := ⟨n - 1, by omega⟩
    have turn := sweep_turn n m
    generalize sweep (n + 1) m = result at turn
    cases turn with
    | free => simp
    | victim r valid => simp
    | pass r valid =>
      rw [valid] at invalid
      cases invalid
  | succ s ih =>
    obtain ⟨n, rfl⟩ : ∃ k, n = k + 1 := ⟨n - 1, by omega⟩
    have turn := sweep_turn n m
    generalize sweep (n + 1) m = result at turn
    cases turn with
    | free => simp
    | victim r valid => simp
    | pass r _ turned hand =>
      have ahead := ih (m := r) (n := n) (by omega)
        (by rw [frameAt_pass hand, turned.table]; exact invalid)
      omega

/-- A page that is unpinned and not referenced is taken, or another one before. -/
theorem sweep_ready {s n : Nat} (valid : ∀ i, (m.bufTable i).valid = true) (near : s < n)
    (ready : (m.bufTable (m.frameAt (s + 1))).refbit = false)
    (unpinned : (m.bufTable (m.frameAt (s + 1))).pinCnt = 0) :
    (sweep n m).2.1 = true := by
  induction s generalizing m n with
  | zero =>
    obtain ⟨n, rfl⟩ : ∃ k, n = k + 1 := ⟨n - 1, by omega⟩
    have turn := sweep_turn n m
    generalize sweep (n + 1) m = result at turn
    cases turn with
    | free invalid => simp [valid] at invalid
    | victim => rfl
    | pass _ _ _ _ _ _ busy => exact absurd unpinned (busy ready)
  | succ s ih =>
    obtain ⟨n, rfl⟩ : ∃ k, n = k + 1 := ⟨n - 1, by omega⟩
    have turn := sweep_turn n m
    generalize sweep (n + 1) m = result at turn
    cases turn with
    | free invalid => simp [valid] at invalid
    | victim => rfl
    | pass r _ turned hand bits =>
      refine ih (fun i => ?_) (by omega) ?_ ?_
      · rw [turned.table]
        exact valid i
      · rw [frameAt_pass hand]
        exact bits _ ready
      · rw [frameAt_pass hand, turned.table]
        exact unpinned

theorem sweep_unpinned {s n : Nat} (valid : ∀ i, (m.bufTable i).valid = true) (near : s + bufs < n)
    (unpinned : (m.bufTable (m.frameAt (s + 1))).pinCnt = 0) : (sweep n m).2.1 = true := by
  induction s generalizing m n with
  | zero =>
    obtain ⟨n, rfl⟩ : ∃ k, n = k + 1 := ⟨n - 1, by omega⟩
    have turn := sweep_turn n m
    generalize sweep (n + 1) m = result at turn
    cases turn with
    | free invalid => simp [valid] at invalid
    | victim => rfl
    | pass r _ turned hand _ cleared =>
      -- its bit is cleared, and it comes up again after a full turn
      have last : bufs - 1 + 1 = bufs := Nat.sub_add_cancel m.clockHand.pos
      refine sweep_ready (s := bufs - 1) (fun i => ?_) (by omega) ?_ ?_
      · rw [turned.table]
        exact valid i
      · rw [last, frameAt_bufs, hand]
        exact cleared
      · rw [last, frameAt_bufs, hand, turned.table]
        exact unpinned
  | succ s ih =>
    obtain ⟨n, rfl⟩ : ∃ k, n = k + 1 := ⟨n - 1, by omega⟩
    have turn := sweep_turn n m
    generalize sweep (n + 1) m = result at turn
    cases turn with
    | free invalid => simp [valid] at invalid
    | victim => rfl
    | pass r _ turned hand =>
      refine ih (fun i => ?_) (by omega) ?_
      · rw [turned.table]
        exact valid i
      · rw [frameAt_pass hand, turned.table]
        exact unpinned

def Idle (m : BufMgr bufs P) (i : Fin bufs) : Prop :=
  (m.bufTable i).valid = false ∨ (m.bufTable i).pinCnt = 0

/-- The loop does not run out while a frame is to be had. -/
theorem sweep_found {i : Fin bufs} (idle : m.Idle i) :
    (sweep (2 * bufs) m).2.1 = true ∨ 0 < (sweep (2 * bufs) m).1 := by
  have positive := m.clockHand.pos
  by_cases valid : ∀ j, (m.bufTable j).valid = true
  · have unpinned : (m.bufTable i).pinCnt = 0 := idle.resolve_left (by simp [valid])
    obtain ⟨s, near, rfl⟩ := m.exists_frameAt i
    exact Or.inl (sweep_unpinned valid (by omega) unpinned)
  · push Not at valid
    obtain ⟨j, invalid⟩ := valid
    obtain ⟨s, near, rfl⟩ := m.exists_frameAt j
    have left := sweep_invalid (s := s) (n := 2 * bufs) (by omega) (by simpa using invalid)
    exact Or.inr (by omega)

end BufMgr
end Minirel
