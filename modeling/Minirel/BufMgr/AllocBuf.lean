import Minirel.BufMgr.Clock
import Minirel.File.Failure

/-! What a call of `allocBuf` can do. It takes over a frame that nobody uses if
there is one, and a valid victim has lost its hash entry by that time whether or
not its write-back succeeds. -/
namespace Minirel.BufMgr
variable {bufs : Nat} {P : Type} [PageImage P] {m r s : BufMgr bufs P} {fault : Faults P}
  {i : Fin bufs} {k : FilePtr × Int}

def victim (m : BufMgr bufs P) : Option (Fin bufs) :=
  match sweep (2 * bufs) m with
  | (_, true, m) => some m.clockHand
  | (_, false, _) => none

def onDisk (m : BufMgr bufs P) (disk : Disk P) : BufMgr bufs P := { m with disk := disk }

theorem sweep_onDisk (n : Nat) (m : BufMgr bufs P) (disk : Disk P) :
    sweep n (m.onDisk disk) = ((sweep n m).1, (sweep n m).2.1, (sweep n m).2.2.onDisk disk) := by
  induction n generalizing m with
  | zero => rfl
  | succ n ih =>
    simp only [sweep]
    change (if (!(m.advanceClock.bufTable m.advanceClock.clockHand).valid) = true then _ else
      if (!(m.advanceClock.bufTable m.advanceClock.clockHand).refbit) = true then
        if (m.advanceClock.bufTable m.advanceClock.clockHand).pinCnt = 0 then _ else _
      else _) = _
    split
    · rfl
    · split
      · split
        · rfl
        · exact ih m.advanceClock
      · exact ih m.advanceClock.clearRefbit

theorem victim_onDisk (m : BufMgr bufs P) (disk : Disk P) : (m.onDisk disk).victim = m.victim := by
  unfold victim
  rw [sweep_onDisk]
  obtain ⟨left, found, r⟩ := sweep (2 * bufs) m
  cases found <;> rfl

theorem victim_idle (found : m.victim = some i) : m.Idle i := by
  have swept := sweep_spec (2 * bufs) m
  unfold victim at found
  generalize sweep (2 * bufs) m = result at swept found
  cases swept with
  | victim left r turned valid unpinned =>
    cases found
    exact .inr unpinned
  | free => cases found
  | exhausted => cases found

/-- Frame `i` was taken over: its page, if it held one, has no hash entry any
more, while descriptor and contents are still those of the old page. -/
structure Taken (m : BufMgr bufs P) (i : Fin bufs) (r : BufMgr bufs P) : Prop where
  table : ∀ j, r.bufTable j = { m.bufTable j with refbit := (r.bufTable j).refbit }
  lookup : ∀ k, r.lookup k = if (m.bufTable i).key = some k then none else m.lookup k
  pool : r.bufPool = m.bufPool
  idle : m.Idle i
  victim : m.victim = if (m.bufTable i).valid then some i else none
  hand : (sweep (2 * bufs) m).2.2.clockHand = i

theorem Taken.unpinned (taken : Taken m i r) (valid : (m.bufTable i).valid = true) :
    (m.bufTable i).pinCnt = 0 :=
  taken.idle.resolve_left (by simp [valid])

theorem Taken.victim_of_valid (taken : Taken m i r) (valid : (m.bufTable i).valid = true) :
    m.victim = some i := by
  rw [taken.victim, if_pos valid]

/-- Only the frame that was taken over can have been the victim. -/
theorem Taken.eq_of_victim (taken : Taken m i r) {j : Fin bufs} (found : m.victim = some j) :
    j = i := by
  rw [taken.victim] at found
  split at found
  · exact (Option.some.inj found).symm
  · cases found

def Spares (m : BufMgr bufs P) (fault : Faults P) (i : Fin bufs) : Prop :=
  (m.bufTable i).dirty = true → 1 ≤ (m.bufTable i).pageNo ∧ fault .victimWrite = none

def Rewrites (m : BufMgr bufs P) (i : Fin bufs) (k : FilePtr × Int) : Prop :=
  (m.bufTable i).dirty = true ∧ 1 ≤ (m.bufTable i).pageNo ∧
    k = ((m.bufTable i).file, (m.bufTable i).pageNo)

def flushed (m : BufMgr bufs P) (i : Fin bufs) : Disk P :=
  if (m.bufTable i).dirty then
    m.disk.write (m.bufTable i).file (m.bufTable i).pageNo (m.bufPool i)
  else m.disk

theorem flushed_page_of_ne
    (apart : (m.bufTable i).dirty = true → k ≠ ((m.bufTable i).file, (m.bufTable i).pageNo)) :
    (m.flushed i k.1).page k.2 = (m.disk k.1).page k.2 := by
  unfold flushed
  split
  next dirty => exact Disk.write_page_of_ne _ _ (apart dirty)
  next => rfl

theorem Spares.flushed_page (spares : m.Spares fault i) (apart : ¬ m.Rewrites i k) :
    (m.flushed i k.1).page k.2 = (m.disk k.1).page k.2 :=
  flushed_page_of_ne fun dirty same => apart ⟨dirty, (spares dirty).1, same⟩

structure Unwritten (m : BufMgr bufs P) (fault : Faults P) (i : Fin bufs) (r : BufMgr bufs P) : Prop
    extends Taken m i r where
  unspared : ¬ m.Spares fault i
  disk : ∀ k, ¬ m.Rewrites i k → (r.disk k.1).page k.2 = (m.disk k.1).page k.2

theorem Unwritten.dirty (unwritten : Unwritten m fault i r) : (m.bufTable i).dirty = true :=
  (Classical.not_imp.mp unwritten.unspared).1

inductive AllocBuf (m : BufMgr bufs P) (fault : Faults P) :
    Except Status (Fin bufs) × BufMgr bufs P → Prop
  | exceeded (r : BufMgr bufs P) (turned : Rotated m r) (busy : ∀ i, ¬ m.Idle i) :
      AllocBuf m fault (.error .bufferExceeded, r)
  | taken (i : Fin bufs) (r : BufMgr bufs P) (taken : Taken m i r) (spares : m.Spares fault i)
      (disk : r.disk = m.flushed i) : AllocBuf m fault (.ok i, r)
  | failed (i : Fin bufs) (status : Status) (r : BufMgr bufs P) (unwritten : Unwritten m fault i r) :
      AllocBuf m fault (.error status, r)

theorem writeBack_cases (m : BufMgr bufs P) (fault : Faults P) :
    (m.Spares fault m.clockHand ∧ ∃ stats, m.writeBack fault =
      (.ok m.clockHand, { m with bufStats := stats, disk := m.flushed m.clockHand })) ∨
    (¬ m.Spares fault m.clockHand ∧ ∃ status stats disk,
      m.writeBack fault = (.error status, { m with bufStats := stats, disk := disk }) ∧
      ∀ k, ¬ m.Rewrites m.clockHand k → (disk k.1).page k.2 = (m.disk k.1).page k.2) := by
  unfold writeBack flushed Spares
  by_cases dirty : (m.bufTable m.clockHand).dirty = true
  · simp only [dirty, if_true, true_imp_iff]
    have kept (k : FilePtr × Int) (apart : ¬ m.Rewrites m.clockHand k) :=
      Disk.writePage_page m.disk (m.bufPool m.clockHand) (fault .victimWrite) fun low same =>
        apart ⟨dirty, low, same⟩
    rcases m.disk.writePage_cases (m.bufTable m.clockHand).file (m.bufTable m.clockHand).pageNo
      (m.bufPool m.clockHand) (fault .victimWrite) with ⟨low, sound, write⟩ | ⟨fails, bad⟩
    · rw [write]
      exact .inl ⟨⟨low, sound⟩, _, rfl⟩
    · generalize m.disk.writePage _ _ _ _ = result at bad kept
      obtain ⟨status, disk⟩ := result
      refine .inr ⟨fails, status, { m.bufStats with diskwrites := m.bufStats.diskwrites + 1 }, disk,
        ?_, kept⟩
      cases status <;> first | exact absurd rfl bad | rfl
  · simp only [dirty]
    exact .inl ⟨by simp, m.bufStats, rfl⟩

theorem Rotated.lookup (turned : Rotated m r) (k : FilePtr × Int) : r.lookup k = m.lookup k := by
  unfold BufMgr.lookup
  rw [turned.hash]

/-- A write-back from a frame under the hand that was taken over. -/
theorem Taken.writeBack (taken : Taken m r.clockHand r) (disk : r.disk = m.disk)
    (fault : Faults P) :
    AllocBuf m fault (r.writeBack fault) := by
  have spares : r.Spares fault r.clockHand ↔ m.Spares fault r.clockHand := by
    unfold Spares
    rw [taken.table]
  rcases writeBack_cases r fault with ⟨spared, stats, run⟩ | ⟨unspared, status, stats, torn, run, kept⟩
  · rw [run]
    refine .taken _ _ ⟨taken.table, taken.lookup, taken.pool, taken.idle, taken.victim, taken.hand⟩
      (spares.mp spared) ?_
    simp only [flushed]
    rw [taken.table, taken.pool, disk]
  · rw [run]
    refine .failed _ _ _ ⟨⟨taken.table, taken.lookup, taken.pool, taken.idle, taken.victim, taken.hand⟩,
      spares.not.mp unspared, fun k apart => ?_⟩
    rw [← disk]
    refine kept k fun rewrites => apart ?_
    unfold Rewrites at rewrites ⊢
    rwa [taken.table] at rewrites

theorem allocBuf_spec (m : BufMgr bufs P) (fault : Faults P) :
    AllocBuf m fault (m.allocBuf fault) := by
  have found (i : Fin bufs) (idle : m.Idle i) := sweep_found idle
  have swept := sweep_spec (2 * bufs) m
  have victim := victim.eq_1 m
  unfold allocBuf
  generalize run : sweep (2 * bufs) m = result at swept found victim
  cases swept with
  | victim left r turned valid unpinned =>
    simp only [Bool.not_true, Bool.false_eq_true, false_and, if_false]
    refine Taken.writeBack (r := r.removeEntry _ _)
      ⟨turned.table, fun k => ?_, turned.pool, .inr unpinned, ?_, by rw [run]⟩ turned.disk fault
    · rw [lookup_removeEntry, turned.lookup]
      congr 1
      rw [BufDesc.key_eq_some, Prod.ext_iff]
      simp [removeEntry, valid, eq_comm]
    · exact victim.trans (if_pos valid).symm
  | free left r turned invalid =>
    have left : left ≠ 0 := by
      have := found _ (.inl invalid)
      simp only [Bool.false_eq_true, false_or] at this
      omega
    simp only [left, and_false, if_false]
    refine Taken.writeBack ⟨turned.table, fun k => ?_, turned.pool, .inl invalid, ?_, by rw [run]⟩
      turned.disk fault
    · rw [BufDesc.key_eq_none.mpr invalid, turned.lookup]
      simp
    · exact victim.trans (if_neg (by simp [invalid])).symm
  | exhausted r turned =>
    simp only [Bool.not_false, and_self, if_true]
    exact .exceeded r turned fun i idle => by simpa using found i idle

def Busy (m : BufMgr bufs P) (i : Fin bufs) : Prop := (m.bufTable i).valid = true ∧
    0 < (m.bufTable i).pinCnt

theorem busy_iff (nonneg : 0 ≤ (m.bufTable i).pinCnt) : m.Busy i ↔ ¬ m.Idle i := by
  unfold Busy Idle
  cases (m.bufTable i).valid with
  | false => simp
  | true => simp; omega

/-- Frame `i` was handed out: nothing but reference bits and its hash entry has
changed, after at most two turns of the hand. -/
structure HandedOut (m : BufMgr bufs P) (i : Fin bufs) (r : BufMgr bufs P) : Prop where
  idle : (m.bufTable i).valid = false ∨ (m.bufTable i).pinCnt = 0
  table : ∀ j, r.bufTable j = { m.bufTable j with refbit := (r.bufTable j).refbit }
  pool : r.bufPool = m.bufPool
  entries : ∀ k, r.lookup k = m.lookup k ∨ (m.bufTable i).key = some k ∧ r.lookup k = none
  steps : ∃ steps, steps + (sweep (2 * bufs) m).1 = 2 * bufs ∧ 0 < steps ∧ m.frameAt steps = i

def Writable (m : BufMgr bufs P) (fault : Faults P) : Prop := ∀ i, (m.bufTable i).dirty = true →
  (m.disk.writePage (m.bufTable i).file (m.bufTable i).pageNo (m.bufPool i)
    (fault .victimWrite)).1 = .ok

theorem Writable.spares (writable : m.Writable fault) (i : Fin bufs) : m.Spares fault i := by
  intro dirty
  rcases m.disk.writePage_cases (m.bufTable i).file (m.bufTable i).pageNo (m.bufPool i)
    (fault .victimWrite) with
    ⟨low, sound, _⟩ | ⟨_, bad⟩
  · exact ⟨low, sound⟩
  · exact absurd (writable i dirty) bad

theorem Taken.handedOut (taken : Taken m i r) : HandedOut m i r := by
  obtain ⟨steps, count, positive, final⟩ := sweep_steps (2 * bufs) m
  have turn : 0 < 2 * bufs := Nat.mul_pos (by decide) m.clockHand.pos
  refine ⟨taken.idle, taken.table, taken.pool, fun k => ?_, steps, count, positive turn,
    final.symm.trans taken.hand⟩
  rw [taken.lookup]
  split
  next held => exact .inr ⟨held, rfl⟩
  next => exact .inl rfl

/-- `allocBuf` fails exactly if every frame is in use, and otherwise hands out
one that is not. -/
theorem allocBuf_finds_victim (m : BufMgr bufs P) (fault : Faults P)
    (pins : ∀ i, 0 ≤ (m.bufTable i).pinCnt) (writable : m.Writable fault) :
    ((m.allocBuf fault).1 = .error .bufferExceeded ↔ ∀ i, m.Busy i) ∧
    ((¬ ∀ i, m.Busy i) → ∃ i, (m.allocBuf fault).1 = .ok i ∧
      HandedOut m i (m.allocBuf fault).2) := by
  have spec := allocBuf_spec m fault
  generalize m.allocBuf fault = result at spec
  cases spec with
  | exceeded r turned busy =>
    have busy : ∀ i, m.Busy i := fun i => (busy_iff (pins i)).mpr (busy i)
    exact ⟨iff_of_true rfl busy, fun free => absurd busy free⟩
  | taken i r taken =>
    have free : ¬ ∀ i, m.Busy i := fun busy => (busy_iff (pins i)).mp (busy i) taken.idle
    exact ⟨iff_of_false (by simp) free, fun _ => ⟨i, rfl, taken.handedOut⟩⟩
  | failed i status r unwritten => exact absurd (writable.spares i) unwritten.unspared

/-- A pool of two referenced pages, the first of them pinned: the second turn of
the hand takes the other. -/
theorem allocBuf_finds_victim_second :
    let m : BufMgr 2 DBPage := { BufMgr.new 2 Disk.twoPages with
      bufTable := fun i => ⟨7, i + 1, if i = 0 then 1 else 0, false, true, true⟩ }
    (m.allocBuf noFaults).1 = .ok 1 ∧ HandedOut m 1 (m.allocBuf noFaults).2 := by
  intro m
  have idle : ¬ ∀ i, m.Busy i := fun busy => absurd (busy 1).2 (by decide)
  obtain ⟨i, ok, handed⟩ :=
    (allocBuf_finds_victim m noFaults (by decide) (fun i dirty => by cases dirty)).2 idle
  have second : (m.allocBuf noFaults).1 = .ok 1 := by decide +kernel
  cases ok.symm.trans second
  exact ⟨ok, handed⟩

end Minirel.BufMgr
