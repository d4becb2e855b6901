import Minirel.BufMgr.FlushFile

/-! What each call can do to a pool in which hash table and frames correspond.
The outcomes include those after which they no longer do. -/
namespace Minirel.BufMgr
variable {bufs : Nat} {P : Type} [PageImage P] {m r : BufMgr bufs P} {fault : Faults P}
  {i : Fin bufs} {k : FilePtr × Int} {d : BufDesc}

/-- The hash table maps a page to a frame iff the frame is valid and describes
the page; an invalid frame has nothing to write back. -/
structure Mapped (m : BufMgr bufs P) : Prop where
  entry : ∀ k i, m.lookup k = some i ↔ (m.bufTable i).key = some k
  clean : ∀ i, (m.bufTable i).valid = false → (m.bufTable i).dirty = false

theorem Mapped.unique (inv : Mapped m) {i j : Fin bufs} (first : (m.bufTable i).key = some k)
    (second : (m.bufTable j).key = some k) : i = j := by
  have h := ((inv.entry k i).mpr first).symm.trans ((inv.entry k j).mpr second)
  exact Option.some.inj h

theorem Mapped.absent (inv : Mapped m) (missing : m.lookup k = none) (i : Fin bufs) :
    (m.bufTable i).key ≠ some k := by
  intro held
  rw [(inv.entry k i).mpr held] at missing
  cases missing

theorem Mapped.valid_of_dirty (inv : Mapped m) (dirty : (m.bufTable i).dirty = true) :
    (m.bufTable i).valid = true := by
  by_contra invalid
  simp [inv.clean i (by simpa using invalid)] at dirty

theorem new_mapped [NeZero bufs] (disk : Disk P) : Mapped (new bufs disk) :=
  ⟨fun k i => by simp [new, lookup, BufDesc.key], fun _ _ => rfl⟩

theorem Mapped.onDisk (inv : Mapped m) (disk : Disk P) : Mapped (m.onDisk disk) :=
  ⟨inv.entry, inv.clean⟩

theorem Mapped.rotated (inv : Mapped m) (turned : Rotated m r) : Mapped r := by
  constructor
  · intro k i
    rw [turned.lookup, turned.key]
    exact inv.entry k i
  · intro i
    rw [turned.table i]
    exact inv.clean i

theorem Mapped.setDesc (inv : Mapped m) (same : d.key = (m.bufTable i).key)
    (clean : d.valid = false → d.dirty = false) : Mapped (m.setDesc i d) := by
  constructor
  · intro k j
    by_cases here : j = i
    · subst here
      rw [setDesc_self, same]
      exact inv.entry k j
    · rw [setDesc_of_ne _ _ here]
      exact inv.entry k j
  · intro j
    by_cases here : j = i
    · subst here
      rwa [setDesc_self]
    · rw [setDesc_of_ne _ _ here]
      exact inv.clean j

theorem Mapped.drop (inv : Mapped m) {file : FilePtr} {pageNo : Int}
    (held : (m.bufTable i).key = some (file, pageNo)) (gone : d.key = none)
    (clean : d.dirty = false) :
    Mapped ((m.removeEntry file pageNo).setDesc i d) := by
  constructor
  · intro k j
    change (m.removeEntry file pageNo).lookup k = some j ↔ _
    rw [lookup_removeEntry]
    by_cases here : j = i
    · subst here
      rw [setDesc_self, gone]
      split
      next => simp
      next apart =>
        rw [inv.entry, held]
        simp [Ne.symm apart]
    · rw [setDesc_of_ne _ _ here]
      change _ ↔ (m.bufTable j).key = some k
      rw [← inv.entry]
      split
      next same =>
        rw [same, (inv.entry _ i).mpr held]
        simp [Ne.symm here]
      next => rfl
  · intro j
    by_cases here : j = i
    · subst here
      rw [setDesc_self]
      exact fun _ => clean
    · rw [setDesc_of_ne _ _ here]
      exact inv.clean j

/-- Once frame `i` was taken over, the table maps the pages of all the others. -/
theorem Taken.entry (taken : Taken m i r) (inv : Mapped m) (k : FilePtr × Int) (j : Fin bufs) :
    r.lookup k = some j ↔ j ≠ i ∧ (r.bufTable j).key = some k := by
  have same : (r.bufTable j).key = (m.bufTable j).key := by
    rw [taken.table j]
    rfl
  rw [taken.lookup, same]
  by_cases here : (m.bufTable i).key = some k
  · rw [if_pos here]
    simp only [reduceCtorEq, false_iff, not_and]
    exact fun apart held => apart (inv.unique held here)
  · rw [if_neg here, inv.entry]
    refine ⟨fun held => ⟨fun same => here (same ▸ held), held⟩, fun h => h.2⟩

/-- A taken frame that was not valid has lost nothing. -/
theorem Taken.mapped (taken : Taken m i r) (inv : Mapped m)
    (invalid : (m.bufTable i).valid = false) :
    Mapped r := by
  constructor
  · intro k j
    rw [taken.lookup, if_neg (by rw [BufDesc.key_eq_none.mpr invalid]; simp), taken.table j]
    exact inv.entry k j
  · intro j
    rw [taken.table j]
    exact inv.clean j

structure Entered (m : BufMgr bufs P) (i : Fin bufs) (k : FilePtr × Int) (page : P)
    (r : BufMgr bufs P) : Prop where
  mapped : Mapped r
  self : r.bufTable i = .set k.1 k.2
  others : ∀ j, j ≠ i → r.bufTable j = { m.bufTable j with refbit := (r.bufTable j).refbit }
  page : r.bufPool i = page
  pool : ∀ j, j ≠ i → r.bufPool j = m.bufPool j
  unpinned : (m.bufTable i).valid = true → (m.bufTable i).pinCnt = 0
  disk : r.disk = m.flushed i

/-- `Set` and `insert` on a frame that was taken over. -/
theorem Taken.enter (taken : Taken m i r) (inv : Mapped m) (disk : r.disk = m.flushed i)
    (file : FilePtr) (pageNo : Int) (page : P) (stats : BufStats) :
    let s := ({ r with bufStats := stats }.setPool i page).setDesc i (.set file pageNo)
    (r.lookup (file, pageNo) ≠ none ∧ s.enter file pageNo i = (.error .hashTblError, s)) ∨
    (r.lookup (file, pageNo) = none ∧ ∃ t, s.enter file pageNo i = (.ok i, t) ∧
      Entered m i (file, pageNo) page t) := by
  intro s
  unfold BufMgr.enter
  cases inserted : s.hashTable.insert (file, pageNo) i with
  | none => exact Or.inl ⟨ChainedTable.insert_eq_none.mp inserted, rfl⟩
  | some table =>
    have fresh : r.lookup (file, pageNo) = none := by
      by_contra present
      have refused : s.hashTable.insert (file, pageNo) i = none :=
        ChainedTable.insert_eq_none.mpr present
      rw [inserted] at refused
      cases refused
    have self : s.bufTable i = .set file pageNo := setDesc_self ..
    have others : ∀ j, j ≠ i → s.bufTable j = r.bufTable j := fun j apart => setDesc_of_ne _ _ apart
    refine Or.inr ⟨fresh, { s with hashTable := table }, rfl, ⟨fun k j => ?_, fun j => ?_⟩, self,
      fun j apart => ?_,
      setPool_self .., fun j apart => (setPool_of_ne _ _ apart).trans (congrFun taken.pool j),
      taken.unpinned, disk⟩
    · change table.lookup k = some j ↔ (s.bufTable j).key = some k
      have rest : s.hashTable.lookup k = some j ↔ j ≠ i ∧ (r.bufTable j).key = some k :=
        taken.entry inv k j
      rw [ChainedTable.lookup_insert inserted]
      by_cases here : j = i
      · subst here
        rw [self, BufDesc.key_set]
        split
        next same => simp [same]
        next apart => simp [rest, Ne.symm apart]
      · rw [others j here]
        split
        next same =>
          have missing := (taken.entry inv k j).not.mp (by rw [same, fresh]; simp)
          simp only [Option.some.injEq, Ne.symm here, false_iff]
          exact fun held => missing ⟨here, held⟩
        next => simpa [here] using rest
    · change (s.bufTable j).valid = false → (s.bufTable j).dirty = false
      by_cases here : j = i
      · subst here
        rw [self]
        exact fun _ => rfl
      · rw [others j here, taken.table j]
        exact inv.clean j
    · change s.bufTable j = _
      rw [others j apart]
      exact taken.table j

inductive ReadPage (m : BufMgr bufs P) (file : FilePtr) (pageNo : Int) (fault : Faults P) :
    Except Status (Fin bufs) × BufMgr bufs P → Prop
  | hit (i : Fin bufs) (found : m.lookup (file, pageNo) = some i) :
      ReadPage m file pageNo fault (.ok i, m.setDesc i
        { m.bufTable i with refbit := true, pinCnt := (m.bufTable i).pinCnt + 1 })
  | exceeded (r : BufMgr bufs P) (turned : Rotated m r) (busy : ∀ i, ¬ m.Idle i) :
      ReadPage m file pageNo fault (.error .bufferExceeded, r)
  | unwritten (i : Fin bufs) (status : Status) (r : BufMgr bufs P)
      (missing : m.lookup (file, pageNo) = none) (unwritten : Unwritten m fault i r) :
      ReadPage m file pageNo fault (.error status, r)
  | unread (i : Fin bufs) (status : Status) (r : BufMgr bufs P) (stats : BufStats) (junk : P)
      (missing : m.lookup (file, pageNo) = none) (taken : Taken m i r) (spares : m.Spares fault i)
      (disk : r.disk = m.flushed i)
      (cause : fault .pageRead ≠ none ∨ ¬ (1 ≤ pageNo ∧ pageNo < (m.flushed i file).size)) :
      ReadPage m file pageNo fault (.error status, { r with bufStats := stats }.setPool i junk)
  | loaded (i : Fin bufs) (r : BufMgr bufs P) (missing : m.lookup (file, pageNo) = none)
      (entered : Entered m i (file, pageNo) ((m.disk file).page pageNo) r) (spares : m.Spares fault i)
      (victim : ∀ j, m.victim = some j → j = i) (sound : fault .pageRead = none)
      (inside : 1 ≤ pageNo ∧ pageNo < (m.flushed i file).size) : ReadPage m file pageNo fault (.ok i, r)

/-- Writing a victim back does not touch a page that is not in the pool. -/
theorem Mapped.flushed_page (inv : Mapped m) {file : FilePtr} {pageNo : Int}
    (missing : m.lookup (file, pageNo) = none) (i : Fin bufs) :
    (m.flushed i file).page pageNo = (m.disk file).page pageNo := by
  refine flushed_page_of_ne (k := (file, pageNo)) fun dirty same => inv.absent missing i ?_
  rw [same]
  exact BufDesc.key_of_valid (inv.valid_of_dirty dirty)

theorem Taken.lookup_none (taken : Taken m i r) (missing : m.lookup k = none) :
    r.lookup k = none := by
  rw [taken.lookup, missing, ite_self]

theorem readPage_spec (inv : Mapped m) (file : FilePtr) (pageNo : Int) (fault : Faults P) :
    ReadPage m file pageNo fault (m.readPage file pageNo fault) := by
  unfold readPage
  cases found : m.hashTable.lookup (file, pageNo) with
  | some i => exact .hit i found
  | none =>
    have alloc := allocBuf_spec m fault
    generalize m.allocBuf fault = result at alloc
    cases alloc with
    | exceeded r turned busy => exact .exceeded r turned busy
    | failed i status r unwritten => exact .unwritten i status r found unwritten
    | taken i r taken spares disk =>
      simp only
      cases read : r.disk.readPage file pageNo (fault .pageRead) with
      | error failure =>
        have cause := Disk.readPage_error read
        rw [disk] at cause
        exact .unread i _ r _ _ found taken spares disk cause
      | ok page =>
        have contents : page = (m.disk file).page pageNo := by
          rw [Disk.readPage_ok read, disk, inv.flushed_page found]
        rcases taken.enter inv disk file pageNo page _ with ⟨present, _⟩ | ⟨_, t, run, entered⟩
        · exact absurd (taken.lookup_none found) present
        · simp only
          rw [run]
          have inside := Disk.readPage_inside read
          rw [disk] at inside
          exact .loaded i t found (contents ▸ entered) spares (fun _ => taken.eq_of_victim)
            (Disk.readPage_sound read) inside

/-- The frame that was taken over is the only one the page may have been in. -/
theorem Taken.lookup_eq_none_iff (taken : Taken m i r) (inv : Mapped m) :
    r.lookup k = none ↔ ∀ j, m.lookup k = some j → m.victim = some j := by
  rw [taken.lookup]
  split
  next held =>
    refine iff_of_true rfl fun j found => ?_
    cases ((inv.entry k i).mpr held).symm.trans found
    exact taken.victim_of_valid (BufDesc.key_eq_some.mp held).1
  next apart =>
    refine ⟨fun missing j found => by simp [missing] at found, fun replaced => ?_⟩
    by_contra present
    obtain ⟨j, found⟩ := Option.ne_none_iff_exists'.mp present
    cases taken.eq_of_victim (replaced j found)
    exact apart ((inv.entry k i).mp found)

inductive AllocPage (m : BufMgr bufs P) (file : FilePtr) (fault : Faults P) :
    Except Status (Int × Fin bufs) × BufMgr bufs P → Prop
  | refused (status : Status) (disk : Disk P)
      (refused : m.disk.allocatePage file fault = (.error status, disk)) :
      AllocPage m file fault (.error status, m.onDisk disk)
  | exceeded (pageNo : Int) (disk : Disk P) (r : BufMgr bufs P)
      (granted : m.disk.allocatePage file fault = (.ok pageNo, disk))
      (turned : Rotated (m.onDisk disk) r)
      (busy : ∀ i, ¬ m.Idle i) :
      AllocPage m file fault (.error .bufferExceeded, r)
  | unwritten (pageNo : Int) (disk : Disk P) (i : Fin bufs) (status : Status) (r : BufMgr bufs P)
      (granted : m.disk.allocatePage file fault = (.ok pageNo, disk))
      (unwritten : Unwritten (m.onDisk disk) fault i r) :
      AllocPage m file fault (.error status, r)
  | present (pageNo : Int) (disk : Disk P) (i : Fin bufs) (r : BufMgr bufs P)
      (granted : m.disk.allocatePage file fault = (.ok pageNo, disk))
      (taken : Taken (m.onDisk disk) i r)
      (present : r.lookup (file, pageNo) ≠ none) (spares : m.Spares fault i)
      (written : r.disk = (m.onDisk disk).flushed i) :
      AllocPage m file fault (.error .hashTblError, r.setDesc i (.set file pageNo))
  | done (pageNo : Int) (disk : Disk P) (i : Fin bufs) (r : BufMgr bufs P)
      (granted : m.disk.allocatePage file fault = (.ok pageNo, disk))
      (entered : Entered (m.onDisk disk) i (file, pageNo) (m.bufPool i) r) (idle : m.Idle i)
      (spares : m.Spares fault i) (victim : ∀ j, m.victim = some j → j = i)
      (fresh : ∀ j, m.lookup (file, pageNo) = some j → m.victim = some j) :
      AllocPage m file fault (.ok (pageNo, i), r)

theorem allocPage_spec (inv : Mapped m) (file : FilePtr) (fault : Faults P) :
    AllocPage m file fault (m.allocPage file fault) := by
  unfold allocPage
  split
  next status disk refused => exact .refused status disk refused
  next pageNo disk granted =>
    have alloc := allocBuf_spec (m.onDisk disk) fault
    rw [show { m with disk := disk } = m.onDisk disk from rfl]
    generalize (m.onDisk disk).allocBuf fault = result at alloc
    cases alloc with
    | exceeded r turned busy => exact .exceeded pageNo disk r granted turned busy
    | failed i status r unwritten => exact .unwritten pageNo disk i status r granted unwritten
    | taken i r taken spares flushed =>
      have victim := victim_onDisk m disk
      have fresh := taken.lookup_eq_none_iff (inv.onDisk disk) (k := (file, pageNo))
      have same : r.setPool i (m.bufPool i) = r := by
        have unchanged : m.bufPool = r.bufPool := taken.pool.symm
        simp [setPool, unchanged]
      rcases taken.enter (inv.onDisk disk) flushed file pageNo (m.bufPool i) r.bufStats with
        ⟨present, run⟩ | ⟨missing, t, run, entered⟩
      · simp only at run ⊢
        rw [same] at run
        rw [run]
        exact .present pageNo disk i r granted taken present spares flushed
      · simp only at run ⊢
        rw [same] at run
        rw [run]
        rw [victim] at fresh
        exact .done pageNo disk i t granted entered taken.idle spares
          (fun j found => taken.eq_of_victim (victim.trans found)) (fresh.mp missing)

/-! The only pages written are those of frames. -/

theorem readPage_page (inv : Mapped m) (file : FilePtr) (pageNo : Int) (fault : Faults P)
    (apart : ∀ i, ¬ m.Rewrites i k) :
    ((m.readPage file pageNo fault).2.disk k.1).page k.2 = (m.disk k.1).page k.2 := by
  have spec := readPage_spec inv file pageNo fault
  generalize m.readPage file pageNo fault = result at spec
  cases spec with
  | hit => rfl
  | exceeded r turned => rw [turned.disk]
  | unwritten i status r missing unwritten => exact unwritten.disk k (apart i)
  | unread i status r stats junk missing taken spares disk =>
    change (r.disk k.1).page k.2 = _
    rw [disk]
    exact spares.flushed_page (apart i)
  | loaded i r missing entered spares =>
    rw [entered.disk]
    exact spares.flushed_page (apart i)

theorem allocPage_page (inv : Mapped m) (file : FilePtr) (fault : Faults P)
    (apart : ∀ i, ¬ m.Rewrites i k) :
    ((m.allocPage file fault).2.disk k.1).page k.2 = ((m.disk.allocatePage file fault).2 k.1).page
      k.2 := by
  have spec := allocPage_spec inv file fault
  have flushed (disk : Disk P) (i : Fin bufs) (spares : (m.onDisk disk).Spares fault i) :=
    spares.flushed_page (apart i)
  generalize m.allocPage file fault = result at spec
  cases spec with
  | refused status disk refused =>
    rw [refused]
    rfl
  | exceeded pageNo disk r granted turned => rw [granted, turned.disk]; rfl
  | unwritten pageNo disk i status r granted unwritten =>
    rw [granted]
    exact unwritten.disk k (apart i)
  | present pageNo disk i r granted taken present spares written =>
    change (r.disk k.1).page k.2 = _
    rw [granted, written]
    exact flushed disk i spares
  | done pageNo disk i r granted entered idle spares =>
    rw [granted, entered.disk]
    exact flushed disk i spares

/-- `r` describes no page that `m` does not describe in the same frame, with
the same contents. -/
def Keeps (m r : BufMgr bufs P) : Prop :=
  ∀ j k, (r.bufTable j).key = some k → (m.bufTable j).key = some k ∧ r.bufPool j = m.bufPool j

theorem Keeps.trans {s : BufMgr bufs P} (first : Keeps m r) (second : Keeps r s) : Keeps m s := by
  intro j k held
  obtain ⟨held, same⟩ := second j k held
  exact ⟨(first j k held).1, same.trans (first j k held).2⟩

theorem keeps_of_update (table : r.bufTable = Function.update m.bufTable i d)
    (pool : r.bufPool = m.bufPool) (sub : ∀ k, d.key = some k → (m.bufTable i).key = some k) :
    Keeps m r := by
  intro j k held
  rw [table] at held
  rw [pool]
  by_cases here : j = i
  · subst here
    rw [Function.update_self] at held
    exact ⟨sub k held, rfl⟩
  · rw [Function.update_of_ne here] at held
    exact ⟨held, rfl⟩

theorem unPinPage_mapped (inv : Mapped m) (file : FilePtr) (pageNo : Int) (dirty : Bool) :
    Mapped (m.unPinPage file pageNo dirty).2 ∧ Keeps m (m.unPinPage file pageNo dirty).2 := by
  unfold unPinPage
  cases found : m.hashTable.lookup (file, pageNo) with
  | none => exact ⟨inv, fun _ _ held => ⟨held, rfl⟩⟩
  | some frame =>
    have held := (inv.entry _ _).mp found
    have valid := (BufDesc.key_eq_some.mp held).1
    simp only
    split
    · exact ⟨inv.setDesc rfl (fun invalid => by simp_all), keeps_of_update rfl rfl (fun _ h => h)⟩
    · exact ⟨inv.setDesc rfl (fun invalid => by simp_all), keeps_of_update rfl rfl (fun _ h => h)⟩

theorem flushFrame_mapped (inv : Mapped m) (file : FilePtr) (fault : Faults P) (i : Fin bufs) :
    Mapped (m.flushFrame file fault i).2 ∧ Keeps m (m.flushFrame file fault i).2 := by
  have flush := m.flushFrame_cases file fault i
  have same : Keeps m m := fun _ _ held => ⟨held, rfl⟩
  generalize m.flushFrame file fault i = result at flush
  cases flush with
  | skipped => exact ⟨inv, same⟩
  | invalid => exact ⟨inv, same⟩
  | pinned => exact ⟨inv, same⟩
  | unwritten status disk => exact ⟨inv.onDisk disk, same⟩
  | dropped mine =>
    exact ⟨(inv.onDisk _).drop (BufDesc.key_of_valid mine.1) rfl rfl,
      keeps_of_update rfl rfl fun _ h => by simp [BufDesc.key] at h⟩

theorem flushFrames_mapped (inv : Mapped m) (file : FilePtr) (fault : Faults P)
    (frames : List (Fin bufs)) :
    Mapped (flushFrames file fault frames m).2 ∧ Keeps m (flushFrames file fault frames m).2 := by
  induction frames generalizing m with
  | nil => exact ⟨inv, fun _ _ held => ⟨held, rfl⟩⟩
  | cons i rest ih =>
    have step := flushFrame_mapped inv file fault i
    unfold flushFrames
    split
    next r run =>
      rw [run] at step
      exact ⟨(ih step.1).1, step.2.trans (ih step.1).2⟩
    next status r _ run =>
      rw [run] at step
      exact step

theorem disposePage_mapped (inv : Mapped m) (file : FilePtr) (pageNo : Int) (fault : Faults P) :
    Mapped (m.disposePage file pageNo fault).2 ∧ Keeps m (m.disposePage file pageNo fault).2 := by
  unfold disposePage
  simp only
  cases found : m.hashTable.lookup (file, pageNo) with
  | none =>
    have unchanged : Mapped (m.removeEntry file pageNo) := by
      refine ⟨fun k j => ?_, inv.clean⟩
      rw [lookup_removeEntry]
      split
      next same =>
        have := inv.absent found j
        simp_all [removeEntry]
      next => exact inv.entry k j
    exact ⟨⟨unchanged.entry, unchanged.clean⟩, fun _ _ held => ⟨held, rfl⟩⟩
  | some i =>
    have dropped : Mapped ((m.removeEntry file pageNo).setDesc i (m.bufTable i).clear) :=
      inv.drop ((inv.entry _ _).mp found) rfl rfl
    exact ⟨⟨dropped.entry, dropped.clean⟩, keeps_of_update rfl rfl (fun _ h => by simp at h)⟩

theorem Rotated.keeps (turned : Rotated m r) : Keeps m r := fun i _ held =>
  ⟨(turned.key i).symm.trans held, congrFun turned.pool i⟩

theorem Taken.keeps (taken : Taken m i r) : Keeps m r := by
  intro j k held
  rw [taken.table j] at held
  exact ⟨held, congrFun taken.pool j⟩

/-- The frames of a pool into which one page was entered hold what they should
if the new one does. -/
theorem Entered.holds {page : P} (entered : Entered m i k page r)
    {data : FilePtr × Int → P}
    (holds : ∀ j l, (m.bufTable j).key = some l → j ≠ i → m.bufPool j = data l)
    (new : page = data k) :
    ∀ j l, (r.bufTable j).key = some l → r.bufPool j = data l := by
  intro j l held
  by_cases here : j = i
  · subst here
    rw [entered.self, BufDesc.key_set] at held
    rw [entered.page, new, ← Option.some.inj held]
  · rw [entered.others j here] at held
    rw [entered.pool j here]
    exact holds j l held here

end Minirel.BufMgr
