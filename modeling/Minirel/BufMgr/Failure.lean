import Minirel.BufMgr.Calls

/-! What a page allocation or disposal that fails has changed: the file is
updated before the pool in the one, and the pool before the file in the other. -/
namespace Minirel.BufMgr
variable {bufs : Nat} {P : Type} [PageImage P] {m r : BufMgr bufs P} {fault : Faults P}
  {i : Fin bufs} {k : FilePtr × Int} {file : FilePtr} {pageNo : Int}

/-- Table and frames correspond, pin counts are not negative, and what is dirty
has a page number the file accepts. -/
structure Usable (m : BufMgr bufs P) : Prop extends Mapped m where
  pins : ∀ i, 0 ≤ (m.bufTable i).pinCnt
  low : ∀ i, (m.bufTable i).dirty = true → 1 ≤ (m.bufTable i).pageNo

structure Orderly (m : BufMgr bufs P) : Prop extends Mapped m where
  pins : ∀ i, 0 ≤ (m.bufTable i).pinCnt
  inside : ∀ i k, (m.bufTable i).key = some k → 1 ≤ k.2 ∧ k.2 < (m.disk k.1).size

theorem Orderly.usable (orderly : Orderly m) : Usable m :=
  ⟨orderly.toMapped, orderly.pins, fun i dirty =>
    (orderly.inside i _ (BufDesc.key_of_valid (orderly.valid_of_dirty dirty))).1⟩

theorem Usable.busy_of_not_idle (usable : Usable m) (busy : ¬ m.Idle i) : m.Busy i :=
  (busy_iff (usable.pins i)).mpr busy

theorem Idle.not_busy (idle : m.Idle i) : ¬ m.Busy i := by
  rintro ⟨valid, positive⟩
  have := idle.resolve_left (by simp [valid])
  omega

/-! Allocation. -/

def AllocKeeps (m : BufMgr bufs P) (file : FilePtr) (fault : Faults P) : Prop :=
  ∀ status, (m.allocPage file fault).1 = .error status →
    (m.disk file).Intact ((m.allocPage file fault).2.disk file)

/-- A frame for page `k` is to be had: one is not in use, the page that the clock
replaces can be written back, and `k` is in no frame but that one. -/
def Ready (m : BufMgr bufs P) (fault : Faults P) (k : FilePtr × Int) : Prop :=
  (∃ i, ¬ m.Busy i) ∧ (∀ i, m.victim = some i → (m.bufTable i).dirty = true →
    fault .victimWrite = none) ∧ ∀ j, m.lookup k = some j → m.victim = some j

/-- The file refuses, or the header is written so badly that it still says the
same, or a frame can be had for the new page. -/
def AllocSafe (m : BufMgr bufs P) (file : FilePtr) (fault : Faults P) : Prop :=
  (m.disk file).Refuses fault ∨
    match fault .headerWrite with
    | some torn => (dbp torn).numPages = (dbp ((m.disk file).page 0)).numPages ∧
        (dbp torn).nextFree = (dbp ((m.disk file).page 0)).nextFree
    | none => m.Ready fault (file, (m.disk file).nextPage)

/-- The header is not in a frame. -/
theorem allocPage_header (inv : Mapped m) (file : FilePtr) (fault : Faults P) :
    ((m.allocPage file fault).2.disk file).page 0 = ((m.disk.allocatePage file fault).2 file).page
      0 := by
  refine allocPage_page inv file fault (k := (file, 0)) fun i rewrites => ?_
  have low := rewrites.2.1
  have zero := congrArg Prod.snd rewrites.2.2
  simp only at zero
  omega

/-- Once the file has granted a page, a frame for it decides. -/
theorem allocPage_ok_iff (usable : Usable m) {disk : Disk P}
    (granted : m.disk.allocatePage file fault = (.ok pageNo, disk)) :
    (∃ page, (m.allocPage file fault).1 = .ok page) ↔ m.Ready fault (file, pageNo) := by
  have spec := allocPage_spec usable.toMapped file fault
  generalize m.allocPage file fault = result at spec
  cases spec with
  | refused status disk refused =>
    rw [granted] at refused
    cases refused
  | exceeded other disk r again turned busy =>
    refine iff_of_false (by simp) fun ready => ?_
    obtain ⟨i, idle⟩ := ready.1
    exact idle (usable.busy_of_not_idle (busy i))
  | unwritten other disk i status r again unwritten =>
    refine iff_of_false (by simp) fun ready => unwritten.unspared fun dirty => ⟨usable.low i dirty, ?_⟩
    have victim := unwritten.victim_of_valid (usable.valid_of_dirty dirty)
    rw [victim_onDisk] at victim
    exact ready.2.1 i victim dirty
  | present other disk i r again taken present =>
    cases granted.symm.trans again
    refine iff_of_false (by simp) fun ready => present ?_
    rw [taken.lookup_eq_none_iff (usable.toMapped.onDisk disk), victim_onDisk]
    exact ready.2.2
  | done other disk i r again entered idle spares victim fresh =>
    cases granted.symm.trans again
    refine iff_of_true ⟨_, rfl⟩ ⟨⟨i, idle.not_busy⟩, fun j replaced dirty => ?_, fresh⟩
    cases victim j replaced
    exact (spares dirty).2

theorem allocPage_refused {status : Status} {disk : Disk P}
    (refused : m.disk.allocatePage file fault = (.error status, disk)) :
    m.allocPage file fault = (.error status, m.onDisk disk) := by
  unfold allocPage
  rw [refused]
  rfl

/-- The file is updated first, so that a frame has to be had in the end. -/
theorem allocPage_keeps_iff (usable : Usable m) {free : List Int} (sound : (m.disk file).Sound free)
    (fault : Faults P) : m.AllocKeeps file fault ↔ m.AllocSafe file fault := by
  have attempt := Disk.allocatePage_attempt sound fault
  unfold AllocKeeps AllocSafe
  cases run : m.disk.allocatePage file fault with | mk reply disk
  rw [run] at attempt
  cases attempt with
  | refused status _ refuses intact =>
    rw [allocPage_refused run]
    exact iff_of_true (fun _ _ => intact) (.inl refuses)
  | torn status _ torn accepts fails header pages =>
    rw [allocPage_refused run, fails]
    simp only [accepts, false_or]
    constructor
    · intro keeps
      have intact := keeps status rfl
      rw [← header]
      exact ⟨intact.numPages, intact.nextFree sound⟩
    · intro same _ _
      rw [← header] at same
      exact sound.intact pages same.1 same.2
  | granted _ accepts written changed =>
    have header := allocPage_header usable.toMapped file fault
    have ready := allocPage_ok_iff usable run
    rw [run] at header
    rw [written]
    simp only [accepts, false_or, ← ready]
    generalize m.allocPage file fault = result at header
    obtain ⟨status | page, r⟩ := result
    · refine iff_of_false (fun keeps => ?_) (by simp)
      have intact := keeps status rfl
      rcases changed with changed | changed
      · exact changed (by rw [← intact.numPages, header])
      · exact changed (by rw [← intact.nextFree sound, header])
    · exact iff_of_true (by simp) ⟨page, rfl⟩

/-! Disposal. -/

def latest (m : BufMgr bufs P) (k : FilePtr × Int) : P :=
  match m.lookup k with
  | some i => m.bufPool i
  | none => (m.disk k.1).page k.2

def pinsOn (m : BufMgr bufs P) (k : FilePtr × Int) : Int :=
  match m.lookup k with
  | some i => (m.bufTable i).pinCnt
  | none => 0

/-- After a disposal that fails the page can be read as before, and its pins are
the same. -/
def DisposeKeeps (m : BufMgr bufs P) (file : FilePtr) (pageNo : Int) (fault : Faults P) : Prop :=
  (m.disposePage file pageNo fault).1 ≠ .ok →
    (∀ i r, m.readPage file pageNo noFaults = (.ok i, r) → ∃ j s,
      (m.disposePage file pageNo fault).2.readPage file pageNo noFaults = (.ok j, s) ∧
        s.bufPool j = r.bufPool i) ∧
    (m.disposePage file pageNo fault).2.pinsOn (file, pageNo) = m.pinsOn (file, pageNo)

/-- If the disposal fails, nobody has the page pinned, and what is left of it on
disk are its contents, unless it could not be read in the first place. -/
def DisposeSafe (m : BufMgr bufs P) (file : FilePtr) (pageNo : Int) (fault : Faults P) : Prop :=
  ∀ left, (m.disk file).leftover pageNo fault = some left → m.pinsOn (file, pageNo) = 0 ∧
    (m.lookup (file, pageNo) ≠ none ∨ (∃ i, ¬ m.Busy i) → left = m.latest (file, pageNo))

theorem readPage_latest (inv : Mapped m) (run : m.readPage file pageNo fault = (.ok i, r)) :
    r.bufPool i = m.latest (file, pageNo) := by
  have spec := readPage_spec inv file pageNo fault
  rw [run] at spec
  unfold latest
  cases spec with
  | hit i found =>
    rw [found]
    rfl
  | loaded i r missing entered =>
    rw [missing]
    exact entered.page

theorem flushed_size (m : BufMgr bufs P) (i : Fin bufs) (file : FilePtr) :
    (m.disk file).size ≤ (m.flushed i file).size := by
  unfold flushed
  split
  · unfold Disk.write
    by_cases same : file = (m.bufTable i).file
    · subst same
      rw [Function.update_self]
      exact Int.le_max_left ..
    · exact Int.le_of_eq (congrArg UnixFile.size (Function.update_of_ne same ..).symm)
  · exact Int.le_refl _

/-- Pages of the pool are written back within their files. -/
theorem Orderly.flushed_size_eq (orderly : Orderly m) (i : Fin bufs) (file : FilePtr) :
    (m.flushed i file).size = (m.disk file).size := by
  unfold flushed
  split
  next dirty =>
    have inside := (orderly.inside i _ (BufDesc.key_of_valid (orderly.valid_of_dirty dirty))).2
    by_cases same : file = (m.bufTable i).file
    · rw [same]
      exact Disk.write_size _ inside
    · unfold Disk.write
      rw [Function.update_of_ne same]
  next => rfl

/-- A page in the pool, or one of the file when a frame is to be had, is read. -/
theorem Usable.readPage_ok (usable : Usable m)
    (readable : m.lookup (file, pageNo) ≠ none ∨ (∃ i, ¬ m.Busy i) ∧ 1 ≤ pageNo ∧
      pageNo < (m.disk file).size) :
    ∃ i r, m.readPage file pageNo noFaults = (.ok i, r) := by
  cases found : m.lookup (file, pageNo) with
  | some i =>
    unfold readPage
    rw [show m.hashTable.lookup (file, pageNo) = some i from found]
    exact ⟨_, _, rfl⟩
  | none =>
    obtain ⟨⟨j, idle⟩, low, high⟩ := readable.resolve_left (not_not.mpr found)
    have spec := readPage_spec usable.toMapped file pageNo noFaults
    generalize m.readPage file pageNo noFaults = result at spec
    cases spec with
    | hit i => exact ⟨i, _, rfl⟩
    | loaded i r => exact ⟨i, r, rfl⟩
    | exceeded r turned busy => exact absurd (usable.busy_of_not_idle (busy j)) idle
    | unwritten i status r missing unwritten =>
      exact absurd (fun dirty => ⟨usable.low i dirty, rfl⟩) unwritten.unspared
    | unread i status r stats junk missing taken spares disk cause =>
      have size := m.flushed_size i file
      exact absurd ⟨low, by omega⟩ (cause.resolve_left fun fault => fault rfl)

/-- A page that is read from disk was one of the file, and there was a frame. -/
theorem Orderly.readPage_inside (orderly : Orderly m) (missing : m.lookup (file, pageNo) = none)
    (run : m.readPage file pageNo fault = (.ok i, r)) :
    (∃ j, ¬ m.Busy j) ∧ 1 ≤ pageNo ∧ pageNo < (m.disk file).size := by
  have spec := readPage_spec orderly.toMapped file pageNo fault
  rw [run] at spec
  cases spec with
  | hit i found => simp [missing] at found
  | loaded i r missing entered spares victim sound inside =>
    rw [orderly.flushed_size_eq i] at inside
    refine ⟨⟨i, fun busy => ?_⟩, inside⟩
    have := entered.unpinned busy.1
    have := busy.2
    omega

section disposed
variable (m file pageNo fault)

theorem disposePage_status :
    (m.disposePage file pageNo fault).1 = (m.disk.disposePage file pageNo fault).1 := by
  unfold disposePage
  cases m.hashTable.lookup (file, pageNo) <;> rfl

theorem disposePage_disk :
    (m.disposePage file pageNo fault).2.disk = (m.disk.disposePage file pageNo fault).2 := by
  unfold disposePage
  cases m.hashTable.lookup (file, pageNo) <;> rfl

theorem disposePage_lookup : (m.disposePage file pageNo fault).2.lookup (file, pageNo) = none := by
  unfold disposePage
  cases m.hashTable.lookup (file, pageNo) with
  | none => exact (lookup_removeEntry m file pageNo _).trans (if_pos rfl)
  | some i => exact (lookup_removeEntry _ file pageNo _).trans (if_pos rfl)

theorem disposePage_bufTable (i : Fin bufs) : (m.disposePage file pageNo fault).2.bufTable i =
    if m.lookup (file, pageNo) = some i then (m.bufTable i).clear else m.bufTable i := by
  unfold disposePage lookup
  cases m.hashTable.lookup (file, pageNo) with
  | none => rfl
  | some j =>
    by_cases here : i = j
    · subst here
      rw [if_pos rfl]
      exact setDesc_self ..
    · rw [if_neg (by simp [Ne.symm here])]
      exact setDesc_of_ne _ _ here

end disposed

theorem Usable.disposePage (usable : Usable m) (file : FilePtr) (pageNo : Int) (fault : Faults P) :
    Usable (m.disposePage file pageNo fault).2 := by
  refine ⟨(disposePage_mapped usable.toMapped file pageNo fault).1, fun i => ?_, fun i dirty => ?_⟩
  · rw [disposePage_bufTable]
    split
    · exact Int.le_refl 0
    · exact usable.pins i
  · rw [disposePage_bufTable] at dirty ⊢
    split at dirty
    · cases dirty
    next apart =>
      rw [if_neg apart]
      exact usable.low i dirty

/-- When the page could be read before, it can be after the call: its frame, if
it had one, is free now. -/
theorem Orderly.disposePage_readable (orderly : Orderly m) (fault : Faults P)
    (size : ((m.disk.disposePage file pageNo fault).2 file).size = (m.disk file).size)
    (run : m.readPage file pageNo noFaults = (.ok i, r)) :
    ∃ j s, (m.disposePage file pageNo fault).2.readPage file pageNo noFaults = (.ok j, s) := by
  refine (orderly.usable.disposePage file pageNo fault).readPage_ok (.inr ?_)
  rw [disposePage_disk, size]
  cases found : m.lookup (file, pageNo) with
  | some j =>
    refine ⟨⟨j, fun busy => ?_⟩, orderly.inside j _ ((orderly.entry _ _).mp found)⟩
    have valid := busy.1
    rw [disposePage_bufTable, if_pos found] at valid
    cases valid
  | none =>
    obtain ⟨⟨j, idle⟩, inside⟩ := orderly.readPage_inside found run
    refine ⟨⟨j, ?_⟩, inside⟩
    rwa [Busy, disposePage_bufTable, found, if_neg (by simp)]

/-- The page leaves the pool first, with what was written to it. -/
theorem disposePage_keeps_iff (orderly : Orderly m) {free : List Int}
    (sound : (m.disk file).Sound free) (pageNo : Int) (fault : Faults P) :
    m.DisposeKeeps file pageNo fault ↔ m.DisposeSafe file pageNo fault := by
  have mapped := (disposePage_mapped orderly.toMapped file pageNo fault).1
  have lookup := m.disposePage_lookup fault file pageNo
  have pins : (m.disposePage file pageNo fault).2.pinsOn (file, pageNo) = 0 := by
    unfold pinsOn
    rw [lookup]
  have contents : (m.disposePage file pageNo fault).2.latest (file, pageNo) =
      ((m.disk.disposePage file pageNo fault).2 file).page pageNo := by
    unfold latest
    rw [lookup, disposePage_disk]
  rcases Disk.disposePage_leftover sound pageNo fault with ⟨done, ok⟩ | ⟨failed, size, left⟩
  · refine iff_of_true (fun failed => absurd ((m.disposePage_status ..).trans ok) failed)
      fun left some => ?_
    rw [done] at some
    cases some
  rw [← m.disposePage_status] at failed
  unfold DisposeKeeps DisposeSafe
  rw [pins, left]
  constructor
  · intro keeps left' same
    obtain ⟨reads, unpinned⟩ := keeps failed
    cases same
    refine ⟨unpinned.symm, fun readable => ?_⟩
    by_cases inside : 1 ≤ pageNo ∧ pageNo < (m.disk file).size
    · obtain ⟨i, r, run⟩ := orderly.usable.readPage_ok (readable.imp_right fun idle => ⟨idle, inside⟩)
      obtain ⟨j, s, run', same⟩ := reads i r run
      rw [← contents, ← readPage_latest mapped run', same, readPage_latest orderly.toMapped run]
    · -- a page that is not one of the file is neither in the pool nor touched on disk
      have missing : m.lookup (file, pageNo) = none := by
        by_contra present
        obtain ⟨j, found⟩ := Option.ne_none_iff_exists'.mp present
        exact inside (orderly.inside j _ ((orderly.entry _ _).mp found))
      have untouched : (m.disk file).leftover pageNo fault = some ((m.disk file).page pageNo) :=
        if_pos (by
        rw [sound.count]
        omega)
      rw [latest, missing]
      exact Option.some.inj (left.symm.trans untouched)
  · intro safe _
    obtain ⟨unpinned, same⟩ := safe _ rfl
    refine ⟨fun i r run => ?_, unpinned.symm⟩
    obtain ⟨j, s, run'⟩ := orderly.disposePage_readable fault size run
    refine ⟨j, s, run', ?_⟩
    rw [readPage_latest mapped run', contents, readPage_latest orderly.toMapped run]
    apply same
    by_contra unreadable
    obtain ⟨missing, busy⟩ := not_or.mp unreadable
    exact busy (orderly.readPage_inside (not_not.mp missing) run).1

/-- Exactly when a failed allocation leaves the file, and a failed disposal the
page, as it was. -/
theorem failed_calls_keep_iff (orderly : Orderly m) (file : FilePtr) {free : List Int}
    (sound : (m.disk file).Sound free) (pageNo : Int) (fault : Faults P) :
    (m.AllocKeeps file fault ↔ m.AllocSafe file fault) ∧
    (m.DisposeKeeps file pageNo fault ↔ m.DisposeSafe file pageNo fault) :=
  ⟨allocPage_keeps_iff orderly.usable sound fault, disposePage_keeps_iff orderly sound pageNo fault⟩

theorem readPage_mapped (inv : Mapped m) (run : m.readPage file pageNo fault = (.ok i, r)) :
    Mapped r := by
  have spec := readPage_spec inv file pageNo fault
  rw [run] at spec
  cases spec with
  | hit _ found =>
    have valid := (BufDesc.key_eq_some.mp ((inv.entry _ _).mp found)).1
    exact inv.setDesc rfl fun invalid => by simp_all
  | loaded _ _ _ entered => exact entered.mapped

def occupied : BufMgr 1 DBPage := ((new 1 Disk.twoPages).readPage 7 1 noFaults).2

theorem occupied_mapped : Mapped occupied :=
  readPage_mapped (i := 0) (new_mapped Disk.twoPages) (Prod.ext (by decide +kernel) rfl)

/-- The page is released as it was read. -/
def idle : BufMgr 1 DBPage := (occupied.unPinPage 7 1 false).2

theorem idle_orderly : Orderly idle := by
  refine ⟨(unPinPage_mapped occupied_mapped 7 1 false).1, by decide +kernel, fun i k held => ?_⟩
  have page : ∀ i, (idle.bufTable i).key = some (7, 1) := by decide +kernel
  obtain rfl : (7, 1) = k := Option.some.inj ((page i).symm.trans held)
  decide +kernel

/-- The header page of a file cannot be read. -/
def unreadable : Faults DBPage := fun transfer => if transfer = .headerRead then some ⟨0, 0, 0⟩
    else none

/-- Both calls fail on a file whose header cannot be read. The file is as before,
and so is the page that nobody has pinned. -/
theorem failed_calls_keep_unreadable :
    (idle.allocPage 7 unreadable).1 = .error .unixErr ∧ idle.AllocKeeps 7 unreadable ∧
    (idle.disposePage 7 1 unreadable).1 = .unixErr ∧ idle.DisposeKeeps 7 1 unreadable := by
  obtain ⟨alloc, dispose⟩ := failed_calls_keep_iff idle_orderly 7 (Disk.twoPages_sound 7) 1 unreadable
  refine ⟨by decide +kernel, alloc.mpr (.inl (.inl ?_)), by decide +kernel, dispose.mpr
    fun left same => ?_⟩
  · exact Option.some_ne_none _
  · obtain rfl := Option.some.inj same
    exact ⟨by decide +kernel, fun _ => by decide +kernel⟩

def changed : BufMgr 1 DBPage := ((occupied.setPool 0 ⟨1, 1, 1⟩).unPinPage 7 1 true).2

/-- Without a frame for it the new page is lost to the file, and a page the file
does not give up is lost from the pool together with its changes. -/
theorem failed_calls_lose :
    (occupied.allocPage 7 noFaults).1 = .error .bufferExceeded ∧
    (dbp ((occupied.disk 7).page 0)).numPages = 3 ∧
    (dbp (((occupied.allocPage 7 noFaults).2.disk 7).page 0)).numPages = 4 ∧
    (changed.readPage 7 1 noFaults).2.bufPool 0 = ⟨1, 1, 1⟩ ∧
    (changed.disposePage 7 1 noFaults).1 = .badPageNo ∧
    ((changed.disposePage 7 1 noFaults).2.readPage 7 1 noFaults).2.bufPool 0 = ⟨0, 0, 0⟩ ∧
    ¬ occupied.AllocKeeps 7 noFaults ∧ ¬ changed.DisposeKeeps 7 1 noFaults := by
  have exceeded : (occupied.allocPage 7 noFaults).1 = .error .bufferExceeded := by decide +kernel
  have refused : (changed.disposePage 7 1 noFaults).1 = .badPageNo := by decide +kernel
  have before : (changed.readPage 7 1 noFaults).2.bufPool 0 = ⟨1, 1, 1⟩ := by decide +kernel
  have after : ((changed.disposePage 7 1 noFaults).2.readPage 7 1 noFaults).2.bufPool 0 =
      ⟨0, 0, 0⟩ := by
    decide +kernel
  refine ⟨exceeded, by decide +kernel, by decide +kernel, before, refused, after, fun keeps => ?_,
    fun keeps => ?_⟩
  · exact absurd (keeps _ exceeded).numPages (by decide +kernel)
  · obtain ⟨reads, _⟩ := keeps (by simp [refused])
    obtain ⟨j, s, run, same⟩ :=
      reads 0 (changed.readPage 7 1 noFaults).2 (Prod.ext (by decide +kernel) rfl)
    rw [run] at after
    rw [Subsingleton.elim j 0] at same
    cases after.symm.trans (same.trans before)

end Minirel.BufMgr
