import Minirel.BufMgr.Mapping
import Minirel.BufMgr.Failure

/-! `flushFile` over runs of the buffer manager: it gives up exactly the frames
of one file, with their contents on disk. -/
namespace Minirel

namespace BufMgr
open Transition
variable {bufs : Nat} {P : Type} [PageImage P] {m r : BufMgr bufs P} {fault : Faults P}
  {i : Fin bufs} {k : FilePtr × Int} {file : FilePtr} {pageNo : Int}

structure Settled (m : BufMgr bufs P) : Prop where
  null : ∀ i, (m.bufTable i).valid = false → (m.bufTable i).file = 0
  same : ∀ i k, (m.bufTable i).key = some k → (m.bufTable i).dirty = false → (m.bufTable i).pinCnt ≤ 0 →
    m.bufPool i = (m.disk k.1).page k.2

/-- What can become of a frame in one call. -/
inductive Fate (m r : BufMgr bufs P) (i : Fin bufs) : Prop
  | pinned (valid : (r.bufTable i).valid = true) (pins : 0 < (r.bufTable i).pinCnt)
  | gone (invalid : (r.bufTable i).valid = false) (null : (r.bufTable i).file = 0)
  | kept (valid : (r.bufTable i).valid = (m.bufTable i).valid)
      (file : (r.bufTable i).file = (m.bufTable i).file)
      (pageNo : (r.bufTable i).pageNo = (m.bufTable i).pageNo)
      (flags : (r.bufTable i).dirty = false → (r.bufTable i).pinCnt ≤ 0 →
        (m.bufTable i).dirty = false ∧ (m.bufTable i).pinCnt ≤ 0)
      (pool : r.bufPool i = m.bufPool i)
      (disk : ∀ k, (m.bufTable i).key = some k → (m.bufTable i).dirty = false →
        (r.disk k.1).page k.2 = (m.disk k.1).page k.2)
  | released (valid : (r.bufTable i).valid = true)
      (same : ∀ k, (r.bufTable i).key = some k → r.bufPool i = (r.disk k.1).page k.2)

theorem Settled.of_fates (settled : Settled m) (fates : ∀ i, Fate m r i) : Settled r := by
  constructor
  · intro i invalid
    cases fates i with
    | pinned valid => simp [valid] at invalid
    | gone _ null => exact null
    | kept valid file => exact file.trans (settled.null i (valid.symm.trans invalid))
    | released valid => simp [valid] at invalid
  · intro i k held clean unpinned
    cases fates i with
    | pinned _ pins => omega
    | gone invalid =>
      rw [BufDesc.key_eq_none.mpr invalid] at held
      cases held
    | kept valid file pageNo flags pool disk =>
      obtain ⟨clean', unpinned'⟩ := flags clean unpinned
      have held' : (m.bufTable i).key = some k := by
        rwa [BufDesc.key_eq_some, valid, file, pageNo, ← BufDesc.key_eq_some] at held
      rw [pool, settled.same i k held' clean' unpinned', disk k held' clean']
    | released _ same => exact same k held

theorem Fate.of_table (table : r.bufTable i = { m.bufTable i with refbit := (r.bufTable i).refbit })
    (pool : r.bufPool i = m.bufPool i)
    (disk : ∀ k, (m.bufTable i).key = some k → (m.bufTable i).dirty = false →
      (r.disk k.1).page k.2 = (m.disk k.1).page k.2) : Fate m r i :=
  .kept (by rw [table]) (by rw [table]) (by rw [table])
    (by rw [table]; exact fun clean unpinned => ⟨clean, unpinned⟩)
    pool disk

/-- A page whose frame is clean is not written back from any other. -/
theorem Mapped.not_rewrites (inv : Mapped m) (held : (m.bufTable i).key = some k)
    (clean : (m.bufTable i).dirty = false) (j : Fin bufs) : ¬ m.Rewrites j k := by
  rintro ⟨dirty, _, rfl⟩
  cases inv.unique held (BufDesc.key_of_valid (inv.valid_of_dirty dirty))
  simp [clean] at dirty

theorem fates_setDesc {j : Fin bufs} {d : BufDesc} (self : Fate m (m.setDesc j d) j)
    (i : Fin bufs) :
    Fate m (m.setDesc j d) i := by
  by_cases here : i = j
  · subst here
    exact self
  · exact .of_table (by rw [setDesc_of_ne _ _ here]) rfl fun _ _ _ => rfl

theorem Entered.fate {j : Fin bufs} {page : P} {disk : Disk P}
    (entered : Entered (m.onDisk disk) j k page r) (i : Fin bufs)
    (same : ∀ k, (m.bufTable i).key = some k → (m.bufTable i).dirty = false →
      (r.disk k.1).page k.2 = (m.disk k.1).page k.2) : Fate m r i := by
  by_cases here : i = j
  · subst here
    exact .pinned (by rw [entered.self]; rfl) (by rw [entered.self]; exact Int.zero_lt_one)
  · exact .of_table (entered.others i here) (entered.pool i here) same

/-- A frame that is replaced in vain is not one of a page. -/
theorem readPage_fates (inv : Mapped m) (settled : Settled m)
    (safe : Tracked.Safe m fault (.readPage file pageNo)) (i : Fin bufs) :
    Fate m (m.readPage file pageNo fault).2 i := by
  have spec := readPage_spec inv file pageNo fault
  have disk : ∀ k, (m.bufTable i).key = some k → (m.bufTable i).dirty = false →
      ((m.readPage file pageNo fault).2.disk k.1).page k.2 = (m.disk k.1).page k.2 :=
        fun k held clean =>
    readPage_page inv file pageNo fault (inv.not_rewrites held clean)
  generalize m.readPage file pageNo fault = result at spec disk
  cases spec with
  | hit j found =>
    refine fates_setDesc (.kept (by simp) (by simp) (by simp) ?_ rfl fun _ _ _ => rfl) i
    simp only [setDesc_self]
    exact fun clean unpinned => ⟨clean, by omega⟩
  | exceeded r turned =>
    exact .of_table (turned.table i) (congrFun turned.pool i) fun k _ _ => by rw [turned.disk]
  | unwritten j status r missing unwritten => exact absurd unwritten (safe.readPage_written inv missing)
  | unread j status r stats junk missing taken spares written cause =>
    by_cases here : i = j
    · subst here
      have invalid := safe.readPage_invalid missing taken cause
      have table : (r.bufTable i).valid = (m.bufTable i).valid ∧
          (r.bufTable i).file = (m.bufTable i).file := by
        rw [taken.table i]
        exact ⟨rfl, rfl⟩
      exact .gone (table.1.trans invalid) (table.2.trans (settled.null i invalid))
    · exact .of_table (taken.table i) ((setPool_of_ne _ _ here).trans (congrFun taken.pool i)) disk
  | loaded j r missing entered => exact entered.fate i disk

/-- The file layer does not write pages that are in the pool, and a page that is
released for good without a mark is as it is on disk. -/
def Careful (m : BufMgr bufs P) : Call → Prop
  | .allocPage file => ∀ i pageNo, (m.bufTable i).key = some (file, pageNo) → pageNo ≠ 0 ∧
      ((dbp ((m.disk file).page 0)).nextFree = -1 → pageNo ≠ (dbp ((m.disk file).page 0)).numPages)
  | .disposePage file _ => ∀ i, (m.bufTable i).key ≠ some (file, 0)
  | .unPinPage file pageNo dirty => ∀ i, m.lookup (file, pageNo) = some i → (m.bufTable i).pinCnt = 1 →
      (m.bufTable i).dirty = true ∨ dirty = true ∨ m.bufPool i = (m.disk file).page pageNo
  | .readPage _ _ | .flushFile _ => True

theorem allocPage_untouched (inv : Mapped m) (careful : Careful m (.allocPage file))
    (fault : Faults P) (held : (m.bufTable i).key = some k) (clean : (m.bufTable i).dirty = false) :
    ((m.allocPage file fault).2.disk k.1).page k.2 = (m.disk k.1).page k.2 := by
  have below : ((m.disk.allocatePage file fault).2 k.1).page k.2 = (m.disk k.1).page k.2 := by
    apply Disk.allocatePage_untouched
    · rintro rfl
      exact (careful i 0 held).1 rfl
    · rintro unlisted rfl
      exact (careful i _ held).2 unlisted rfl
  rw [allocPage_page inv file fault (inv.not_rewrites held clean), below]

theorem allocPage_fates (inv : Mapped m) (safe : Tracked.Safe m fault (.allocPage file))
    (careful : Careful m (.allocPage file)) (i : Fin bufs) :
    Fate m (m.allocPage file fault).2 i := by
  have spec := allocPage_spec inv file fault
  have disk := fun k => allocPage_untouched (k := k) (i := i) inv careful fault
  generalize m.allocPage file fault = result at spec disk
  cases spec with
  | refused status e => exact .of_table rfl rfl disk
  | exceeded pageNo e r granted turned => exact .of_table (turned.table i) (congrFun turned.pool i) disk
  | unwritten pageNo e j status r granted unwritten =>
    exact absurd unwritten (safe.allocPage_written inv granted)
  | present pageNo e j r granted taken present =>
    exact absurd (safe.allocPage_fresh inv granted taken) present
  | done pageNo e j r granted entered => exact entered.fate i disk

theorem unPinPage_fates (inv : Mapped m) {dirty : Bool}
    (careful : Careful m (.unPinPage file pageNo dirty)) (i : Fin bufs) :
    Fate m (m.unPinPage file pageNo dirty).2 i := by
  unfold unPinPage
  cases found : m.hashTable.lookup (file, pageNo) with
  | none => exact .of_table rfl rfl fun _ _ _ => rfl
  | some j =>
    have held := (inv.entry _ _).mp found
    simp only
    split
    next unpinned =>
      refine fates_setDesc (.kept (by simp) (by simp) (by simp) ?_ rfl fun _ _ _ => rfl) i
      simp only [setDesc_self, Bool.or_eq_false_iff]
      exact fun clean low => ⟨clean.1, low⟩
    next pinned =>
      by_cases last : (m.bufTable j).pinCnt = 1
      · rcases careful j found last with marked | marked | same
        · refine fates_setDesc (.kept (by simp) (by simp) (by simp) ?_ rfl fun _ _ _ => rfl) i
          simp [marked]
        · refine fates_setDesc (.kept (by simp) (by simp) (by simp) ?_ rfl fun _ _ _ => rfl) i
          simp [marked]
        · refine fates_setDesc (.released ?_ fun k held' => ?_) i
          · rw [setDesc_self]
            exact (BufDesc.key_eq_some.mp held).1
          · rw [setDesc_self] at held'
            cases held.symm.trans held'
            exact same
      · refine fates_setDesc (.kept (by simp) (by simp) (by simp) ?_ rfl fun _ _ _ => rfl) i
        simp only [setDesc_self, Bool.or_eq_false_iff]
        exact fun clean low => ⟨clean.1, by omega⟩

theorem flushFrame_fates (inv : Mapped m) (file : FilePtr) (fault : Faults P) (j i : Fin bufs) :
    Fate m (m.flushFrame file fault j).2 i := by
  have flush := m.flushFrame_cases file fault j
  have same : Fate m m i := .of_table rfl rfl fun _ _ _ => rfl
  generalize m.flushFrame file fault j = result at flush
  cases flush with
  | skipped => exact same
  | invalid => exact same
  | pinned => exact same
  | unwritten status e mine dirty _ _ _ kept =>
    refine .of_table rfl rfl fun k held clean => kept k ?_
    rintro rfl
    cases inv.unique held mine.key
    simp [clean] at dirty
  | dropped mine ready =>
    by_cases here : i = j
    · subst here
      exact .gone (by simp [dropFrame]) (by simp [dropFrame])
    · refine .of_table (by simp [dropFrame, setDesc_of_ne _ _ here]; rfl) rfl fun k held _ => ?_
      refine flushed_page_of_ne fun dirty => ?_
      rintro rfl
      exact here (inv.unique held (BufDesc.key_of_valid mine.1))

theorem flushFrames_settled (inv : Mapped m) (settled : Settled m) (file : FilePtr)
    (fault : Faults P) (frames : List (Fin bufs)) :
    Settled (flushFrames file fault frames m).2 := by
  induction frames generalizing m with
  | nil => exact settled
  | cons i rest ih =>
    have step := settled.of_fates (flushFrame_fates inv file fault i)
    have mapped := (flushFrame_mapped inv file fault i).1
    unfold flushFrames
    split
    next r run =>
      rw [run] at step mapped
      exact ih mapped step
    next status r _ run => rwa [run] at step

theorem disposePage_fates (inv : Mapped m) (careful : Careful m (.disposePage file pageNo))
    (fault : Faults P) (i : Fin bufs) : Fate m (m.disposePage file pageNo fault).2 i := by
  have table := m.disposePage_bufTable fault file pageNo i
  by_cases found : m.lookup (file, pageNo) = some i
  · rw [if_pos found] at table
    exact .gone (by rw [table]; rfl) (by rw [table]; rfl)
  · rw [if_neg found] at table
    refine .of_table (by rw [table]) ?_ fun k held _ => ?_
    · unfold disposePage
      cases m.hashTable.lookup (file, pageNo) <;> rfl
    · rw [disposePage_disk]
      apply Disk.disposePage_untouched
      · rintro rfl
        exact careful i held
      · rintro rfl
        exact found ((inv.entry _ _).mpr held)

theorem write_settled (settled : Settled m) (pinned : 0 < (m.bufTable i).pinCnt) (page : P) :
    Settled (m.setPool i page) := by
  refine ⟨settled.null, fun j k held clean unpinned => ?_⟩
  have apart : j ≠ i := by
    rintro rfl
    exact absurd pinned (by exact Int.not_lt.mpr unpinned)
  rw [setPool_of_ne _ _ apart]
  exact settled.same j k held clean unpinned

/-! What the loop of `flushFile` does. -/

def Flushable (m : BufMgr bufs P) (file : FilePtr) (fault : Faults P) : Prop :=
  ∀ i, m.Holds file i → (m.bufTable i).dirty = true → 1 ≤ (m.bufTable i).pageNo ∧
    fault (.flushWrite i) = none

/-- Without pins the file is emptied from the pool and nothing else is; with pins
the call says so, and the pinned pages stay where they are. -/
structure FlushExact (m : BufMgr bufs P) (file : FilePtr) (fault : Faults P) : Prop where
  status : (∀ i, m.Holds file i → (m.bufTable i).pinCnt ≤ 0) → (m.flushFile file fault).1 = .ok
  frames : (∀ i, m.Holds file i → (m.bufTable i).pinCnt ≤ 0) →
    ∀ i, ((m.flushFile file fault).2.bufTable i).file ≠ file
  entries : (∀ i, m.Holds file i → (m.bufTable i).pinCnt ≤ 0) →
    ∀ pageNo, (m.flushFile file fault).2.lookup (file, pageNo) = none
  written : (∀ i, m.Holds file i → (m.bufTable i).pinCnt ≤ 0) → ∀ i, m.Holds file i →
    ((m.flushFile file fault).2.disk file).page (m.bufTable i).pageNo = m.bufPool i
  others : (∀ i, m.Holds file i → (m.bufTable i).pinCnt ≤ 0) →
    (∀ i, (m.bufTable i).file ≠ file → (m.flushFile file fault).2.bufTable i = m.bufTable i ∧
      (m.flushFile file fault).2.bufPool i = m.bufPool i) ∧
    ∀ k, k.1 ≠ file → (m.flushFile file fault).2.lookup k = m.lookup k
  refused : (∃ i, m.Holds file i ∧ 0 < (m.bufTable i).pinCnt) → (m.flushFile file fault).1 = .pagePinned
  pinned : ∀ i, m.Holds file i → 0 < (m.bufTable i).pinCnt → (m.flushFile file fault).2.Holds file i ∧
    (m.flushFile file fault).2.lookup (file, (m.bufTable i).pageNo) = some i

theorem Settled.flushExact (settled : Settled m) (inv : Mapped m) (real : file ≠ 0)
    (flushable : m.Flushable file fault) : m.FlushExact file fault := by
  have distinct := List.nodup_finRange bufs
  have mapped := (flushFrames_mapped inv file fault (List.finRange bufs)).1
  have valid {i : Fin bufs} (names : (m.bufTable i).file = file) : (m.bufTable i).valid = true := by
    by_contra invalid
    exact real (names.symm.trans (settled.null i (by simpa using invalid)))
  have loop := m.flushFrames_cases file fault distinct
  have empties (unpinned : ∀ i, m.Holds file i → (m.bufTable i).pinCnt ≤ 0) :
      ∃ r, m.flushFile file fault = (.ok, r) ∧ Flushed m file (List.finRange bufs) r := by
    unfold flushFile
    generalize flushFrames file fault (List.finRange bufs) m = result at loop
    cases loop with
    | done r _ flushed => exact ⟨r, rfl, flushed⟩
    | stopped status disk i n before after _ _ _ _ names stuck =>
      have mine : m.Holds file i := ⟨valid names, names⟩
      exact absurd ⟨mine.1, unpinned i mine, flushable i mine⟩ stuck
  have stops {j : Fin bufs} (mine : m.Holds file j) (pinned : 0 < (m.bufTable j).pinCnt) :
      (m.flushFile file fault).1 = .pagePinned ∧ ∀ l, m.Holds file l → 0 < (m.bufTable l).pinCnt →
        (m.flushFile file fault).2.bufTable l = m.bufTable l := by
    unfold flushFile
    generalize flushFrames file fault (List.finRange bufs) m = result at loop
    cases loop with
    | done r ready =>
      have := (ready j (List.mem_finRange j) mine.2).unpinned
      omega
    | stopped status disk i n before after _ _ ready flushed names stuck stopped =>
      constructor
      · have mine : m.Holds file i := ⟨valid names, names⟩
        exact stopped mine.1 (Int.not_le.mp fun unpinned => stuck ⟨mine.1, unpinned, flushable i mine⟩)
      · intro l mine pinned
        refine flushed.others l (.inl fun member => ?_)
        have := (ready l member mine.2).unpinned
        omega
  have only {i j : Fin bufs} (mine : m.Holds file i) (other : m.Holds file j)
      (page : (m.bufTable i).pageNo = (m.bufTable j).pageNo) : i = j :=
    inv.unique mine.key (other.key.trans (by rw [page]))
  refine ⟨fun unpinned => ?_, fun unpinned i => ?_, fun unpinned pageNo => ?_,
    fun unpinned i mine => ?_,
    fun unpinned => ?_, fun ⟨i, mine, pinned⟩ => (stops mine pinned).1, fun i mine pinned => ?_⟩
  · obtain ⟨r, run, _⟩ := empties unpinned
    rw [run]
  · obtain ⟨r, run, emptied⟩ := empties unpinned
    rw [run]
    exact emptied.released real (List.mem_finRange i)
  · obtain ⟨r, run, emptied⟩ := empties unpinned
    change Mapped (m.flushFile file fault).2 at mapped
    rw [run] at mapped ⊢
    by_contra present
    obtain ⟨i, found⟩ := Option.ne_none_iff_exists'.mp present
    exact emptied.no_key (List.mem_finRange i) pageNo ((mapped.entry _ _).mp found)
  · obtain ⟨r, run, emptied⟩ := empties unpinned
    rw [run]
    by_cases dirty : (m.bufTable i).dirty = true
    · refine emptied.stored (fun i _ j _ changed changed' page => ?_) i (List.mem_finRange i)
        ⟨mine.1, mine.2, dirty⟩
      rw [only ⟨changed.1, changed.2.1⟩ ⟨changed'.1, changed'.2.1⟩ page]
    · have kept := emptied.kept (file, (m.bufTable i).pageNo) fun j _ changed page => by
        cases only mine ⟨changed.1, changed.2.1⟩ (Prod.mk.inj page).2
        exact dirty changed.2.2
      exact kept.trans (settled.same i _ mine.key (by simpa using dirty) (unpinned i mine)).symm
  · obtain ⟨r, run, emptied⟩ := empties unpinned
    rw [run]
    exact ⟨fun i other => ⟨emptied.others i (.inr other), congrFun emptied.pool i⟩, emptied.entries⟩
  · have same := (stops mine pinned).2 i mine pinned
    refine ⟨by rwa [Holds, same], (mapped.entry _ i).mpr ?_⟩
    change ((m.flushFile file fault).2.bufTable i).key = _
    rw [same]
    exact mine.key

/-! Runs of safe and careful calls. -/

namespace Tracked
variable {t u : Tracked bufs P}

def CarefulStep (t : Tracked bufs P) (e : Event bufs P) (u : Tracked bufs P) : Prop :=
  SafeStep t e u ∧ ∀ c fault, e = .call c fault → Careful t.mgr c

theorem call_settled (inv : t.Invariant) (settled : Settled t.mgr) {c : Call}
    (safe : Safe t.mgr fault c) (careful : Careful t.mgr c) : Settled (t.call fault c).mgr := by
  cases c with
  | readPage file pageNo => exact settled.of_fates (readPage_fates inv.toMapped settled safe)
  | allocPage file =>
    have mgr : (t.call fault (.allocPage file)).mgr = (t.mgr.allocPage file fault).2 := by
      simp only [call]
      split
      next run => rw [run]; rfl
      next run => rw [run]; rfl
    rw [mgr]
    exact settled.of_fates (allocPage_fates inv.toMapped safe careful)
  | unPinPage file pageNo dirty => exact settled.of_fates (unPinPage_fates inv.toMapped careful)
  | flushFile file => exact flushFrames_settled inv.toMapped settled file fault _
  | disposePage file pageNo => exact settled.of_fates (disposePage_fates inv.toMapped careful fault)

structure Upheld (t : Tracked bufs P) : Prop extends t.Invariant where
  settled : Settled t.mgr

theorem start_upheld [NeZero bufs] (disk : Disk P) : (start disk : Tracked bufs P).Upheld :=
  ⟨start_invariant disk, fun _ _ => rfl, fun i k held =>
    by simp [start, BufMgr.new, BufDesc.key] at held⟩

theorem carefulStep_upheld {e : Event bufs P} (inv : t.Upheld) (step : CarefulStep t e u) :
    u.Upheld := by
  refine ⟨safeStep_invariant inv.toInvariant step.1, ?_⟩
  obtain ⟨⟨step, safe⟩, careful⟩ := step
  cases e with
  | call c fault =>
    obtain rfl := step
    exact call_settled inv.toInvariant inv.settled (safe c fault rfl) (careful c fault rfl)
  | write i page =>
    obtain ⟨k, _, pinned, rfl⟩ := step
    exact write_settled inv.settled pinned page

/-- In every run of safe and careful calls, `flushFile` does what it should. -/
theorem flushFile_exact [NeZero bufs] (disk : Disk P)
    (reached : Reachable (· = start disk) CarefulStep t) {file : FilePtr} (real : file ≠ 0)
    {fault : Faults P} (flushable : t.mgr.Flushable file fault) :
    t.mgr.FlushExact file fault := by
  have inv : t.Upheld := by
    refine reached.invariant ?_ fun _ _ _ inv step => carefulStep_upheld inv step
    rintro _ rfl
    exact start_upheld disk
  exact inv.settled.flushExact inv.toMapped real flushable

def released : Tracked 2 DBPage :=
  let t := (start Disk.twoPages).call noFaults (.readPage 7 1)
  let t : Tracked 2 DBPage := ⟨t.mgr.setPool 0 ⟨1, 1, 1⟩, Function.update t.data (7, 1) ⟨1, 1, 1⟩⟩
  t.call noFaults (.unPinPage 7 1 true)

/-- The page that was changed and released is on disk after the call. -/
theorem flushFile_exact_released :
    ((released.mgr.flushFile 7 noFaults).2.disk 7).page 1 = ⟨1, 1, 1⟩ ∧
      released.mgr.FlushExact 7 noFaults := by
  have low : ∀ i, (released.mgr.bufTable i).dirty = true → 1 ≤ (released.mgr.bufTable i).pageNo :=
    by decide +kernel
  refine ⟨by decide +kernel, flushFile_exact Disk.twoPages
    (.next (a := .call (.unPinPage 7 1 true) noFaults) (.next (a := .write 0 ⟨1, 1, 1⟩)
      (.next (a := .call (.readPage 7 1) noFaults) (.initial rfl)
        ⟨⟨rfl, fun _ _ same => ?_⟩, fun _ _ same => ?_⟩)
        ⟨⟨⟨(7, 1), by decide, by decide, rfl⟩, fun _ _ same => by cases same⟩, fun _ _ same =>
          by cases same⟩)
      ⟨⟨rfl, fun _ _ same => ?_⟩, fun _ _ same => ?_⟩)
    (by decide) fun i _ dirty => ⟨low i dirty, rfl⟩⟩
  · cases same
    exact fun _ i victim => by cases victim
  · cases same
    trivial
  · cases same
    trivial
  · cases same
    exact fun _ _ _ => .inr (.inl rfl)

/-- The page in both frames is written twice, the older copy last. -/
theorem flushFile_loses : Reachable (· = start Disk.twoPages) Step overwritten ∧
    overwritten.mgr.Flushable 7 noFaults ∧
      (∀ i, overwritten.mgr.Holds 7 i → (overwritten.mgr.bufTable i).pinCnt ≤ 0) ∧
    overwritten.mgr.bufPool 0 = ⟨2, 2, 2⟩ ∧
    ((overwritten.mgr.flushFile 7 noFaults).2.disk 7).page 1 = ⟨1, 1, 1⟩ ∧
    ¬ overwritten.mgr.FlushExact 7 noFaults := by
  have unpinned : ∀ i, (overwritten.mgr.bufTable i).pinCnt ≤ 0 := by decide +kernel
  have low : ∀ i, 1 ≤ (overwritten.mgr.bufTable i).pageNo := by decide +kernel
  have first : overwritten.mgr.bufPool 0 = ⟨2, 2, 2⟩ := by decide +kernel
  have last : ((overwritten.mgr.flushFile 7 noFaults).2.disk 7).page 1 = ⟨1, 1, 1⟩ := by decide +kernel
  refine ⟨overwritten_reachable, fun i _ _ => ⟨low i, rfl⟩, fun i _ => unpinned i, first, last,
    fun exact => ?_⟩
  have written := exact.written (fun i _ => unpinned i) 0 ⟨by decide +kernel, by decide +kernel⟩
  have pageNo : (overwritten.mgr.bufTable 0).pageNo = 1 := by decide +kernel
  rw [pageNo, last, first] at written
  cases written

end Tracked
end BufMgr
end Minirel
