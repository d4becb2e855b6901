import Minirel.BufMgr.AllocBuf

/-! The loop of `flushFile`. It gives up the frames of a file one by one and stops
at the first that it cannot write out and drop. -/
namespace Minirel

namespace BufDesc

def Pinned (d : BufDesc) (file : FilePtr) : Prop := d.valid ∧ d.file = file ∧ d.pinCnt > 0

def Changed (d : BufDesc) (file : FilePtr) : Prop := d.valid ∧ d.file = file ∧ d.dirty

structure Ready {P : Type} (d : BufDesc) (fault : Option P) : Prop where
  valid : d.valid
  unpinned : d.pinCnt ≤ 0
  writes : d.dirty → 1 ≤ d.pageNo ∧ fault = none

end BufDesc

namespace BufMgr
variable {bufs : Nat} {P : Type} [PageImage P] {m n r : BufMgr bufs P} {fault : Faults P}
  {file : FilePtr} {i : Fin bufs} {frames rest : List (Fin bufs)}

def Holds (m : BufMgr bufs P) (file : FilePtr) (i : Fin bufs) : Prop :=
  (m.bufTable i).valid = true ∧ (m.bufTable i).file = file

theorem Holds.key (mine : m.Holds file i) :
    (m.bufTable i).key = some (file, (m.bufTable i).pageNo) :=
  BufDesc.key_eq_some.mpr ⟨mine.1, mine.2, rfl⟩

def dropFrame (m : BufMgr bufs P) (i : Fin bufs) : BufMgr bufs P :=
  (m.removeEntry (m.bufTable i).file (m.bufTable i).pageNo).setDesc i
    { m.bufTable i with dirty := false, file := 0, pageNo := -1, valid := false }

inductive FrameFlush (m : BufMgr bufs P) (file : FilePtr) (fault : Faults P) (i : Fin bufs) :
    Status × BufMgr bufs P → Prop
  | skipped (other : (m.bufTable i).file ≠ file) : FrameFlush m file fault i (.ok, m)
  | invalid (names : (m.bufTable i).file = file) (invalid : (m.bufTable i).valid = false) :
      FrameFlush m file fault i (.badBuffer, m)
  | pinned (mine : m.Holds file i) (pins : 0 < (m.bufTable i).pinCnt) :
      FrameFlush m file fault i (.pagePinned, m)
  | unwritten (status : Status) (disk : Disk P) (mine : m.Holds file i)
      (dirty : (m.bufTable i).dirty = true)
      (fails : ¬ (1 ≤ (m.bufTable i).pageNo ∧ fault (.flushWrite i) = none)) (failed : status ≠ .ok)
      (unpinned : (m.bufTable i).pinCnt ≤ 0)
      (kept : ∀ k, k ≠ (file, (m.bufTable i).pageNo) → (disk k.1).page k.2 = (m.disk k.1).page k.2) :
      FrameFlush m file fault i (status, m.onDisk disk)
  | dropped (mine : m.Holds file i) (ready : (m.bufTable i).Ready (fault (.flushWrite i))) :
      FrameFlush m file fault i (.ok, (m.onDisk (m.flushed i)).dropFrame i)

theorem flushFrame_cases (m : BufMgr bufs P) (file : FilePtr) (fault : Faults P) (i : Fin bufs) :
    FrameFlush m file fault i (m.flushFrame file fault i) := by
  have dropped := @FrameFlush.dropped _ _ _ m file fault i
  unfold flushed dropFrame at dropped
  unfold flushFrame
  simp only
  split
  next mine =>
    obtain rfl := mine.2
    split
    next pinned => exact .pinned mine pinned
    next unpinned =>
      split
      next dirty =>
        rw [if_pos dirty] at dropped
        have kept (k : FilePtr × Int) (apart : k ≠ ((m.bufTable i).file, (m.bufTable i).pageNo)) :=
          Disk.writePage_page m.disk (m.bufPool i) (fault (.flushWrite i)) fun _ => apart
        rcases m.disk.writePage_cases (m.bufTable i).file (m.bufTable i).pageNo (m.bufPool i)
          (fault (.flushWrite i)) with ⟨low, sound, write⟩ | ⟨fails, bad⟩
        · rw [write]
          exact dropped mine ⟨mine.1, by omega, fun _ => ⟨low, sound⟩⟩
        · generalize m.disk.writePage _ _ _ _ = result at bad kept
          obtain ⟨status, disk⟩ := result
          have stopped := FrameFlush.unwritten status disk mine dirty fails bad (by omega) kept
          cases status <;> first | exact absurd rfl bad | exact stopped
      next clean =>
        rw [if_neg clean] at dropped
        exact dropped mine ⟨mine.1, by omega, fun dirty => absurd dirty clean⟩
  next notMine =>
    split
    next names => exact .invalid names.2 (by simpa using names.1)
    next named =>
      refine .skipped fun names => ?_
      by_cases valid : (m.bufTable i).valid = true
      · exact notMine ⟨valid, names⟩
      · exact named ⟨valid, names⟩

/-- What the loop has done to distinct frames of which none is stuck. -/
structure Flushed (m : BufMgr bufs P) (file : FilePtr) (frames : List (Fin bufs))
    (r : BufMgr bufs P) : Prop where
  others : ∀ i, i ∉ frames ∨ (m.bufTable i).file ≠ file → r.bufTable i = m.bufTable i
  dropped : ∀ i ∈ frames, (m.bufTable i).file = file → (r.bufTable i).valid = false ∧
    (r.bufTable i).file = 0
  pool : r.bufPool = m.bufPool
  entries : ∀ k, k.1 ≠ file → r.lookup k = m.lookup k
  kept : ∀ k, (∀ i ∈ frames, (m.bufTable i).Changed file → k ≠ (file, (m.bufTable i).pageNo)) →
    (r.disk k.1).page k.2 = (m.disk k.1).page k.2
  stored : (∀ i ∈ frames, ∀ j ∈ frames, (m.bufTable i).Changed file → (m.bufTable j).Changed file →
      (m.bufTable i).pageNo = (m.bufTable j).pageNo → m.bufPool i = m.bufPool j) →
    ∀ i ∈ frames, (m.bufTable i).Changed file → (r.disk file).page (m.bufTable i).pageNo = m.bufPool i

theorem Flushed.nil (m : BufMgr bufs P) (file : FilePtr) : Flushed m file [] m :=
  ⟨fun _ _ => rfl, by simp, rfl, fun _ _ => rfl, fun _ _ => rfl, by simp⟩

theorem FrameFlush.flushed (flush : FrameFlush m file fault i (.ok, r)) : Flushed m file [i] r := by
  cases flush with
  | skipped other =>
    refine ⟨fun _ _ => rfl, ?_, rfl, fun _ _ => rfl, fun _ _ => rfl, fun _ => ?_⟩
    · simp [other]
    · simp only [List.mem_singleton, forall_eq]
      exact fun changed => absurd changed.2.1 other
  | unwritten _ _ _ _ _ failed => exact absurd rfl failed
  | dropped mine ready =>
    have changed (dirty : (m.bufTable i).dirty = true) : (m.bufTable i).Changed file :=
      ⟨mine.1, mine.2, dirty⟩
    refine ⟨fun j other => setDesc_of_ne _ _ ?_, ?_, rfl, fun k other => ?_, fun k apart => ?_,
      fun _ => ?_⟩
    · rintro rfl
      exact other.elim (fun apart => apart (List.mem_singleton_self _)) fun apart => apart mine.2
    · simp only [List.mem_singleton, forall_eq]
      exact fun _ => by simp [dropFrame]
    · refine (lookup_removeEntry (m.onDisk _) _ _ k).trans (if_neg ?_)
      rintro rfl
      exact other mine.2
    · refine flushed_page_of_ne fun dirty => ?_
      rw [mine.2]
      exact apart i (List.mem_singleton_self i) (changed dirty)
    · simp only [List.mem_singleton, forall_eq]
      intro changed
      change (m.flushed i file).page _ = _
      rw [BufMgr.flushed, if_pos changed.2.2, mine.2, Disk.write_page_self]

theorem Flushed.same (flushed : Flushed m file frames n) (apart : frames.Disjoint rest)
    {j : Fin bufs} (member : j ∈ rest) :
    n.bufTable j = m.bufTable j :=
  flushed.others j (.inl fun member' => apart member' member)

/-- The loop over some frames and then over some others. -/
theorem Flushed.append (first : Flushed m file frames n) (apart : frames.Disjoint rest)
    (second : Flushed n file rest r) : Flushed m file (frames ++ rest) r := by
  have same {j : Fin bufs} (member : j ∈ rest) : n.bufTable j = m.bufTable j := first.same apart member
  refine ⟨fun j other => ?_, fun j member names => ?_, second.pool.trans first.pool,
    fun k other => (second.entries k other).trans (first.entries k other), fun k outside => ?_,
    fun agree => ?_⟩
  · have kept := first.others j
      (other.imp_left fun outside member => outside (List.mem_append_left _ member))
    have behind := other.imp_left fun outside member => outside (List.mem_append_right _ member)
    rw [second.others j (by rwa [kept]), kept]
  · rcases List.mem_append.mp member with member | member
    · rw [second.others j (.inl (apart member))]
      exact first.dropped j member names
    · exact second.dropped j member (by rwa [same member])
  · rw [List.forall_mem_append] at outside
    rw [second.kept k fun j member => by rw [same member]; exact outside.2 j member,
      first.kept k outside.1]
  · have stored := second.stored fun i hi j hj => by
      rw [same hi, same hj, first.pool]
      exact agree i (List.mem_append_right _ hi) j (List.mem_append_right _ hj)
    have early := first.stored fun i hi j hj =>
      agree i (List.mem_append_left _ hi) j (List.mem_append_left _ hj)
    rw [List.forall_mem_append]
    constructor
    · intro i member changed
      -- a later frame for the same page holds the same contents
      by_cases again : ∃ j ∈ rest, (m.bufTable j).Changed file ∧
        (m.bufTable j).pageNo = (m.bufTable i).pageNo
      · obtain ⟨j, member', changed', page⟩ := again
        have later := stored j member' (by rwa [same member'])
        rw [same member', first.pool, page] at later
        rw [later]
        exact agree j (List.mem_append_right _ member') i (List.mem_append_left _ member) changed'
          changed page
      · have kept := second.kept (file, (m.bufTable i).pageNo) fun j member' changed' page =>
          again ⟨j, member', by
          rw [same member'] at changed' page
          exact ⟨changed', (Prod.mk.inj page).2.symm⟩⟩
        exact kept.trans (early i member changed)
    · intro i member changed
      have later := stored i member (by rwa [same member])
      rwa [same member, first.pool] at later

theorem Flushed.no_key (flushed : Flushed m file frames r) (member : i ∈ frames) (pageNo : Int) :
    (r.bufTable i).key ≠ some (file, pageNo) := by
  intro held
  obtain ⟨valid, names, _⟩ := BufDesc.key_eq_some.mp held
  by_cases mine : (m.bufTable i).file = file
  · simp [(flushed.dropped i member mine).1] at valid
  · rw [flushed.others i (.inr mine)] at names
    exact mine names

theorem Flushed.released (flushed : Flushed m file frames r) (nonnull : file ≠ 0)
    (member : i ∈ frames) :
    (r.bufTable i).file ≠ file := by
  by_cases mine : (m.bufTable i).file = file
  · rw [(flushed.dropped i member mine).2]
    exact nonnull.symm
  · rwa [flushed.others i (.inr mine)]

def AllReady (m : BufMgr bufs P) (file : FilePtr) (fault : Faults P) (frames : List (Fin bufs)) :
    Prop :=
  ∀ i ∈ frames, (m.bufTable i).file = file → (m.bufTable i).Ready (fault (.flushWrite i))

/-- The loop gets through, or it gives up the frames before the first that is
stuck. -/
inductive FlushLoop (m : BufMgr bufs P) (file : FilePtr) (fault : Faults P)
    (frames : List (Fin bufs)) :
    Status × BufMgr bufs P → Prop
  | done (r : BufMgr bufs P) (ready : m.AllReady file fault frames)
      (flushed : Flushed m file frames r) :
      FlushLoop m file fault frames (.ok, r)
  | stopped (status : Status) (disk : Disk P) (i : Fin bufs) (n : BufMgr bufs P)
      (before after : List (Fin bufs))
      (failed : status ≠ .ok) (split : frames = before ++ i :: after)
      (ready : m.AllReady file fault before)
      (flushed : Flushed m file before n) (names : (m.bufTable i).file = file)
      (stuck : ¬ (m.bufTable i).Ready (fault (.flushWrite i)))
      (pinned : (m.bufTable i).valid = true → 0 < (m.bufTable i).pinCnt → status = .pagePinned) :
      FlushLoop m file fault frames (status, n.onDisk disk)

theorem FrameFlush.ready (flush : FrameFlush m file fault i (.ok, r))
    (names : (m.bufTable i).file = file) :
    (m.bufTable i).Ready (fault (.flushWrite i)) := by
  cases flush with
  | skipped other => exact absurd names other
  | unwritten _ _ _ _ _ failed => exact absurd rfl failed
  | dropped _ ready => exact ready

/-- Whatever ends the loop at its first frame. -/
theorem FrameFlush.loop_stopped {status : Status} (flush : FrameFlush m file fault i (status, r))
    (failed : status ≠ .ok) (rest : List (Fin bufs)) :
    FlushLoop m file fault (i :: rest) (status, r) := by
  have here (disk : Disk P) :=
    @FlushLoop.stopped _ _ _ m file fault _ status disk i m [] rest failed rfl
    (fun j member => by cases member) (.nil m file)
  cases flush with
  | skipped => exact absurd rfl failed
  | dropped => exact absurd rfl failed
  | invalid names invalid =>
    refine here m.disk names (fun ready => ?_) (by simp [invalid])
    simp [ready.valid] at invalid
  | pinned mine pins =>
    refine here m.disk mine.2 (fun ready => ?_) fun _ _ => rfl
    have := ready.unpinned
    omega
  | unwritten _ disk mine dirty fails _ unpinned =>
    exact here disk mine.2 (fun ready => fails (ready.writes dirty)) fun _ pins => by omega

theorem flushFrames_cases (m : BufMgr bufs P) (file : FilePtr) (fault : Faults P)
    (distinct : frames.Nodup) :
    FlushLoop m file fault frames (flushFrames file fault frames m) := by
  induction frames generalizing m with
  | nil => exact .done m (fun i member => by cases member) (.nil m file)
  | cons i rest ih =>
    obtain ⟨outside, distinct⟩ := List.nodup_cons.mp distinct
    have flush := m.flushFrame_cases file fault i
    unfold flushFrames
    generalize m.flushFrame file fault i = result at flush
    obtain ⟨status, n⟩ := result
    by_cases done : status = .ok
    · subst done
      have first := flush.flushed
      have apart (others : List (Fin bufs)) (sub : others ⊆ rest) : [i].Disjoint others := by
        simpa using fun member => outside (sub member)
      have same {j : Fin bufs} (member : j ∈ rest) :=
        first.same (apart rest (List.Subset.refl _)) member
      have ready (others : List (Fin bufs)) (sub : others ⊆ rest)
        (ready : n.AllReady file fault others) :
          m.AllReady file fault (i :: others) := by
        refine List.forall_mem_cons.mpr ⟨flush.ready, fun j member => ?_⟩
        rw [← same (sub member)]
        exact ready j member
      have loop := ih n distinct
      simp only
      generalize flushFrames file fault rest n = result at loop
      cases loop with
      | done r ready' flushed =>
        exact .done r (ready rest (List.Subset.refl _) ready')
          (first.append (apart rest (List.Subset.refl _)) flushed)
      | stopped status disk j n' before after failed split ready' flushed names stuck pinned =>
        have sub : before ⊆ rest := by
          rw [split]
          exact List.subset_append_left before (j :: after)
        have here := same (show j ∈ rest by rw [split]; simp)
        rw [here] at names stuck pinned
        exact .stopped status disk j n' (i :: before) after failed (by rw [split]; rfl)
          (ready before sub ready')
          (first.append (apart before sub) flushed) names stuck pinned
    · have stopped := flush.loop_stopped done rest
      cases status <;> first | exact absurd rfl done | exact stopped

end BufMgr
end Minirel
