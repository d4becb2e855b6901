import Minirel.DB
import Minirel.BufMgr.FlushFile

/-! What closing a file leaves behind. `flushFile` stops at the first frame of
the file it cannot write out and drop, and nobody looks at its status. -/
namespace Minirel
open Function

variable {bufs : Nat} {P : Type} [PageImage P] {file : FilePtr} {fault : Faults P}

namespace DB
variable {db : DB bufs P} {f : File}

/-- If the call succeeds and the `File` object is gone, then no frame names it
and what the frames held is on disk. -/
def Saves (db : DB bufs P) (file : FilePtr) (fault : Faults P) (closes : Bool) : Prop :=
  ∀ db', db.closeFile file fault closes = some (.ok, db') → db'.files file = none →
    (∀ i, (db'.bufMgr.bufTable i).file ≠ file) ∧
    ∀ i, (db.bufMgr.bufTable i).Changed file →
      (db'.bufMgr.disk file).page (db.bufMgr.bufTable i).pageNo = db.bufMgr.bufPool i

/-- If a page of the file is pinned, the call fails and the file stays open. -/
def RefusesPinned (db : DB bufs P) (file : FilePtr) (fault : Faults P) (closes : Bool) : Prop :=
  (∃ i, (db.bufMgr.bufTable i).Pinned file) →
    ∃ status db', db.closeFile file fault closes = some (status, db') ∧ status ≠ .ok ∧
      ∃ f', db'.files file = some f' ∧ 0 < f'.openCnt

structure Flushable (m : BufMgr bufs P) (file : FilePtr) (fault : Faults P) : Prop where
  ready : ∀ i, (m.bufTable i).file = file → (m.bufTable i).Ready (fault (.flushWrite i))
  agree : ∀ i j, (m.bufTable i).Changed file → (m.bufTable j).Changed file →
    (m.bufTable i).pageNo = (m.bufTable j).pageNo → m.bufPool i = m.bufPool j

/-- The file leaves the pool with its changes on disk if every frame can be written out
and the frames of one page agree, and only then. -/
theorem flushFile_saves_iff (m : BufMgr bufs P) (nonnull : file ≠ 0) :
    ((∀ i, ((m.flushFile file fault).2.bufTable i).file ≠ file) ∧
      ∀ i, (m.bufTable i).Changed file →
        ((m.flushFile file fault).2.disk file).page (m.bufTable i).pageNo = m.bufPool i) ↔
      Flushable m file fault := by
  have all : m.AllReady file fault (List.finRange bufs) ↔
      ∀ i, (m.bufTable i).file = file → (m.bufTable i).Ready (fault (.flushWrite i)) := by
    simp [BufMgr.AllReady]
  have loop := m.flushFrames_cases file fault (List.nodup_finRange bufs)
  unfold BufMgr.flushFile
  generalize BufMgr.flushFrames file fault (List.finRange bufs) m = result at loop
  cases loop with
  | done r ready flushed =>
    constructor
    · rintro ⟨_, saved⟩
      exact ⟨all.mp ready, fun i j hi hj page => by rw [← saved i hi, ← saved j hj, page]⟩
    · intro flushable
      exact ⟨fun i => flushed.released nonnull (List.mem_finRange i),
        fun i changed => flushed.stored (fun i _ j _ => flushable.agree i j) i (List.mem_finRange i)
          changed⟩
  | stopped status disk i n before after _ split _ flushed names stuck =>
    have distinct := List.nodup_finRange bufs
    rw [split, List.nodup_append'] at distinct
    have kept : n.bufTable i = m.bufTable i :=
      flushed.others i (.inl fun member => distinct.2.2 member List.mem_cons_self)
    constructor
    · exact fun saved => absurd ((congrArg BufDesc.file kept).trans names) (saved.1 i)
    · exact fun flushable => absurd (flushable.ready i names) stuck

inductive Closing (db : DB bufs P) (file : FilePtr) (f : File) (fault : Faults P) :
    Option (Status × DB bufs P) → Prop
  | stillOpen {db' : DB bufs P} {f' : File} (zero : f.openCnt ≠ 0) (one : f.openCnt ≠ 1)
      (there : db'.files file = some f') : Closing db file f fault (some (.ok, db'))
  | deleted {db' : DB bufs P} (listed : db.openFiles.lookup f.fileName ≠ none)
      (gone : db'.files file = none)
      (flushed : f.openCnt = 1 ∧ db'.bufMgr = (db.bufMgr.flushFile file fault).2 ∨
        f.openCnt = 0 ∧ db'.bufMgr = db.bufMgr) : Closing db file f fault (some (.ok, db'))
  | unlisted {db' : DB bufs P} {f' : File} (unlisted : db.openFiles.lookup f.fileName = none)
      (there : db'.files file = some f') (zero : f'.openCnt = 0) :
      Closing db file f fault (some (.badFilePtr, db'))

theorem close_openCnt (db : DB bufs P) (file : FilePtr) (f : File) (fault : Faults P)
    (closes : Bool) :
    (db.close file f fault closes).2.openFiles = db.openFiles ∧
      (f.openCnt ≤ 0 ∧ (db.close file f fault closes).2 = db ∨
        0 < f.openCnt ∧
          (db.close file f fault closes).2.files file = some { f with openCnt := f.openCnt - 1 } ∧
          (db.close file f fault closes).2.bufMgr =
            if f.openCnt = 1 then (db.bufMgr.flushFile file fault).2 else db.bufMgr) := by
  unfold close
  split
  next closed => exact ⟨rfl, .inl ⟨closed, rfl⟩⟩
  next opened =>
    simp only
    by_cases last : f.openCnt - 1 = 0
    · rw [if_pos last, if_pos (show f.openCnt = 1 by omega)]
      cases closes <;> exact ⟨rfl, .inr ⟨by omega, update_self .., rfl⟩⟩
    · rw [if_neg last, if_neg (show ¬ f.openCnt = 1 by omega)]
      exact ⟨rfl, .inr ⟨by omega, update_self .., rfl⟩⟩

/-- Once `File::close` has returned. -/
theorem closing_of_close {db' : DB bufs P} {f' : File} (table : db'.openFiles = db.openFiles)
    (there : db'.files file = some f') (name : f'.fileName = f.fileName)
    (flushed : f'.openCnt = 0 → f.openCnt = 1 ∧ db'.bufMgr = (db.bufMgr.flushFile file fault).2 ∨
      f.openCnt = 0 ∧ db'.bufMgr = db.bufMgr)
    (open' : f'.openCnt ≠ 0 → f.openCnt ≠ 0 ∧ f.openCnt ≠ 1) :
    Closing db file f fault (some (db'.dropClosed file f')) := by
  unfold dropClosed
  split
  next zero =>
    rw [table, name]
    cases removed : db.openFiles.remove f.fileName with
    | none => exact .unlisted (ChainedTable.remove_eq_none.mp removed) there zero
    | some openFiles =>
      refine .deleted (fun unlisted => ?_) (update_self ..) (flushed zero)
      rw [ChainedTable.remove_eq_none.mpr unlisted] at removed
      cases removed
  next positive => exact .stillOpen (open' positive).1 (open' positive).2 there

theorem closeFile_cases (nonnull : file ≠ 0) (there : db.files file = some f) (fault : Faults P)
    (closes : Bool) :
    Closing db file f fault (db.closeFile file fault closes) := by
  unfold closeFile
  rw [if_neg nonnull, there]
  obtain ⟨table, ⟨closed, same⟩ | ⟨opened, there', mgr⟩⟩ := db.close_openCnt file f fault closes
  · simp only [bind, Option.bind, same, there]
    exact closing_of_close rfl there rfl (fun zero => .inr ⟨zero, rfl⟩)
      (fun positive => ⟨positive, by omega⟩)
  · simp only [bind, Option.bind, there']
    refine closing_of_close table there' rfl (fun zero => .inl ⟨?_, ?_⟩) (fun positive => ?_)
    · simp only at zero
      omega
    · rw [mgr, if_pos (by simp only at zero; omega)]
    · simp only at positive
      omega

/-- Closing keeps its promises exactly when no page of the file is pinned and,
for the last reference, every frame of the file can be written out. -/
theorem closeFile_saves_iff (nonnull : file ≠ 0) (there : db.files file = some f) (closes : Bool) :
    (db.Saves file fault closes ∧ db.RefusesPinned file fault closes) ↔
      (∀ i, ¬ (db.bufMgr.bufTable i).Pinned file) ∧ (db.openFiles.lookup f.fileName ≠ none →
        (f.openCnt = 1 → Flushable db.bufMgr file fault) ∧
        (f.openCnt = 0 → ∀ i, (db.bufMgr.bufTable i).file ≠ file)) := by
  have outcome := closeFile_cases nonnull there fault closes
  unfold Saves RefusesPinned
  generalize db.closeFile file fault closes = result at outcome
  have refuses : ((∃ i, (db.bufMgr.bufTable i).Pinned file) → ∃ status db',
    result = some (status, db') ∧
      status ≠ .ok ∧ ∃ f', db'.files file = some f' ∧ 0 < f'.openCnt) ↔
      ∀ i, ¬ (db.bufMgr.bufTable i).Pinned file := by
    rw [← not_exists]
    refine imp_congr_right fun _ => iff_false_intro ?_
    rintro ⟨status, db', rfl, failed, f', there', positive⟩
    cases outcome with
    | stillOpen => exact failed rfl
    | deleted => exact failed rfl
    | unlisted _ there'' zero =>
      cases there'.symm.trans there''
      omega
  rw [refuses, and_comm]
  refine and_congr_right fun _ => ?_
  cases outcome with
  | stillOpen zero one there' =>
    refine iff_of_true ?_ (fun _ => ⟨fun last => absurd last one, fun none => absurd none zero⟩)
    rintro db' ⟨⟩ gone
    cases there'.symm.trans gone
  | unlisted unlisted there' zero =>
    refine iff_of_true ?_ (fun listed => absurd unlisted listed)
    rintro db' ⟨⟩
  | @deleted db' listed gone flushed =>
    have only : ∀ {claim : DB bufs P → Prop},
        (∀ db'', some (Status.ok, db') = some (.ok, db'') → db''.files file = none → claim db'') ↔
          claim db' :=
      ⟨fun all => all db' rfl gone, by rintro holds _ ⟨⟩ _; exact holds⟩
    rw [only]
    rcases flushed with ⟨last, mgr⟩ | ⟨none, mgr⟩
    · rw [mgr, flushFile_saves_iff _ nonnull]
      exact ⟨fun flushable _ =>
        ⟨fun _ => flushable, fun none => absurd (last.symm.trans none) (by decide)⟩,
        fun holds => (holds listed).1 last⟩
    · rw [mgr]
      constructor
      · exact fun saved _ => ⟨fun last => absurd (none.symm.trans last) (by decide), fun _ => saved.1⟩
      · intro holds
        have unnamed := (holds listed).2 none
        exact ⟨unnamed, fun i changed => absurd changed.2.1 (unnamed i)⟩

/-- A pool of one frame that holds page 1 of a file opened once. The page was
read twice, changed, and unpinned with its dirty flag. -/
def onePinned : DB 1 DBPage where
  openFiles := (ChainedTable.empty.insert [114] 7).getD .empty
  files := update (fun _ => none) 7 (some ⟨[114], 1⟩)
  bufMgr :=
    let mgr := ((BufMgr.new 1 Disk.twoPages).readPage 7 1 noFaults).2
    (((mgr.readPage 7 1 noFaults).2.setPool 0 ⟨5, 5, 5⟩).unPinPage 7 1 true).2

def oneReleased : DB 1 DBPage :=
  { onePinned with bufMgr := (onePinned.bufMgr.unPinPage 7 1 false).2 }

/-- The only page has been changed and released. -/
theorem closeFile_saves_iff_oneReleased :
    oneReleased.Saves 7 noFaults true ∧ oneReleased.RefusesPinned 7 noFaults true := by
  have table : ∀ i, oneReleased.bufMgr.bufTable i = ⟨7, 1, 0, true, true, true⟩ := by decide
  refine (closeFile_saves_iff (by decide) (f := ⟨[114], 1⟩) rfl true).mpr
    ⟨fun i pinned => ?_, fun _ =>
      ⟨fun _ => ⟨fun i _ => ?_, fun i j _ _ _ => ?_⟩, fun none => absurd none (by decide)⟩⟩
  · rw [table i] at pinned
    exact absurd pinned.2.2 (by decide)
  · rw [table i]
    exact ⟨rfl, by decide, fun _ => ⟨by decide, rfl⟩⟩
  · rw [Subsingleton.elim i j]

/-- While the page is pinned the file is closed all the same: the frame goes on
naming the deleted object and the change never reached the disk. -/
theorem closed_while_pinned : ¬ onePinned.Saves 7 noFaults true ∧
    ¬ onePinned.RefusesPinned 7 noFaults true ∧ ∃ db, onePinned.closeFile 7 noFaults true =
      some (.ok, db) ∧ db.files 7 = none ∧ (db.bufMgr.bufTable 0).file = 7 ∧
        db.bufMgr.bufPool 0 = ⟨5, 5, 5⟩ ∧ (db.bufMgr.disk 7).page 1 = ⟨0, 0, 0⟩ := by
  obtain ⟨db, run, gone, names, pool, disk⟩ :
    ∃ db, onePinned.closeFile 7 noFaults true = some (.ok, db) ∧
      db.files 7 = none ∧ (db.bufMgr.bufTable 0).file = 7 ∧ db.bufMgr.bufPool 0 = ⟨5, 5, 5⟩ ∧
      (db.bufMgr.disk 7).page 1 = ⟨0, 0, 0⟩ := ⟨_, rfl, rfl, rfl, rfl, rfl⟩
  refine ⟨fun saves => (saves db run gone).1 0 names, fun refuses => ?_, db, run, gone, names,
    pool, disk⟩
  obtain ⟨status, db', run', failed, _⟩ := refuses ⟨0, rfl, rfl, by decide⟩
  rw [run] at run'
  cases run'
  exact failed rfl

end DB
end Minirel
