import Minirel.Lib.Pointwise
import Minirel.Lib.Transition
import Minirel.SortedFile.Merge

/-! Going back in sorted order. A mark holds the place of the scan of each run and
the identifier of the record it has returned, which is enough to bring the run
back with that record in memory. -/
namespace Minirel
open Program Transition Pointwise

variable {st st' : Flat} {run run' point : Run} {todo : List Entry}

theorem HeapFileScan.resetScan_back {s t : HeapFileScan} {name : Name} {records todo : List Entry}
    (cursor : Cursor s st name id records todo) (clean : s.curDirtyFlag = false) (moved : s.Moved t)
    (page : t.curPage = some t.curPageNo) :
    Flat.run (t.resetScan s.markScan) st = some ((.ok, s), st) := by
  have page' := cursor.page
  obtain ⟨f, hdr, chain, there, heap, _, _, here, _⟩ := cursor
  obtain ⟨_, n, p, _, rfl, opened, _⟩ := here.place
  obtain ⟨_, low, high, _⟩ := heap.page_self
  have there' : st.files t.filePtr = some f := by rw [moved.filePtr, opened.file, there]
  have clean' := moved.clean clean
  rw [← opened.number] at low high
  -- the two scans agree in everything that does not tell the place
  obtain ⟨⟨filePtr, headerPageNo, hdrDirtyFlag, curPage, curPageNo, curDirtyFlag, curRec⟩, filter⟩ := s
  obtain ⟨⟨filePtr', headerPageNo', hdrDirtyFlag', curPage', curPageNo', curDirtyFlag', curRec'⟩,
    filter'⟩ := t
  obtain ⟨rfl, rfl, rfl, rfl, _⟩ := moved
  obtain rfl : curDirtyFlag = false := clean
  obtain rfl : curDirtyFlag' = false := clean'
  obtain rfl : curPage' = some curPageNo' := page
  obtain rfl : curPage = some curPageNo := page'
  unfold resetScan markScan
  by_cases same : curPageNo = curPageNo'
  · subst same
    rw [if_pos rfl]
    rfl
  · rw [if_neg same, if_neg (by simp), Flat.run, run_bind_of _ _ (Flat.run_unPinPage ..)]
    simp only [ne_eq, not_true_eq_false, if_false, restore]
    rw [run_bind_of _ _ (Flat.run_readPage there' low high)]
    rfl

namespace Run

structure Sound (run : Run) (st : Flat) : Prop where
  holds : ∃ todo, run.Holds st todo
  clean : run.inFile.curDirtyFlag = false

structure Since (point run : Run) : Prop where
  name : run.name = point.name
  marked : run.marked = point.inFile.markScan
  mark : run.mark = point.rid
  inFile : point.inFile.Moved run.inFile

def back (point run : Run) : Run :=
  { run with
    inFile := point.inFile
    rid := point.rid
    record := if 0 ≤ point.rid.pageNo then point.record else run.record
    valid := true }

theorem Sound.page (sound : run.Sound st) : run.inFile.curPage = some run.inFile.curPageNo := by
  obtain ⟨todo, holds⟩ := sound.holds
  obtain ⟨_, _, cursor⟩ := holds.cursor
  exact cursor.page

theorem Sound.getRecord (sound : run.Sound st) (present : 0 ≤ run.rid.pageNo) :
    Flat.run run.inFile.getRecord st = some (.ok run.record, st) := by
  obtain ⟨todo, holds⟩ := sound.holds
  cases holds with
  | fresh _ rid _ => omega
  | taken _ on _ record => exact record ▸ on.getRecord
  | loaded _ on _ record => exact record ▸ on.getRecord
  | ended _ rid _ => omega

theorem Sound.back (origin : point.Sound st) (since : point.Since run) :
    (point.back run).Sound st := by
  refine ⟨?_, origin.clean⟩
  have on {records todo : List Entry} {e : Entry}
    (on : CursorOn point.inFile st point.name id records e todo)
      (rid : point.rid = e.1) (record : point.record = e.2) :
        (point.back run).Holds st (e :: todo) := by
    have positive := on.pageNo_pos
    rw [← since.name] at on
    refine .loaded rfl on rid ?_
    rw [Run.back, if_pos (by rw [rid]; omega), record]
  have off {records todo : List Entry} (cursor : Cursor point.inFile st point.name id records todo)
      (rid : point.rid.pageNo < 0) : (point.back run).Holds st [] := by
    rw [← since.name] at cursor
    exact .ended rfl rid cursor
  obtain ⟨todo, holds⟩ := origin.holds
  cases holds with
  | fresh _ rid cursor => exact ⟨_, off cursor rid⟩
  | taken _ stands rid record => exact ⟨_, on stands rid record⟩
  | loaded _ stands rid record => exact ⟨_, on stands rid record⟩
  | ended _ rid cursor => exact ⟨_, off cursor rid⟩

theorem Since.back (since : point.Since run) : point.Since (point.back run) :=
  ⟨since.name, since.marked, since.mark, .refl _⟩

def atMark (run : Run) : Run := { run with marked := run.inFile.markScan, mark := run.rid }

theorem Since.atMark (run : Run) : run.Since run.atMark := ⟨rfl, rfl, rfl, .refl _⟩

theorem Holds.atMark (holds : run.Holds st todo) : run.atMark.Holds st todo := by
  cases holds with
  | fresh valid rid cursor => exact .fresh valid rid cursor
  | taken valid on rid record => exact .taken valid on rid record
  | loaded valid on rid record => exact .loaded valid on rid record
  | ended valid rid cursor => exact .ended valid rid cursor

theorem Sound.atMark (sound : run.Sound st) : run.atMark.Sound st := by
  obtain ⟨todo, holds⟩ := sound.holds
  exact ⟨⟨todo, holds.atMark⟩, sound.clean⟩

inductive Handled (st : Flat) (run : Run) : Run → Prop
  | loaded {run' : Run} {todo : List Entry} (settled : run'.Settled st todo)
      (follows : run.Follows run') :
      Handled st run run'
  | taken {run' : Run} {todo : List Entry} (settled : run'.Settled st todo) (follows : run.Follows run')
      (present : 0 ≤ run'.rid.pageNo) : Handled st run { run' with valid := false }

theorem Handled.sound (handled : run.Handled st run') (sound : run.Sound st) : run'.Sound st := by
  cases handled with
  | loaded settled follows => exact ⟨⟨_, settled.holds⟩, follows.inFile.clean sound.clean⟩
  | @taken run' todo settled follows present =>
    refine ⟨?_, follows.inFile.clean sound.clean⟩
    cases todo with
    | nil =>
      have ended := settled.ended
      omega
    | cons e todo => exact ⟨todo, settled.loaded.2.2⟩

theorem Since.follows (since : point.Since run) (follows : run.Follows run') : point.Since run' :=
  ⟨follows.name.trans since.name, follows.marked.trans since.marked, follows.mark.trans since.mark,
    since.inFile.trans follows.inFile⟩

theorem Since.handled (since : point.Since run) (handled : run.Handled st run') :
    point.Since run' := by
  cases handled with
  | loaded _ follows => exact since.follows follows
  | taken _ follows _ =>
    obtain ⟨name, marked, mark, inFile⟩ := since.follows follows
    exact ⟨name, marked, mark, inFile⟩

/-- The run goes back to `point`, where its head was in memory. -/
structure Replays (st : Flat) (point run : Run) : Prop where
  origin : point.Sound st
  valid : point.valid = true
  self : point.Since point
  sound : run.Sound st
  since : point.Since run
  ended : point.rid.pageNo < 0 → run = point

theorem Replays.back_eq (replays : Replays st point run) : point.back run = point := by
  have record : (if 0 ≤ point.rid.pageNo then point.record else run.record) = point.record := by
    split
    · rfl
    · rw [replays.ended (by omega)]
  rw [Run.back, record, replays.since.name, replays.since.marked.trans replays.self.marked.symm,
    replays.since.mark.trans replays.self.mark.symm, ← replays.valid]

theorem Replays.handled (replays : Replays st point run) (handled : run.Handled st run') :
    Replays st point run' := by
  refine ⟨replays.origin, replays.valid, replays.self, handled.sound replays.sound,
    replays.since.handled handled, ?_⟩
  intro ended
  obtain rfl := replays.ended ended
  cases handled with
  | loaded _ follows => exact follows.valid replays.valid
  | taken _ follows present =>
    rw [follows.valid replays.valid] at present
    omega

end Run

namespace SortedFile

theorem restoreRun_spec (origin : point.Sound st) (sound : run.Sound st) (since : point.Since run) :
    Flat.run (restoreRun run) st = some ((.ok, point.back run), st) := by
  obtain ⟨todo, holds⟩ := origin.holds
  obtain ⟨records, rest, cursor⟩ := holds.cursor
  have reset := HeapFileScan.resetScan_back cursor origin.clean since.inFile sound.page
  rw [← since.marked] at reset
  unfold restoreRun Run.back
  rw [Flat.run, run_bind_of _ _ reset]
  simp only [ne_eq, not_true_eq_false, if_false, since.mark]
  by_cases present : 0 ≤ point.rid.pageNo
  · rw [if_pos present, if_pos present, run_bind_of _ _ (origin.getRecord present)]
    rfl
  · rw [if_neg present, if_neg present]
    rfl

variable {sf sf' : SortedFile} {points runs : List Run} {reply : Except Status (List UInt8)}

theorem gotoMarks_spec (origins : ∀ point ∈ points, point.Sound st)
    (sounds : ∀ run ∈ runs, run.Sound st) (since : List.Forall₂ Run.Since points runs) :
    Flat.run (gotoMarks runs) st = some ((.ok, List.zipWith Run.back points runs), st) := by
  induction since with
  | nil => rfl
  | cons head _ ih =>
    rw [List.forall_mem_cons] at origins sounds
    rw [gotoMarks, Flat.run, run_bind_of _ _ (restoreRun_spec origins.1 sounds.1 head)]
    simp only [ne_eq, not_true_eq_false, if_false]
    rw [run_bind_of _ _ (ih origins.2 sounds.2)]
    rfl

/-- Every run goes back to where it was when the mark was set. -/
theorem gotoMark_spec (origins : ∀ point ∈ points, point.Sound st)
    (sounds : ∀ run ∈ sf.runs, run.Sound st) (since : List.Forall₂ Run.Since points sf.runs) :
    Flat.run (gotoMark sf) st =
      some ((.ok, { sf with runs := List.zipWith Run.back points sf.runs }), st) := by
  rw [gotoMark, Flat.run, run_bind_of _ _ (gotoMarks_spec origins sounds since)]
  rfl

theorem zipWith_back (origins : ∀ point ∈ points, point.Sound st)
    (since : List.Forall₂ Run.Since points runs) :
    List.Forall₂ (fun point run => point.Since run ∧ run.Sound st) points
      (List.zipWith Run.back points runs) := by
  induction since with
  | nil => exact .nil
  | cons head _ ih =>
    rw [List.forall_mem_cons] at origins
    exact .cons ⟨head.back, origins.1.back head⟩ (ih origins.2)

theorem next_handles (sounds : ∀ run ∈ sf.runs, run.Sound st)
    (call : Returns Flat.handle (next · sf) st ((reply, sf'), st')) :
    st' = st ∧ (∀ runs, { sf' with runs := runs } = { sf with runs := runs }) ∧
      List.Forall₂ (Run.Handled st) sf.runs sf'.runs := by
  obtain ⟨todos, holds⟩ := exists_right fun run member => (sounds run member).holds
  obtain ⟨runs, settled, follows, spec⟩ := next_spec holds
  obtain ⟨best, chosen, same⟩ := (spec _).mp call
  have handled := and_right follows (forall_left settled)
  cases best with
  | none =>
    cases same
    exact ⟨rfl, fun _ => rfl, handled.imp fun _ _ ⟨follows, todo, settled⟩ => .loaded settled follows⟩
  | some best =>
    obtain ⟨i, rec⟩ := best
    cases same
    refine ⟨rfl, fun _ => rfl, modify_right handled ?_ ?_⟩
    · rintro _ run there ⟨follows, todo, settled⟩
      obtain ⟨_, run', there', present, _⟩ := (chooseAll_mem chosen).resolve_left nofun
      cases there.symm.trans there'
      exact .taken settled follows present
    · exact fun _ _ ⟨follows, todo, settled⟩ => .loaded settled follows

/-! Any calls. -/

/-- The object with the storage that it works on, and whether a mark was set. -/
structure Session where
  store : Flat
  file : SortedFile
  marked : Bool

inductive Call
  | next
  | setMark
  | gotoMark
deriving DecidableEq, Repr

/-- A call that returns. `gotoMark` has a meaning only after `setMark`. -/
inductive Session.Step : Session → Call → Session → Prop
  | next {st st' : Flat} {sf sf' : SortedFile} {marked : Bool} {reply : Except Status (List UInt8)}
      (call : Returns Flat.handle (next · sf) st ((reply, sf'), st')) :
      Step ⟨st, sf, marked⟩ .next ⟨st', sf', marked⟩
  | setMark {st : Flat} {sf : SortedFile} {marked : Bool} :
      Step ⟨st, sf, marked⟩ .setMark ⟨st, sf.setMark, true⟩
  | gotoMark {st st' : Flat} {sf sf' : SortedFile} {status : Status}
      (call : Flat.run (gotoMark sf) st = some ((status, sf'), st')) :
      Step ⟨st, sf, true⟩ .gotoMark ⟨st', sf', true⟩

def Session.Start (s : Session) : Prop :=
  ∃ (files : List (Name × List Entry)) (st : Flat), (∀ file ∈ files, file.1 ≠ []) ∧
    (∀ file ∈ files, Table st file.1 id file.2) ∧
    Flat.run (startScans (files.map Prod.fst)) st = some (.ok s.file.runs, s.store) ∧ s.marked = false

structure Session.Invariant (s : Session) : Prop where
  sounds : ∀ run ∈ s.file.runs, run.Sound s.store
  marked : s.marked = true → ∃ points, (∀ point ∈ points, point.Sound s.store) ∧
    List.Forall₂ Run.Since points s.file.runs

theorem Session.Start.invariant {s : Session} (start : s.Start) : s.Invariant := by
  obtain ⟨files, st, named, tables, started, unmarked⟩ := start
  obtain ⟨runs, st', started', _, holds, clean⟩ := startScans_spec files named tables
  cases started.symm.trans started'
  refine ⟨fun run member => ⟨forall_left holds run member, clean run member⟩, fun marked => ?_⟩
  cases unmarked.symm.trans marked

/-- Every run stays sound, and within reach of its mark. -/
theorem Session.Step.invariant {s t : Session} {call : Call} (step : s.Step call t)
    (invariant : s.Invariant) :
    t.Invariant := by
  cases step with
  | next call =>
    obtain ⟨rfl, _, handled⟩ := next_handles invariant.sounds call
    refine ⟨fun run' member => ?_, fun marked => ?_⟩
    · obtain ⟨run, member', handled⟩ := exists_left handled run' member
      exact handled.sound (invariant.sounds run member')
    · obtain ⟨points, origins, since⟩ := invariant.marked marked
      exact ⟨points, origins, (comp since handled).imp fun _ _ ⟨_, since, handled⟩ =>
        since.handled handled⟩
  | @setMark st sf marked =>
    refine ⟨List.forall_mem_map.mpr fun run member => (invariant.sounds run member).atMark, fun _ => ?_⟩
    refine ⟨sf.runs, invariant.sounds,
      List.forall₂_map_right_iff.mpr (List.forall₂_same.mpr fun run _ => ?_)⟩
    exact .atMark run
  | @gotoMark st st' sf sf' status call =>
    obtain ⟨points, origins, since⟩ := invariant.marked rfl
    cases call.symm.trans (gotoMark_spec origins invariant.sounds since)
    have restored := zipWith_back origins since
    exact ⟨forall_right restored fun _ _ restored => restored.2,
      fun _ => ⟨points, origins, restored.imp fun _ _ restored => restored.1⟩⟩

theorem Session.reachable_invariant {s : Session}
    (reached : Reachable Session.Start Session.Step s) : s.Invariant :=
  reached.invariant (fun _ start => start.invariant) fun _ _ _ invariant step =>
    step.invariant invariant

/-! After a mark. -/

theorem next_settled {todos : List (List Entry)} {best : Option (Nat × List UInt8)}
    (settled : List.Forall₂ (Run.Settled · st) sf.runs todos)
    (chosen : sf.chooseAll none 0 sf.runs = some best) :
    Returns Flat.handle (next · sf) st (sf.handOut sf.runs best, st) := by
  obtain ⟨runs, _, follows, spec⟩ := next_spec (settled.imp fun _ _ settled => settled.holds)
  have valid : ∀ run ∈ sf.runs, run.valid = true := by
    intro run member
    obtain ⟨todo, settled⟩ := forall_left settled run member
    exact settled.valid
  have same : List.Forall₂ Eq sf.runs runs :=
    ((List.forall₂_and_left _ _).mpr ⟨valid, follows⟩).imp fun _ _ ⟨valid, follows⟩ =>
      (follows.valid valid).symm
  rw [List.forall₂_eq_eq_eq] at same
  subst same
  exact (spec _).mpr ⟨best, chosen, rfl⟩

theorem chooseAll_atMark (sf : SortedFile) (smallest : Option (Nat × List UInt8)) (i : Nat)
    (runs others : List Run) :
    { sf with runs := others }.chooseAll smallest i (runs.map Run.atMark) =
      sf.chooseAll smallest i runs := by
  induction runs generalizing smallest i with
  | nil => rfl
  | cons run runs ih =>
    simp only [List.map_cons, chooseAll, ih]
    rfl

theorem nexts_succ_iff {n : Nat} {replies : List (Except Status (List UInt8))} {st'' : Flat}
    {last : SortedFile} (first : Returns Flat.handle (next · sf) st ((reply, sf'), st')) :
    Returns Flat.handle (nexts · (n + 1) sf) st ((reply :: replies, last), st'') ↔
      Returns Flat.handle (nexts · n sf') st' ((replies, last), st'') := by
  have inj : Function.Injective fun r : List (Except Status (List UInt8)) × SortedFile =>
      (reply :: r.1, r.2) := by
    rintro ⟨replies, sf⟩ ⟨replies', sf'⟩ same
    simpa using same
  simp only [nexts]
  rw [Returns.bind_iff first]
  exact @Returns.wrap_iff _ _ _ _ _ _ _ _ _ (replies, last) _ inj

theorem map_atMark_modify (runs : List Run) (i : Nat) :
    (runs.modify i fun run => { run with valid := false }).map Run.atMark =
      (runs.map Run.atMark).modify i fun run => { run with valid := false } := by
  induction runs generalizing i with
  | nil => simp
  | cons run runs ih =>
    cases i with
    | zero => rfl
    | succ i => exact congrArg (run.atMark :: ·) (ih i)

theorem setMark_replays {todos : List (List Entry)} {i : Nat} {rec : List UInt8}
    (settled : List.Forall₂ (Run.Settled · st) runs todos)
    (clean : ∀ run ∈ runs, run.inFile.curDirtyFlag = false)
    (chosen : sf.chooseAll none 0 (runs.map Run.atMark) = some (some (i, rec))) :
    List.Forall₂ (Run.Replays st) (runs.map Run.atMark)
      ((runs.map Run.atMark).modify i fun run => { run with valid := false }) := by
  have self : List.Forall₂ (fun point run => point = run ∧ Run.Replays st point run ∧
    ∃ todo, run.Settled st todo)
      (runs.map Run.atMark) (runs.map Run.atMark) := by
    rw [List.forall₂_same, List.forall_mem_map]
    intro run member
    obtain ⟨todo, settled⟩ := forall_left settled run member
    have sound : run.atMark.Sound st := ⟨⟨todo, settled.holds.atMark⟩, clean run member⟩
    have since : run.atMark.Since run.atMark := ⟨rfl, rfl, rfl, .refl _⟩
    exact ⟨rfl, ⟨sound, settled.valid, since, sound, since, fun _ => rfl⟩, todo, settled.valid,
      settled.holds.atMark⟩
  obtain ⟨_, run, there, present, _⟩ := (chooseAll_mem chosen).resolve_left nofun
  refine modify_right self ?_ fun _ _ replays => replays.2.1
  rintro point _ there' ⟨rfl, replays, todo, settled⟩
  cases there.symm.trans there'
  exact replays.handled (.taken settled (.refl _) present)

theorem zipWith_back_eq (replays : List.Forall₂ (Run.Replays st) points runs) :
    List.zipWith Run.back points runs = points := by
  induction replays with
  | nil => rfl
  | cons head _ ih => rw [List.zipWith_cons_cons, head.back_eq, ih]

theorem gotoMark_back (replays : List.Forall₂ (Run.Replays st) points sf.runs) :
    Flat.run (gotoMark sf) st = some ((.ok, { sf with runs := points }), st) := by
  have origins : ∀ point ∈ points, point.Sound st := by
    intro point member
    obtain ⟨run, replays⟩ := forall_left replays point member
    exact replays.origin
  rw [gotoMark_spec origins (forall_right replays fun _ _ replays => replays.sound)
    (replays.imp fun _ _ replays => replays.since), zipWith_back_eq replays]

structure Session.Returning (file : SortedFile) (st : Flat) (points : List Run) (s : Session) :
    Prop where
  store : s.store = st
  file : ∀ runs, { s.file with runs := runs } = { file with runs := runs }
  replays : List.Forall₂ (Run.Replays st) points s.file.runs

theorem Session.Returning.step {file : SortedFile} {s t : Session} {call : Call}
    (returning : Session.Returning file st points s) (other : call ≠ .setMark)
    (step : s.Step call t) :
    Session.Returning file st points t := by
  obtain ⟨rfl, same, replays⟩ := returning
  have sounds := forall_right replays fun _ _ replays => replays.sound
  cases step with
  | next call =>
    obtain ⟨rfl, same', handled⟩ := next_handles sounds call
    refine ⟨rfl, fun runs => (same' runs).trans (same runs), ?_⟩
    exact (comp replays handled).imp fun _ _ ⟨_, replays, handled⟩ => replays.handled handled
  | setMark => exact absurd rfl other
  | gotoMark call =>
    cases call.symm.trans (gotoMark_back replays)
    refine ⟨rfl, same, List.forall₂_same.mpr fun point member => ?_⟩
    obtain ⟨run, replays⟩ := forall_left replays point member
    exact ⟨replays.origin, replays.valid, replays.self, replays.origin, replays.self, fun _ => rfl⟩

/-- `setMark` after a call of `next` that has returned a record. However `next` and
`gotoMark` are called after it, `gotoMark` leads back to before that record, and
the calls of `next` return it and what came after it. -/
theorem gotoMark_replays {s t : Session} {rec : List UInt8} {sf : SortedFile} {st : Flat}
    (reached : Reachable Session.Start Session.Step s)
    (first : Returns Flat.handle (next · s.file) s.store ((.ok rec, sf), st))
    (later : Reachable (· = ⟨st, sf.setMark, true⟩) (fun s call t => call ≠ .setMark ∧
      s.Step call t) t) :
    ∃ sf', Flat.run (gotoMark t.file) t.store = some ((.ok, sf'), t.store) ∧ ∀ n replies last st',
      Returns Flat.handle (nexts · (n + 1) sf') t.store ((.ok rec :: replies, last), st') ↔
        Returns Flat.handle (nexts · n sf.setMark) st ((replies, last), st') := by
  obtain ⟨sounds, _⟩ := Session.reachable_invariant reached
  obtain ⟨todos, holds⟩ := exists_right fun run member => (sounds run member).holds
  obtain ⟨runs, settled, follows, spec⟩ := next_spec holds
  obtain ⟨best, chosen, same⟩ := (spec _).mp first
  obtain _ | ⟨i, rec⟩ := best
  · cases same
  cases same
  have clean : ∀ run ∈ runs, run.inFile.curDirtyFlag = false := by
    intro run' member'
    obtain ⟨run, member, follows⟩ := exists_left follows run' member'
    exact follows.inFile.clean (sounds run member).clean
  rw [← chooseAll_atMark s.file none 0 runs (runs.map Run.atMark)] at chosen
  have start := setMark_replays settled clean chosen
  rw [← map_atMark_modify] at start
  have returning : Session.Returning s.file s.store (runs.map Run.atMark) t := by
    refine later.invariant ?_ fun _ _ _ returning step => returning.step step.1 step.2
    rintro _ rfl
    exact ⟨rfl, fun _ => rfl, start⟩
  have back := gotoMark_back returning.replays
  rw [returning.file] at back
  have settled' : List.Forall₂ (Run.Settled · s.store) (runs.map Run.atMark) todos :=
    List.forall₂_map_left_iff.mpr (settled.imp fun _ _ settled => ⟨settled.valid, settled.holds.atMark⟩)
  have again := @next_settled s.store { s.file with runs := runs.map Run.atMark } todos _
    settled' chosen
  rw [returning.store]
  refine ⟨_, back, fun n replies last st' => ?_⟩
  rw [nexts_succ_iff again, setMark, ← map_atMark_modify]
  rfl

/-- Two runs of a record each: both are handed out again after the second was taken. -/
theorem gotoMark_replays_taken : ∃ (s t : Session) (sf sf' last : SortedFile) (st st' : Flat),
    Returns Flat.handle (next · s.file) s.store ((.ok [7, 1], sf), st) ∧
      Session.Step ⟨st, sf.setMark, true⟩ .next t ∧
      Flat.run (gotoMark t.file) t.store = some ((.ok, sf'), t.store) ∧
      Returns Flat.handle (nexts · 3 sf') t.store
        (([.ok [7, 1], .ok [8, 2], .error .fileEof], last), st') := by
  obtain ⟨f, rid, first⟩ := exists_single_table .empty (chars "a") [7, 1] (by decide) (by decide)
    (by decide)
  obtain ⟨g, rid', second⟩ := exists_single_table _ (chars "b") [8, 2] (by decide) (by decide)
    (by decide)
  have first := first.congr (Flat.files_put_of_ne g (show chars "a" ≠ chars "b" by decide))
  let files : List (Name × List Entry) := [(chars "a", [(rid, [7, 1])]), (chars "b", [(rid', [8, 2])])]
  have named : ∀ file ∈ files, file.1 ≠ [] := by simp [files, chars]
  have tables : ∀ file ∈ files, Table _ file.1 id file.2 :=
    List.forall_mem_cons.mpr ⟨first, List.forall_mem_singleton.mpr second⟩
  obtain ⟨runs, st, start, _, holds, _⟩ := startScans_spec files named tables
  have reached : Reachable Session.Start Session.Step ⟨st, ⟨runs, .string, 0, 1⟩, false⟩ :=
    .initial ⟨_, _, named, tables, start, rfl⟩
  have defined (sf : SortedFile) (same : sf.type = .string ∧ sf.offset = 0 ∧ sf.length = 1) :
      ∀ a b, Present files a → Present files b → (sf.compare a b).isSome := by
    refine (preorders_string same.1 ?_).defined
    simp [same, Present, files, sortField]
  obtain ⟨_, settled, handed⟩ := @next_merges st ⟨runs, .string, 0, 1⟩ _ _ holds (defined _ (by simp))
    (by simp [Present, files])
  have rest : List.Forall₂ (Run.Holds · st) (List.map Run.atMark _) [[], [(rid', [8, 2])]] :=
    List.forall₂_map_left_iff.mpr ((handedOut_holds (i := 0) settled rfl).imp fun _ _ holds =>
      holds.atMark)
  have left (runs : List Run) : Merge.Merges (greater ⟨runs, .string, 0, 1⟩) [[], [(rid', [8, 2])]]
    [(1, rid', [8, 2])] := .cons rfl (.nil rfl)
  obtain ⟨_, _, taken⟩ := @next_merges st ⟨_, .string, 0, 1⟩ _ _ rest (defined _ (by simp))
    (by simp [Present, files])
  obtain ⟨last, replies⟩ :=
    @nexts_merges st ⟨_, .string, 0, 1⟩ _ _ _ 1 (left _) rest (defined _ (by simp))
    (by simp [Present, files])
  have later : Session.Step ⟨st, _, true⟩ .next _ := .next taken
  obtain ⟨sf', back, replays⟩ :=
    gotoMark_replays reached handed (.next (.initial rfl) ⟨by decide, later⟩)
  exact ⟨⟨st, ⟨runs, .string, 0, 1⟩, false⟩, _, _, sf', last, st, st, handed, later, back,
    (replays 2 _ _ st).mpr replies⟩

end SortedFile
end Minirel
