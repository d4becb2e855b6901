import Minirel.HeapFile.Growth
import Minirel.HeapFile.Table
import Minirel.Lib.Contract
import Minirel.SortedFile

/-! What `next` does to the runs: the heads that are missing are fetched, and the
rest is a function of the heads. -/
namespace Minirel
open Program

/-! Scans that move. -/

structure HeapFileScan.Moved (s t : HeapFileScan) : Prop where
  filePtr : t.filePtr = s.filePtr
  headerPageNo : t.headerPageNo = s.headerPageNo
  hdrDirtyFlag : t.hdrDirtyFlag = s.hdrDirtyFlag
  filter : t.filter = s.filter
  clean : s.curDirtyFlag = false → t.curDirtyFlag = false

namespace HeapFileScan.Moved
variable {s t u : HeapFileScan}

theorem refl (s : HeapFileScan) : s.Moved s := ⟨rfl, rfl, rfl, rfl, id⟩

theorem trans (first : s.Moved t) (second : t.Moved u) : s.Moved u :=
  ⟨second.filePtr.trans first.filePtr, second.headerPageNo.trans first.headerPageNo,
    second.hdrDirtyFlag.trans first.hdrDirtyFlag, second.filter.trans first.filter,
    second.clean ∘ first.clean⟩

end HeapFileScan.Moved

namespace HeapFileScan

theorem nextPages_moved (fuel : Nat) (s : HeapFileScan) :
    (nextPages fuel s).Ensures (.free StorageCall.Reply) () fun r _ => s.Moved r.2 := by
  induction fuel generalizing s with
  | zero => trivial
  | succ fuel ih =>
    simp only [nextPages, ensures_bind, ensures_ite, ensures_pure]
    refine .of_forall fun page _ =>
      ⟨fun _ => .refl s, fun _ => .of_forall fun status _ => ⟨fun _ => ?_, fun _ => ?_⟩⟩
    · exact ⟨rfl, rfl, rfl, rfl, id⟩
    refine .of_forall fun status _ =>
      ⟨fun _ => ⟨rfl, rfl, rfl, rfl, fun _ => rfl⟩, fun _ => .of_forall fun page _ => ?_⟩
    cases page.firstRecord with
    | ok rid => exact ⟨rfl, rfl, rfl, rfl, fun _ => rfl⟩
    | error status =>
      exact (ih _).mono fun r _ moved =>
        ⟨moved.filePtr, moved.headerPageNo, moved.hdrDirtyFlag, moved.filter, fun _ => moved.clean rfl⟩

theorem scanLoop_moved (fuel : Nat) (s : HeapFileScan) :
    (scanLoop fuel s).Ensures (.free StorageCall.Reply) () fun r _ => s.Moved r.2 := by
  induction fuel generalizing s with
  | zero => trivial
  | succ fuel ih =>
    have advanced : (advance fuel s).Ensures (.free StorageCall.Reply) () fun r _ => s.Moved r.2 := by
      simp only [advance, ensures_bind]
      refine .of_forall fun page _ => ?_
      cases page.nextRecord s.curRec with
      | ok rid => exact ⟨rfl, rfl, rfl, rfl, id⟩
      | error status => exact nextPages_moved fuel s
    simp only [scanLoop, ensures_bind, ensures_ite, ensures_pure]
    refine advanced.mono fun r _ moved => ⟨fun _ => moved, fun _ => .of_forall fun page _ => ?_⟩
    obtain ⟨status, t⟩ := r
    cases page.getRecord t.curRec with
    | error status => exact moved
    | ok rec =>
      simp only [ensures_ite, ensures_pure]
      exact ⟨fun _ => moved, fun _ => (ih t).mono fun r _ moved' => moved.trans moved'⟩

theorem firstPage_moved (s : HeapFileScan) :
    s.firstPage.Ensures (.free StorageCall.Reply) () fun r _ => s.Moved r.2 := by
  simp only [firstPage, ensures_bind, ensures_ite, ensures_pure]
  refine .of_forall fun hdr _ =>
    ⟨fun _ => ⟨rfl, rfl, rfl, rfl, id⟩, fun _ => .of_forall fun status _ =>
    ⟨fun _ => ⟨rfl, rfl, rfl, rfl, fun _ => rfl⟩, fun _ => .of_forall fun page _ => ?_⟩⟩
  cases page.firstRecord with
  | ok rid =>
    simp only [ensures_bind]
    refine .of_forall fun page _ => ?_
    cases page.getRecord rid with
    | ok rec => exact ⟨rfl, rfl, rfl, rfl, fun _ => rfl⟩
    | error status => exact ⟨rfl, rfl, rfl, rfl, fun _ => rfl⟩
  | error status =>
    simp only [ensures_bind, ensures_ite, ensures_pure]
    exact .of_forall fun status _ =>
      ⟨fun _ => ⟨rfl, rfl, rfl, rfl, fun _ => rfl⟩, fun _ => ⟨rfl, rfl, rfl, rfl, fun _ => rfl⟩⟩

theorem scanNext_moved (fuel : Nat) (s : HeapFileScan) :
    (s.scanNext fuel).Ensures (.free StorageCall.Reply) () fun r _ => s.Moved r.2 := by
  simp only [scanNext, ensures_bind, ensures_ite, ensures_pure]
  refine ⟨fun _ => .refl s, fun _ => ⟨fun _ => ?_, fun _ => scanLoop_moved fuel s⟩⟩
  refine (firstPage_moved s).mono fun r _ moved => ?_
  obtain ⟨status, t⟩ := r
  cases status with
  | some status => exact moved
  | none => exact (scanLoop_moved fuel t).mono fun r _ moved' => moved.trans moved'

theorem moved_of_scanNext {s t : HeapFileScan} {st st' : Flat} {status : Status}
    (returns : Returns Flat.handle (scanNext · s) st ((status, t), st')) : s.Moved t := by
  obtain ⟨bound, runs⟩ := returns
  exact (scanNext_moved bound s).sound_free (runs bound (Nat.le_refl _))

theorem new_clean (name : Name) :
    (HeapFileScan.new name).Ensures (.free StorageCall.Reply) () fun r _ =>
      ∀ s, r = .ok s → s.curDirtyFlag = false := by
  have object : (HeapFile.new name).Ensures (.free StorageCall.Reply) () fun r _ =>
      ∀ h, r = .ok h → h.curDirtyFlag = false := by
    simp only [HeapFile.new, ensures_bind, ensures_ite, ensures_pure]
    refine .of_forall fun status _ =>
      ⟨fun _ _ opened => (by cases opened), fun _ => .of_forall fun first _ => ?_⟩
    cases first with
    | error status => trivial
    | ok headerPageNo =>
      simp only [ensures_bind, ensures_ite, ensures_pure]
      refine .of_forall fun status _ =>
        ⟨fun _ => trivial, fun _ => .of_forall fun hdr _ => .of_forall fun status _ => ?_⟩
      rintro _ ⟨⟩
      rfl
  simp only [HeapFileScan.new, ensures_bind]
  refine object.mono fun r _ clean => ?_
  cases r with
  | error status =>
    rw [ensures_pure]
    rintro _ ⟨⟩
  | ok h =>
    rw [ensures_pure]
    rintro _ ⟨⟩
    exact clean h rfl

end HeapFileScan

/-! One run. -/

namespace Run
variable {st : Flat} {run run' : Run} {todo : List Entry}

/-- What is left of a run. Its scan has returned nothing yet, the record that was
handed out last, or the record in memory; or the run counts as ended. -/
inductive Holds (run : Run) (st : Flat) : List Entry → Prop
  | fresh {records todo : List Entry} (valid : run.valid = false) (rid : run.rid.pageNo < 0)
      (cursor : Cursor run.inFile st run.name id records todo) : Holds run st todo
  | taken {records todo : List Entry} {e : Entry} (valid : run.valid = false)
      (on : CursorOn run.inFile st run.name id records e todo) (rid : run.rid = e.1)
      (record : run.record = e.2) :
      Holds run st todo
  | loaded {records todo : List Entry} {e : Entry} (valid : run.valid = true)
      (on : CursorOn run.inFile st run.name id records e todo) (rid : run.rid = e.1)
      (record : run.record = e.2) :
      Holds run st (e :: todo)
  | ended {records rest : List Entry} (valid : run.valid = true) (rid : run.rid.pageNo < 0)
      (cursor : Cursor run.inFile st run.name id records rest) : Holds run st []

theorem Holds.cursor (holds : run.Holds st todo) :
    ∃ records rest, Cursor run.inFile st run.name id records rest := by
  cases holds with
  | fresh _ _ cursor => exact ⟨_, _, cursor⟩
  | taken _ on _ _ => exact ⟨_, _, on.cursor⟩
  | loaded _ on _ _ => exact ⟨_, _, on.cursor⟩
  | ended _ _ cursor => exact ⟨_, _, cursor⟩

theorem Holds.pending (holds : run.Holds st todo) (valid : run.valid = false) :
    ∃ records, Cursor run.inFile st run.name id records todo := by
  cases holds with
  | fresh _ _ cursor => exact ⟨_, cursor⟩
  | taken _ on _ _ => exact ⟨_, on.cursor⟩
  | loaded valid' _ _ _ => cases valid.symm.trans valid'
  | ended valid' _ _ => cases valid.symm.trans valid'

structure Settled (run : Run) (st : Flat) (todo : List Entry) : Prop where
  valid : run.valid = true
  holds : run.Holds st todo

theorem Settled.ended (settled : run.Settled st []) : run.rid.pageNo < 0 := by
  cases settled.holds with
  | fresh valid _ _ => cases valid.symm.trans settled.valid
  | taken valid _ _ _ => cases valid.symm.trans settled.valid
  | ended _ rid _ => exact rid

theorem Settled.loaded {e : Entry} (settled : run.Settled st (e :: todo)) :
    0 ≤ run.rid.pageNo ∧ run.record = e.2 ∧ { run with valid := false }.Holds st todo := by
  cases settled.holds with
  | fresh valid _ _ => cases valid.symm.trans settled.valid
  | taken valid _ _ _ => cases valid.symm.trans settled.valid
  | loaded _ on rid record =>
    have positive := on.pageNo_pos
    rw [← rid] at positive
    exact ⟨by omega, record, .taken rfl on rid record⟩

structure Follows (run run' : Run) : Prop where
  valid : run.valid = true → run' = run
  name : run'.name = run.name
  marked : run'.marked = run.marked
  mark : run'.mark = run.mark
  inFile : run.inFile.Moved run'.inFile

theorem Follows.refl (run : Run) : run.Follows run := ⟨fun _ => rfl, rfl, rfl, rfl, .refl _⟩

end Run

namespace SortedFile
variable {st : Flat} {run : Run} {todo : List Entry}

theorem loadHead_steady (run : Run) : Steady Flat.handle (loadHead · run) := by
  intro fuel
  unfold loadHead
  refine .ite (.refl _) (.bind (HeapFileScan.scanNext_steady _ fuel) fun r => .refl _)

/-- The head of a run is in memory afterwards, or the run has ended. -/
theorem loadHead_spec (holds : run.Holds st todo) :
    ∃ run', Returns Flat.handle (loadHead · run) st ((.ok, run'), st) ∧ run'.Settled st todo ∧
      run.Follows run' := by
  cases valid : run.valid with
  | true =>
    refine ⟨run, ⟨0, fun fuel _ => ?_⟩, ⟨valid, holds⟩, .refl run⟩
    simp only [loadHead, if_pos valid]
    rfl
  | false =>
    obtain ⟨records, cursor⟩ := holds.pending valid
    have invalid : ¬run.valid = true := by simp [valid]
    simp only [loadHead, if_neg invalid]
    cases todo with
    | nil =>
      obtain ⟨t, scan, cursor'⟩ := cursor.eof
      exact ⟨_, .bind scan (.of_run rfl), ⟨rfl, .ended rfl (show (-1 : Int) < 0 by decide) cursor'⟩,
        fun valid' => absurd valid' invalid, rfl, rfl, rfl, HeapFileScan.moved_of_scanNext scan⟩
    | cons e todo =>
      obtain ⟨t, scan, on⟩ := cursor.next
      exact ⟨_, .bind scan (.after on.getRecord (.of_run rfl)), ⟨rfl, .loaded rfl on on.curRec rfl⟩,
        fun valid' => absurd valid' invalid, rfl, rfl, rfl, HeapFileScan.moved_of_scanNext scan⟩

/-! All runs. -/

theorem startScans_spec (files : List (Name × List Entry)) (named : ∀ file ∈ files, file.1 ≠ [])
    (tables : ∀ file ∈ files, Table st file.1 id file.2) :
    ∃ runs st', Flat.run (startScans (files.map Prod.fst)) st = some (.ok runs, st') ∧
      st'.files = st.files ∧ List.Forall₂ (Run.Holds · st') runs (files.map Prod.snd) ∧
        ∀ run ∈ runs, run.inFile.curDirtyFlag = false := by
  induction files generalizing st with
  | nil =>
    refine ⟨[], st, rfl, rfl, .nil, ?_⟩
    simp
  | cons file files ih =>
    rw [List.forall_mem_cons] at named tables
    obtain ⟨s, new, fresh, cursor⟩ := tables.1.open named.1
    have clean := (HeapFileScan.new_clean file.1).sound_free new s rfl
    obtain ⟨runs, st', rest, same, holds, allClean⟩ :=
      @ih (st.opened file.1) named.2 fun file member => (tables.2 file member).congr rfl
    have cursor' := cursor.congr (congrFun same file.1)
    refine ⟨⟨file.1, s, false, [], ⟨-1, -1⟩, ⟨0, nullRid⟩, nullRid⟩ :: runs, st', ?_, same,
      .cons (.fresh rfl (show (-1 : Int) < 0 by decide) cursor') holds,
      List.forall_mem_cons.mpr ⟨clean, allClean⟩⟩
    rw [List.map_cons, startScans, Flat.run, run_bind_of _ _ new]
    simp only [Cursor.startScan_none fresh, ne_eq, not_true_eq_false, if_false]
    rw [run_bind_of _ _ rest]
    rfl

def chooseAll (sf : SortedFile) :
    Option (Nat × List UInt8) → Nat → List Run → Option (Option (Nat × List UInt8))
  | smallest, _, [] => some smallest
  | smallest, i, run :: runs =>
    match sf.choose smallest i run with
    | none => none
    | some smallest => sf.chooseAll smallest (i + 1) runs

def handOut (sf : SortedFile) (runs : List Run) :
    Option (Nat × List UInt8) → Except Status (List UInt8) × SortedFile
  | none => (.error .fileEof, { sf with runs := runs })
  | some (i, rec) => (.ok rec,
      { sf with runs := runs.modify i fun run => { run with valid := false } })

variable {sf : SortedFile} {runs : List Run} {todos : List (List Entry)}

theorem findSmallest_steady (sf : SortedFile) (smallest : Option (Nat × List UInt8)) (i : Nat)
    (runs : List Run) :
    Steady Flat.handle (findSmallest · sf smallest i runs) := by
  induction runs generalizing smallest i with
  | nil => exact fun _ => .refl _
  | cons run runs ih =>
    intro fuel
    refine .bind (loadHead_steady run fuel) fun ⟨status, run⟩ => .ite (.refl _) ?_
    show Within Flat.handle (match sf.choose smallest i run with | none => _ | some smallest => _) _
    cases sf.choose smallest i run with
    | none => exact .refl _
    | some smallest => exact .bind (ih smallest (i + 1) fuel) fun r => .refl _

theorem findSmallest_spec (sf : SortedFile) (holds : List.Forall₂ (Run.Holds · st) runs todos) :
    ∃ runs', List.Forall₂ (Run.Settled · st) runs' todos ∧ List.Forall₂ Run.Follows runs runs' ∧
      ∀ smallest i r, Returns Flat.handle (findSmallest · sf smallest i runs) st r ↔
        ∃ best, sf.chooseAll smallest i runs' = some best ∧ r = ((.ok, best, runs'), st) := by
  induction holds with
  | nil =>
    refine ⟨[], .nil, .nil, fun smallest i r => ⟨fun returns => ⟨smallest, rfl, ?_⟩, ?_⟩⟩
    · exact returns.unique (.of_run rfl)
    · rintro ⟨_, ⟨⟩, rfl⟩
      exact .of_run rfl
  | @cons run todo runs todos head _ ih =>
    obtain ⟨run', load, settled, follows⟩ := loadHead_spec head
    obtain ⟨runs', allSettled, allFollow, spec⟩ := ih
    refine ⟨run' :: runs', .cons settled allSettled, .cons follows allFollow, fun smallest i r => ?_⟩
    simp only [findSmallest]
    rw [Returns.bind_iff load]
    simp only [chooseAll, ne_eq, not_true_eq_false, if_false]
    cases sf.choose smallest i run' with
    | none =>
      constructor
      · rintro ⟨bound, returned⟩
        cases returned bound (Nat.le_refl _)
      · rintro ⟨_, ⟨⟩, _⟩
    | some smallest =>
      constructor
      · intro returns
        obtain ⟨_, _, rest, last⟩ := (findSmallest_steady sf smallest (i + 1) runs).split returns
        obtain ⟨best, chosen, same⟩ := (spec smallest (i + 1) _).mp rest
        cases same
        exact ⟨best, chosen, last.unique (.of_run rfl)⟩
      · rintro ⟨best, chosen, rfl⟩
        exact .bind ((spec smallest (i + 1) _).mpr ⟨best, chosen, rfl⟩) (.of_run rfl)

/-- The smallest of the heads is handed out. -/
theorem next_spec (holds : List.Forall₂ (Run.Holds · st) sf.runs todos) :
    ∃ runs, List.Forall₂ (Run.Settled · st) runs todos ∧ List.Forall₂ Run.Follows sf.runs runs ∧
      ∀ r, Returns Flat.handle (next · sf) st r ↔
        ∃ best, sf.chooseAll none 0 runs = some best ∧ r = (sf.handOut runs best, st) := by
  obtain ⟨runs, settled, follows, spec⟩ := findSmallest_spec sf holds
  refine ⟨runs, settled, follows, fun r => ?_⟩
  by_cases empty : sf.runs.length ≤ 0
  · have noRuns : sf.runs = [] := by simpa using empty
    obtain rfl : runs = [] := by simpa [noRuns] using follows
    have returns : Returns Flat.handle (next · sf) st (sf.handOut [] none, st) := by
      refine ⟨0, fun fuel _ => ?_⟩
      simp only [next, if_pos empty, handOut, ← noRuns]
      rfl
    constructor
    · exact fun returns' => ⟨_, rfl, returns'.unique returns⟩
    · rintro ⟨_, ⟨⟩, rfl⟩
      exact returns
  · simp only [next, if_neg empty]
    constructor
    · intro returns
      obtain ⟨_, _, first, last⟩ := (findSmallest_steady sf none 0 sf.runs).split returns
      obtain ⟨best, chosen, same⟩ := (spec none 0 _).mp first
      cases same
      refine ⟨best, chosen, ?_⟩
      cases best with
      | none => exact last.unique (.of_run rfl)
      | some best => exact last.unique (.of_run rfl)
    · rintro ⟨best, chosen, rfl⟩
      refine .bind ((spec none 0 _).mpr ⟨best, chosen, rfl⟩) ?_
      cases best with
      | none => exact .of_run rfl
      | some best => exact .of_run rfl

theorem choose_cases {smallest best : Option (Nat × List UInt8)} {i : Nat}
    (chosen : sf.choose smallest i run = some best) :
    best = smallest ∨ 0 ≤ run.rid.pageNo ∧ best = some (i, run.record) := by
  unfold choose at chosen
  split at chosen
  · exact .inl (Option.some.inj chosen).symm
  · rename_i present
    cases smallest with
    | none => exact .inr ⟨by omega, (Option.some.inj chosen).symm⟩
    | some old =>
      obtain ⟨c, _, rfl⟩ := Option.map_eq_some_iff.mp chosen
      split
      · exact .inr ⟨by omega, rfl⟩
      · exact .inl rfl

theorem chooseAll_mem {smallest : Option (Nat × List UInt8)} {i k : Nat} {rec : List UInt8}
    (chosen : sf.chooseAll smallest k runs = some (some (i, rec))) :
    smallest = some (i, rec) ∨
      k ≤ i ∧ ∃ run, runs[i - k]? = some run ∧ 0 ≤ run.rid.pageNo ∧ run.record = rec := by
  induction runs generalizing smallest k with
  | nil => exact .inl (Option.some.inj chosen)
  | cons run runs ih =>
    simp only [chooseAll] at chosen
    cases choice : sf.choose smallest k run with
    | none =>
      rw [choice] at chosen
      cases chosen
    | some best =>
      rw [choice] at chosen
      rcases ih chosen with rfl | ⟨low, run', there, rest⟩
      · rcases choose_cases choice with old | ⟨present, new⟩
        · exact .inl old.symm
        · cases new
          exact .inr ⟨Nat.le_refl _, run, by simp, present, rfl⟩
      · refine .inr ⟨by omega, run', ?_, rest⟩
        rw [show i - k = i - (k + 1) + 1 by omega, List.getElem?_cons_succ]
        exact there

theorem handedOut_holds {i : Nat} {e : Entry} {rest : List Entry}
    (settled : List.Forall₂ (Run.Settled · st) runs todos) (there : todos[i]? = some (e :: rest)) :
    List.Forall₂ (Run.Holds · st) (runs.modify i fun run => { run with valid := false })
      (todos.modify i List.tail) := by
  induction settled generalizing i with
  | nil => simp at there
  | @cons run todo runs todos head tail ih =>
    cases i with
    | zero =>
      obtain rfl : todo = e :: rest := by simpa using there
      exact .cons head.loaded.2.2 (tail.imp fun _ _ settled => settled.holds)
    | succ i => exact .cons head.holds (ih there)

/-- So many calls of `next`, with their results. -/
def nexts (fuel : Nat) : Nat → SortedFile → Prog (List (Except Status (List UInt8)) × SortedFile)
  | 0, sf => return ([], sf)
  | n + 1, sf => do
    let (reply, sf) ← next fuel sf
    let (replies, sf) ← nexts fuel n sf
    return (reply :: replies, sf)

end SortedFile
end Minirel
