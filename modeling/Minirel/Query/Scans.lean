import Minirel.Lib.Watch
import Minirel.Query.Lookup

/-! What the statements do when a scan fails. They are watched at every
`scanNext`, and are the programs of the source otherwise. -/
namespace Minirel
open Program

abbrev WatchedProg := Watched StorageCall.Reply

def Status.failing (status : Status) : Bool := status ≠ .ok && status ≠ .fileEof

def HeapFileScan.watchedNext (fuel : Nat) (s : HeapFileScan) :
    WatchedProg (Status × HeapFileScan) := do
  let (status, s) ← s.scanNext fuel
  Watched.check status.failing
  return (status, s)

/-! Erasing gives the programs back. -/

section erase
open Watched (erase_bind erase_check erase_ite erase_pure)

theorem erase_liftM {α : Type} (p : Prog α) : (liftM p : WatchedProg α).erase = p :=
  Watched.erase_lift p

theorem bind_congr_next {α β : Type} {p : Prog α} {f g : α → Prog β}
    (same : ∀ value, f value = g value) :
    p >>= f = p >>= g := congrArg (p >>= ·) (funext same)

theorem HeapFileScan.erase_watchedNext (fuel : Nat) (s : HeapFileScan) :
    (s.watchedNext fuel).erase = s.scanNext fuel := by
  simp only [watchedNext, erase_bind, erase_liftM, erase_check]
  exact bind_done _

theorem erase_selectLoop (projNames : List (Option AttrDesc)) (reclen : Int) (fuel : Nat)
    (s : HeapFileScan) (h : HeapFile) :
    (selectLoopBy HeapFileScan.watchedNext projNames reclen fuel s h).erase =
      selectLoop projNames reclen fuel s h := by
  induction fuel generalizing s h with
  | zero => exact erase_liftM _
  | succ fuel ih =>
    simp only [selectLoopBy, monadLift_self, erase_bind, HeapFileScan.erase_watchedNext]
    refine bind_congr_next fun next => ?_
    simp only [erase_ite, erase_bind, erase_liftM, erase_pure]
    refine congrArg (ite _ _) (bind_congr_next fun found => ?_)
    cases found with
    | error status => rfl
    | ok record =>
      simp only [erase_bind, erase_liftM]
      refine bind_congr_next fun data => bind_congr_next fun result => ?_
      obtain ⟨inserted, h⟩ := result
      cases inserted with
      | error status => rfl
      | ok rid => exact ih next.2 h

theorem erase_scanSelect (fuel : Nat) (result : Name) (projNames : List (Option AttrDesc))
    (filter : Option Filter) (reclen : Int) :
    (scanSelectBy HeapFileScan.watchedNext fuel result projNames filter reclen).erase =
    scanSelect fuel result projNames filter reclen := by
  simp only [scanSelectBy, monadLift_self, erase_bind, erase_liftM]
  refine bind_congr_next fun inserter => ?_
  rcases inserter with _ | h
  · rfl
  rcases projNames with _ | ⟨_ | first, _⟩
  · rfl
  · rfl
  · simp only [erase_bind, erase_liftM]
    refine bind_congr_next fun scan => ?_
    cases scan with
    | error status => rfl
    | ok s => simp only [erase_bind, erase_liftM, erase_ite, erase_pure, erase_selectLoop]

theorem erase_deleteWhile (fuel : Nat) (status : Status) (hfs : HeapFileScan) :
    (deleteWhileBy HeapFileScan.watchedNext fuel status hfs).erase =
      deleteWhile fuel status hfs := by
  induction fuel generalizing status hfs with
  | zero => exact erase_liftM _
  | succ fuel ih =>
    simp only [deleteWhileBy, monadLift_self, erase_ite, erase_bind, HeapFileScan.erase_watchedNext,
      erase_liftM, ih, erase_pure]

theorem erase_quDelete (atof : Name → Nat) (fuel : Nat) (relation attrName : Name) (op : Operator)
    (type : Datatype) (attrValue : Name) :
    (quDeleteBy HeapFileScan.watchedNext atof fuel relation attrName op type attrValue).erase =
    quDelete atof fuel relation attrName op type attrValue := by
  have scan (hfs : HeapFileScan) (filter : Option Filter) :
      (deleteScanBy HeapFileScan.watchedNext fuel hfs filter).erase = deleteScan fuel hfs filter := by
    simp only [deleteScanBy, monadLift_self, erase_bind, erase_liftM, erase_deleteWhile, erase_pure]
  simp only [quDeleteBy, monadLift_self, erase_ite, erase_bind, erase_liftM, erase_pure]
  refine congrArg (ite _ _) (bind_congr_next fun opened => ?_)
  cases opened with
  | error status => rfl
  | ok hfs =>
    simp only [erase_ite, scan, erase_bind, erase_liftM]
    refine congrArg (ite _ _) (bind_congr_next fun info => ?_)
    cases info with
    | error status => rfl
    | ok attrDesc => exact scan ..

theorem erase_innerLoop (descs : List AttrDesc) (reclen : Int) (outer : Name)
    (outerRec : List UInt8) (fuel : Nat) (s : HeapFileScan) (h : HeapFile) :
    (innerLoopBy HeapFileScan.watchedNext descs reclen outer outerRec fuel s h).erase =
      innerLoop descs reclen outer outerRec fuel s h := by
  induction fuel generalizing s h with
  | zero => exact erase_liftM _
  | succ fuel ih =>
    simp only [innerLoopBy, monadLift_self, erase_bind, HeapFileScan.erase_watchedNext]
    refine bind_congr_next fun next => ?_
    simp only [erase_ite, erase_bind, erase_liftM, erase_pure]
    refine congrArg (ite _ _) (bind_congr_next fun found => ?_)
    cases found with
    | error status => rfl
    | ok record =>
      simp only [erase_bind, erase_liftM]
      refine bind_congr_next fun data => bind_congr_next fun result => ?_
      obtain ⟨inserted, h⟩ := result
      cases inserted with
      | error status => rfl
      | ok rid => exact ih next.2 h

theorem erase_outerLoop (descs : List AttrDesc) (reclen : Int) (attrDesc1 attrDesc2 : AttrDesc)
    (myop : Operator) (fuel : Nat) (s : HeapFileScan) (h : HeapFile) :
    (outerLoopBy HeapFileScan.watchedNext descs reclen attrDesc1 attrDesc2 myop fuel s h).erase =
      outerLoop descs reclen attrDesc1 attrDesc2 myop fuel s h := by
  induction fuel generalizing s h with
  | zero => exact erase_liftM _
  | succ fuel ih =>
    simp only [outerLoopBy, monadLift_self, erase_bind, HeapFileScan.erase_watchedNext]
    refine bind_congr_next fun next => ?_
    simp only [erase_ite, erase_bind, erase_liftM, erase_pure]
    refine congrArg (ite _ _) (bind_congr_next fun found => ?_)
    cases found with
    | error status => rfl
    | ok outerRec =>
      simp only [erase_bind, erase_liftM]
      refine bind_congr_next fun scan => ?_
      cases scan with
      | error status => rfl
      | ok innerScan => simp only [erase_ite, erase_bind, erase_liftM, erase_pure, erase_innerLoop, ih]

theorem erase_quNLJoin (fuel : Nat) (result : Name) (projNames : List AttrInfo) (attr1 : AttrInfo)
    (op : Operator) (attr2 : AttrInfo) :
    (quNLJoinBy HeapFileScan.watchedNext fuel result projNames attr1 op attr2).erase =
    quNLJoin fuel result projNames attr1 op attr2 := by
  have scan (descs : List AttrDesc) (attrDesc1 attrDesc2 : AttrDesc) :
      (joinScanBy HeapFileScan.watchedNext fuel result descs attrDesc1 op attrDesc2).erase =
        joinScan fuel result descs attrDesc1 op attrDesc2 := by
    simp only [joinScanBy, monadLift_self, erase_bind, erase_liftM]
    refine bind_congr_next fun inserter => ?_
    cases inserter with
    | error status => rfl
    | ok resultRel =>
      simp only [erase_bind, erase_liftM]
      refine bind_congr_next fun opened => ?_
      cases opened with
      | error status => rfl
      | ok outerScan => simp only [erase_bind, erase_liftM, erase_pure, erase_outerLoop]
  simp only [quNLJoinBy, monadLift_self, erase_ite, erase_bind, erase_liftM, erase_pure]
  refine congrArg (ite _ _) (bind_congr_next fun found => ?_)
  cases found with
  | error status => rfl
  | ok descs =>
    simp only [erase_bind, erase_liftM]
    refine bind_congr_next fun first => ?_
    cases first with
    | error status => rfl
    | ok attrDesc1 =>
      simp only [erase_bind, erase_liftM]
      refine bind_congr_next fun second => ?_
      cases second with
      | error status => rfl
      | ok attrDesc2 => exact scan ..

end erase

/-! After a scan has failed. -/

section after
open Watched (After after_pure after_halt)

theorem HeapFileScan.watchedNext_after (fuel : Nat) (s : HeapFileScan) :
    (s.watchedNext fuel).After fun r => r.1.failing = true := by
  refine After.lift_bind (.of_forall fun ⟨status, s⟩ _ => After.check_bind (fun wrong => ?_)
    fun _ => after_pure _)
  exact wrong

theorem Status.ne_ok_of_failing {status : Status} (failing : status.failing = true) :
    status ≠ .ok := by
  rintro rfl
  cases failing

/-- The loop ends as it does at the end of the file. -/
theorem selectLoop_after (projNames : List (Option AttrDesc)) (reclen : Int) (fuel : Nat)
    (s : HeapFileScan) (h : HeapFile) :
    (selectLoopBy HeapFileScan.watchedNext projNames reclen fuel s h).After fun r =>
      r.1 = .ok := by
  induction fuel generalizing s h with
  | zero => exact after_halt
  | succ fuel ih =>
    refine After.bind (s.watchedNext_after fuel) ?_ ?_
    · rintro ⟨status, s⟩
      refine After.ite (fun _ => after_pure _) fun _ => After.lift_bind (.of_forall fun found _ => ?_)
      cases found with
      | error status => exact after_pure _
      | ok record =>
        refine After.lift_bind
          (.of_forall fun data _ => After.lift_bind (.of_forall fun ⟨inserted, h⟩ _ => ?_))
        cases inserted with
        | error status => exact after_pure _
        | ok rid => exact ih s h
    · rintro ⟨status, s⟩ failing
      rw [Watched.erase_ite, if_pos (Status.ne_ok_of_failing failing)]
      exact rfl

theorem scanSelect_after (fuel : Nat) (result : Name) (projNames : List (Option AttrDesc))
    (filter : Option Filter) (reclen : Int) :
    (scanSelectBy HeapFileScan.watchedNext fuel result projNames filter reclen).After
      (· = .ok) := by
  refine After.lift_bind (.of_forall fun inserter _ => ?_)
  match inserter, projNames with
  | .ok h, some first :: rest =>
    refine After.lift_bind (.of_forall fun scan _ => ?_)
    cases scan with
    | error status => exact after_halt
    | ok s =>
      have ended (r : Status × HeapFileScan × HeapFile) : Watched.After (do
          Watched.lift r.2.1.delete
          Watched.lift (InsertFileScan.delete r.2.2)
          return r.1 : WatchedProg Status) (· = .ok) :=
        After.lift_bind (.of_forall fun _ _ => After.lift_bind (.of_forall fun _ _ => after_pure _))
      apply After.ite
      · intro _
        exact After.bind (show Watched.After (pure _) fun _ => False from after_pure _) ended
          fun _ => False.elim
      · intro _
        refine After.bind (selectLoop_after _ reclen fuel _ h) ended ?_
        rintro ⟨status, s, h⟩ rfl
        simp only [Watched.erase_bind, erase_liftM, ensures_bind]
        exact .of_forall fun _ _ => .of_forall fun _ _ => rfl
  | .ok _, none :: _ => exact after_halt
  | .ok _, [] => exact after_halt
  | .error _, _ => exact after_halt

/-- One more record is deleted, and the statement reports success. -/
theorem quDelete_after (atof : Name → Nat) (fuel : Nat) (relation attrName : Name) (op : Operator)
    (type : Datatype) (attrValue : Name) :
    (quDeleteBy HeapFileScan.watchedNext atof fuel relation attrName op type attrValue).After
      (· = .ok) := by
  have scan (hfs : HeapFileScan) (filter : Option Filter) :
      (deleteScanBy HeapFileScan.watchedNext fuel hfs filter).After (· = .ok) := by
    refine After.bind (Watched.after_of_forall fun _ => trivial)
      (fun hfs => After.lift_bind (.of_forall fun _ _ => after_pure _)) fun hfs _ => ?_
    simp only [Watched.erase_bind, erase_liftM, ensures_bind]
    exact .of_forall fun _ _ => rfl
  refine After.ite (fun _ => after_pure _) fun _ => After.lift_bind (.of_forall fun opened _ => ?_)
  cases opened with
  | error status => exact after_pure _
  | ok hfs =>
    refine After.ite (fun _ => scan hfs none) fun _ => After.lift_bind (.of_forall fun info _ => ?_)
    cases info with
    | error status => exact after_pure _
    | ok attrDesc => exact scan hfs _

theorem outerLoop_ok {attrDesc1 attrDesc2 : AttrDesc} {myop : Operator}
    (accepted : ∀ outerRec innerScan,
      (startInner attrDesc1 attrDesc2 myop outerRec innerScan).1 = .ok)
    (descs : List AttrDesc) (reclen : Int) (fuel : Nat) (s : HeapFileScan) (h : HeapFile) :
    (outerLoop descs reclen attrDesc1 attrDesc2 myop fuel s h).Ensures (.free StorageCall.Reply) ()
      fun r _ => r.1 = .ok := by
  induction fuel generalizing s h with
  | zero => trivial
  | succ fuel ih =>
    simp only [outerLoopBy, monadLift_self, ensures_bind, ensures_ite, ensures_pure]
    refine .of_forall fun next _ => ⟨fun _ => trivial, fun _ => .of_forall fun found _ => ?_⟩
    cases found with
    | error => trivial
    | ok outerRec =>
      simp only [ensures_bind]
      refine .of_forall fun scan _ => ?_
      cases scan with
      | error => trivial
      | ok innerScan =>
        have start := accepted outerRec innerScan
        rcases startInner attrDesc1 attrDesc2 myop outerRec innerScan with ⟨status, innerScan⟩
        simp only [ensures_bind, ensures_ite, ensures_pure]
        exact ⟨fun failed => absurd start failed, fun _ => .of_forall fun r _ => .of_forall
          fun _ _ => ih next.2 r.2⟩

/-- Whether a scan can be started on the inner relation does not depend on the
outer record. -/
theorem startInner_uniform {attrDesc1 attrDesc2 : AttrDesc} {myop : Operator}
    {outerRec : List UInt8} {s : HeapFileScan}
    (ok : (startInner attrDesc1 attrDesc2 myop outerRec s).1 = .ok) (outerRec' : List UInt8)
    (s' : HeapFileScan) :
    (startInner attrDesc1 attrDesc2 myop outerRec' s').1 = .ok := by
  simp only [startInner] at ok ⊢
  cases known : datatypeOf? attrDesc2.attrType with
  | none => simp [known] at ok
  | some type =>
    simp only [known, HeapFileScan.startScan] at ok ⊢
    split at ok
    next accepted =>
      have same : (attrDesc2.filter type (outerRec'.drop attrDesc1.attrOffset.toNat)
        myop).accepted = true := accepted
      rw [if_pos same]
    next => cases ok

theorem outerLoop_after (descs : List AttrDesc) (reclen : Int) (attrDesc1 attrDesc2 : AttrDesc)
    (myop : Operator) (fuel : Nat) (s : HeapFileScan) (h : HeapFile) :
    (outerLoopBy HeapFileScan.watchedNext descs reclen attrDesc1 attrDesc2 myop fuel s h).After
      fun r => r.1 = .ok := by
  induction fuel generalizing s h with
  | zero => exact after_halt
  | succ fuel ih =>
    refine After.bind (s.watchedNext_after fuel) ?_ ?_
    · rintro ⟨status, s⟩
      refine After.ite (fun _ => after_pure _) fun _ => After.lift_bind (.of_forall fun found _ => ?_)
      cases found with
      | error status => exact after_halt
      | ok outerRec =>
        refine After.lift_bind (.of_forall fun scan _ => ?_)
        cases scan with
        | error status => exact after_halt
        | ok innerScan =>
          apply After.ite
          · intro _
            exact After.lift_bind (.of_forall fun _ _ => after_pure _)
          · intro started
            -- the outer loop goes on behind an inner scan that failed
            have accepted := startInner_uniform (Decidable.not_not.mp started)
            refine After.bind (Watched.after_of_forall fun _ => trivial)
              (fun r => After.lift_bind (.of_forall fun _ _ => ih s r.2)) fun r _ => ?_
            simp only [Watched.erase_bind, erase_liftM, ensures_bind, erase_outerLoop]
            exact .of_forall fun _ _ => outerLoop_ok accepted descs reclen fuel s r.2
    · rintro ⟨status, s⟩ failing
      rw [Watched.erase_ite, if_pos (Status.ne_ok_of_failing failing)]
      exact rfl

theorem quNLJoin_after (fuel : Nat) (result : Name) (projNames : List AttrInfo) (attr1 : AttrInfo)
    (op : Operator) (attr2 : AttrInfo) :
    (quNLJoinBy HeapFileScan.watchedNext fuel result projNames attr1 op attr2).After
      (· = .ok) := by
  have scan (descs : List AttrDesc) (attrDesc1 attrDesc2 : AttrDesc) :
      (joinScanBy HeapFileScan.watchedNext fuel result descs attrDesc1 op attrDesc2).After
        (· = .ok) := by
    refine After.lift_bind (.of_forall fun inserter _ => ?_)
    cases inserter with
    | error status => exact after_halt
    | ok resultRel =>
      refine After.lift_bind (.of_forall fun opened _ => ?_)
      cases opened with
      | error status => exact after_halt
      | ok outerScan =>
        refine After.bind (outerLoop_after ..)
          (fun r => After.lift_bind
            (.of_forall fun _ _ => After.lift_bind (.of_forall fun _ _ => after_pure _))) ?_
        rintro ⟨status, s, h⟩ rfl
        simp only [Watched.erase_bind, erase_liftM, ensures_bind]
        exact .of_forall fun _ _ => .of_forall fun _ _ => rfl
  refine After.ite (fun _ => after_pure _) fun _ => After.lift_bind (.of_forall fun found _ => ?_)
  cases found with
  | error status => exact after_pure _
  | ok descs =>
    refine After.lift_bind (.of_forall fun first _ => ?_)
    cases first with
    | error status => exact after_pure _
    | ok attrDesc1 =>
      refine After.lift_bind (.of_forall fun second _ => ?_)
      cases second with
      | error status => exact after_pure _
      | ok attrDesc2 => exact scan descs attrDesc1 attrDesc2

end after

/-- The calls that scan relations. -/
inductive Statement
  | scanSelect (result : Name) (projNames : List (Option AttrDesc)) (filter : Option Filter)
      (reclen : Int)
  | quNLJoin (result : Name) (projNames : List AttrInfo) (attr1 : AttrInfo) (op : Operator)
      (attr2 : AttrInfo)
  | quDelete (relation attrName : Name) (op : Operator) (type : Datatype) (attrValue : Name)

namespace Statement
variable (atof : Name → Nat) (fuel : Nat)

def prog : Statement → Prog Status
  | .scanSelect result projNames filter reclen => Minirel.scanSelect fuel result projNames filter reclen
  | .quNLJoin result projNames attr1 op attr2 => Minirel.quNLJoin fuel result projNames attr1 op attr2
  | .quDelete relation attrName op type attrValue =>
    Minirel.quDelete atof fuel relation attrName op type attrValue

def watched : Statement → WatchedProg Status
  | .scanSelect result projNames filter reclen =>
    scanSelectBy HeapFileScan.watchedNext fuel result projNames filter reclen
  | .quNLJoin result projNames attr1 op attr2 =>
    quNLJoinBy HeapFileScan.watchedNext fuel result projNames attr1 op attr2
  | .quDelete relation attrName op type attrValue =>
    quDeleteBy HeapFileScan.watchedNext atof fuel relation attrName op type attrValue

theorem erase_watched (statement : Statement) :
    (statement.watched atof fuel).erase = statement.prog atof fuel := by
  cases statement with
  | scanSelect => exact erase_scanSelect ..
  | quNLJoin => exact erase_quNLJoin ..
  | quDelete => exact erase_quDelete ..

theorem watched_after (statement : Statement) : (statement.watched atof fuel).After (· = .ok) := by
  cases statement with
  | scanSelect result projNames filter reclen =>
    exact scanSelect_after fuel result projNames filter reclen
  | quNLJoin result projNames attr1 op attr2 =>
    exact quNLJoin_after fuel result projNames attr1 op attr2
  | quDelete relation attrName op type attrValue =>
    exact quDelete_after atof fuel relation attrName op type attrValue

section run
variable {σ : Type} (handle : Handler StorageCall.Reply σ)

/-- A `scanNext` of the statement fails, and this is what is left to run. -/
def FailsAt (statement : Statement) (s : σ) (rest : Prog Status) (t : σ) : Prop :=
  run handle (statement.watched atof fuel).prog s = some (.failed rest, t)

def Modifies : StorageCall → Prop
  | .store _ _ (.data _) => True
  | _ => False

/-- Wherever a scan fails, the statement returns an error, and a deletion changes
no record any more. -/
def Reports (statement : Statement) (s : σ) : Prop :=
  ∀ rest t, statement.FailsAt atof fuel handle s rest t →
    (∃ status u, run handle (statement.prog atof fuel) s = some (status, u) ∧ status ≠ .ok) ∧
    (∀ relation attrName op type attrValue, statement = .quDelete relation attrName op type attrValue →
      ∀ c ∈ rest.calls handle t, ¬ Modifies c)

/-- In any environment a statement reports a failed scan exactly if none fails. -/
theorem reports_iff (statement : Statement) (s : σ) :
    statement.Reports atof fuel handle s ↔
      ∀ rest t, ¬ statement.FailsAt atof fuel handle s rest t := by
  constructor
  · intro reports rest t failed
    obtain ⟨⟨status, u, returned, bad⟩, _⟩ := reports rest t failed
    rw [← erase_watched, Watched.run_erase failed] at returned
    exact bad ((watched_after atof fuel statement).of_run failed returned)
  · intro none rest t failed
    exact absurd failed (none rest t)

end run

def lossy (name : Name) (pageNo : Int) : Handler StorageCall.Reply Flat
  | .readPage file n, s =>
    if file = name ∧ n = pageNo then some (.unixErr, s) else Flat.handle (.readPage file n) s
  | c, s => Flat.handle c s

/-- A relation of two pages with a record on each, and an empty one. -/
def twoRecords : Flat :=
  let first := match (firstDataPage .empty).insertRecord (.ofBytes [7]) with
    | .ok (_, page) => page.setNextPage 3
    | .error _ => firstDataPage .empty
  let second := match ((firstDataPage .empty).init 3).insertRecord (.ofBytes [8]) with
    | .ok (_, page) => page.setNextPage (-1)
    | .error _ => firstDataPage .empty
  let file := { newFile .empty with numPages := 4 }.set 1 (.header ⟨2, 3, 2, 2⟩)
  (Flat.empty.put (chars "r") ((file.set 2 (.data first)).set 3 (.data second))).put (chars "s")
    (newFile .empty)

def recordsOf (st : Flat) (name : Name) : Option Int :=
  (st.files name).bind fun f => match f.page f.firstPage with
    | .header hdr => some hdr.recCnt
    | .data _ => none

/-- A second page that cannot be read is taken for the end of the relation: the
selection succeeds with one record of the two. A deletion crashes on it. -/
theorem unread_page_ignored :
    let select := Statement.scanSelect (chars "s") [some ⟨chars "r", chars "a", 0, 0, 1⟩] none 1
    let delete := Statement.quDelete (chars "r") [] .eq .string []
    let handle := lossy (chars "r") 3
    (∃ st, Flat.run (select.prog (fun _ => 0) 5) twoRecords = some (.ok, st) ∧
      recordsOf st (chars "s") = some 2) ∧
    (∃ st, run handle (select.prog (fun _ => 0) 5) twoRecords = some (.ok, st) ∧
      recordsOf st (chars "s") = some 1) ∧
    ¬ select.Reports (fun _ => 0) 5 handle twoRecords ∧
      ¬ delete.Reports (fun _ => 0) 5 handle twoRecords := by
  refine ⟨⟨_, rfl, rfl⟩, ⟨_, rfl, rfl⟩, fun reports => ?_, fun reports => ?_⟩
  · obtain ⟨⟨status, st, returned, bad⟩, _⟩ := reports _ _ rfl
    cases returned
    exact bad rfl
  · obtain ⟨⟨status, st, returned, bad⟩, _⟩ := reports _ _ rfl
    cases returned

end Statement
end Minirel
