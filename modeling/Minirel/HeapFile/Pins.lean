import Mathlib.Algebra.Group.Pi.Basic
import Mathlib.Algebra.Group.Int.Defs
import Minirel.HeapFile.Contract
import Minirel.Lib.Transition

/-! The pins that heap-file objects hold, when calls of the buffer manager may
fail. -/
namespace Minirel
open Transition Program Function Storage

/-- The pins an object has taken on each page, less those it has released. -/
abbrev Pins := Name × Int → Int

namespace Pins

def one (page : Name × Int) : Pins := Pi.single page 1

def account : (c : StorageCall) → Pins → c.Reply → Pins
  | .readPage file pageNo, pins, status => if status = .ok then pins + one (file, pageNo) else pins
  | .allocPage file, pins, .ok pageNo => pins + one (file, pageNo)
  | .unPinPage file pageNo _, pins, status => if status = .ok then pins - one (file, pageNo) else pins
  | _, pins, _ => pins

def faulty : Contract StorageCall.Reply Pins := ⟨fun _ _ _ => True, account⟩

/-- Pins are released without fail, and if `reading` pages are read so as well. -/
def sure (reading : Prop) : Contract StorageCall.Reply Pins where
  admits
    | .unPinPage _ _ _, _, status => status = .ok
    | .readPage _ _, _, status => reading → status = .ok
    | _, _, _ => True
  next := account

variable {pins : Pins} {file : Name} {n : Int} {status : Status}

theorem account_read (read : status = .ok) :
    account (.readPage file n) pins status = pins + one (file, n) := if_pos read

theorem account_unread (failed : status ≠ .ok) : account (.readPage file n) pins status = pins :=
  if_neg failed

theorem account_released {dirty : Bool} (released : status = .ok) :
    account (.unPinPage file n dirty) pins status = pins - one (file, n) := if_pos released

end Pins

open Pins

/-- One pin is held on the header page and, while `curPage` is set, one on the
page it points to. -/
structure HeapFile.Owns (h : HeapFile) (pins : Pins) : Prop where
  current : h.curPage = none ∨ h.curPage = some h.curPageNo
  held : pins = one (h.filePtr, h.headerPageNo) + if h.curPage = none then 0
    else one (h.filePtr, h.curPageNo)

section owns
variable {h : HeapFile} {s : HeapFileScan} {pins : Pins} {reading : Prop}

namespace HeapFile

theorem Owns.of_unset (unset : h.curPage = none) (held : pins = one (h.filePtr, h.headerPageNo)) :
    h.Owns pins :=
  ⟨.inl unset, by rw [if_pos unset, add_zero, held]⟩

theorem Owns.of_set (set : h.curPage = some h.curPageNo)
    (held : pins = one (h.filePtr, h.headerPageNo) + one (h.filePtr, h.curPageNo)) : h.Owns pins :=
  ⟨.inr set, by rw [if_neg (by simp [set]), held]⟩

theorem Owns.unset (owns : h.Owns pins) (unset : h.curPage = none) :
    pins = one (h.filePtr, h.headerPageNo) := by
  rw [owns.held, if_pos unset, add_zero]

theorem Owns.set (owns : h.Owns pins) (set : h.curPage ≠ none) :
    pins = one (h.filePtr, h.headerPageNo) + one (h.filePtr, h.curPageNo) := by
  rw [owns.held, if_neg set]

theorem Owns.released (owns : h.Owns pins) (set : h.curPage ≠ none) {status : Status}
    (released : status = .ok) (dirty : Bool) :
    account (.unPinPage h.filePtr h.curPageNo dirty) pins status =
      one (h.filePtr, h.headerPageNo) := by
  rw [account_released released, owns.set set, add_sub_cancel_right]

theorem fetch_owns {rid : RID} (held : pins = one (h.filePtr, h.headerPageNo))
    (kept : h.curPage = none ∨ reading) :
    (h.fetch rid).Ensures (sure reading) pins (fun r pins' => r.2.Owns pins') := by
  simp only [fetch, ensures_bind, ensures_ite, ensures_pure, readPage, ensures_perform]
  refine fun status admitted => ⟨fun failed => ?_, fun read => ?_⟩
  · have unset : h.curPage = none := kept.resolve_right fun reads => failed (admitted reads)
    exact .of_unset unset ((account_unread failed).trans held)
  · refine page_ensures (fun _ _ => rfl) fun _ _ => .of_set rfl ?_
    exact (account_read (not_not.mp read)).trans (by rw [held])

theorem getRecord_owns {rid : RID} (owns : h.Owns pins) (reads : h.curPage ≠ none → reading) :
    (h.getRecord rid).Ensures (sure reading) pins (fun r pins' => r.2.Owns pins') := by
  simp only [getRecord, ensures_bind, ensures_ite, ensures_pure, unPinPage, ensures_perform]
  refine ⟨fun unset => fetch_owns (owns.unset unset) (.inl unset), fun set =>
    ⟨fun _ => ?_, fun _ => ?_⟩⟩
  · exact page_ensures (fun _ _ => rfl) fun _ _ => ⟨owns.current, owns.held⟩
  · refine fun status released => ⟨fun failed => absurd released failed, fun _ => ?_⟩
    exact fetch_owns (owns.released set released _) (.inr (reads set))

theorem delete_owns (owns : h.Owns pins) :
    h.delete.Ensures (sure reading) pins (fun _ pins' => pins' = 0) := by
  have header : ∀ status, status = Status.ok →
      account (.unPinPage h.filePtr h.headerPageNo h.hdrDirtyFlag) (one (h.filePtr, h.headerPageNo))
        status = 0 :=
    fun status released => by rw [account_released released, sub_self]
  simp only [delete, ensures_ite, ensures_bind, ensures_pure, unPinPage, closeFile, ensures_perform]
  refine ⟨fun set status released status' released' _ _ => ?_, fun unset status released _ _ => ?_⟩
  · have left := owns.released set released h.curDirtyFlag
    exact (congrArg (account _ · status') left).trans (header status' released')
  · have left := owns.unset (not_not.mp unset)
    exact (congrArg (account _ · status) left).trans (header status released)

theorem new_owns (name : Name) : (HeapFile.new name).Ensures (sure True) 0 (fun r pins' =>
    match r with
    | .error _ => pins' = 0
    | .ok h => h.Owns pins' ∧ h.curPage ≠ none) := by
  simp only [HeapFile.new, ensures_bind, ensures_ite, ensures_pure, openFile, getFirstPage,
    ensures_perform]
  refine fun status _ => ⟨fun _ => rfl, fun _ reply _ => ?_⟩
  cases reply with
  | error => trivial
  | ok n =>
    simp only [ensures_bind, ensures_ite, ensures_pure, readPage, ensures_perform]
    refine fun status read => ⟨fun _ => trivial, fun _ => ?_⟩
    refine header_ensures (fun _ => rfl) fun hdr status' read' => ?_
    have pinned : account (.readPage name n) 0 status = one (name, n) :=
      (account_read (read trivial)).trans (zero_add _)
    have current : (if status' = .ok then some hdr.firstPage else none) = some hdr.firstPage :=
      if_pos (read' trivial)
    refine ⟨.of_set current ?_, by simp [current]⟩
    exact (account_read (read' trivial)).trans (congrArg (· + _) pinned)

end HeapFile

namespace HeapFileScan

theorem endScan_owns (owns : s.Owns pins) :
    s.endScan.Ensures (sure reading) pins (fun r pins' => r.2.Owns pins') := by
  simp only [endScan, ensures_ite, ensures_bind, ensures_pure, unPinPage, ensures_perform]
  exact ⟨fun set status released => .of_unset rfl (owns.released set released _), fun _ => owns⟩

theorem delete_owns (owns : s.Owns pins) :
    s.delete.Ensures (sure reading) pins (fun _ pins' => pins' = 0) := by
  simp only [delete, ensures_bind]
  exact (endScan_owns owns).mono fun r _ owns' => HeapFile.delete_owns owns'

theorem restore_owns {mark : Mark} (held : pins = one (s.filePtr, s.headerPageNo))
    (kept : s.curPage = none ∨ reading) :
    (s.restore mark).Ensures (sure reading) pins (fun r pins' => r.2.Owns pins') := by
  simp only [restore, ensures_bind, ensures_ite, ensures_pure, readPage, ensures_perform]
  refine fun status admitted => ⟨fun failed => ?_, fun read => ?_⟩
  · have unset : s.curPage = none := kept.resolve_right fun reads => failed (admitted reads)
    exact .of_unset unset ((account_unread failed).trans held)
  · exact .of_set rfl ((account_read (not_not.mp read)).trans (by rw [held]))

theorem resetScan_owns {mark : Mark} (owns : s.Owns pins) (reads : s.curPage ≠ none → reading) :
    (s.resetScan mark).Ensures (sure reading) pins (fun r pins' => r.2.Owns pins') := by
  simp only [resetScan, ensures_bind, ensures_ite, ensures_pure, unPinPage, ensures_perform]
  refine ⟨fun _ => ⟨owns.current, owns.held⟩, fun _ => ⟨fun unset => ?_, fun set status released => ?_⟩⟩
  · exact restore_owns (owns.unset unset) (.inl unset)
  · refine ⟨fun failed => absurd released failed, fun _ => ?_⟩
    exact restore_owns (owns.released set released _) (.inr (reads set))

theorem nextPages_owns (fuel : Nat) (owns : s.Owns pins) :
    (nextPages fuel s).Ensures (sure reading) pins (fun r pins' => r.2.Owns pins') := by
  induction fuel generalizing s pins with
  | zero => trivial
  | succ fuel ih =>
    simp only [nextPages, ensures_bind, ensures_ite, ensures_pure]
    refine HeapFile.page_ensures (fun _ _ => rfl) fun page set =>
      ⟨fun _ => owns, fun _ status released => ?_⟩
    have left := owns.released set released s.curDirtyFlag
    refine ⟨fun _ => .of_unset rfl left, fun _ status' _ => ⟨fun failed => ?_, fun read => ?_⟩⟩
    · exact .of_unset rfl ((account_unread failed).trans left)
    · have pinned : account (.readPage s.filePtr page.nextPage)
          (account (.unPinPage s.filePtr s.curPageNo s.curDirtyFlag) pins status) status' = _ :=
        (account_read (not_not.mp read)).trans (congrArg (· + _) left)
      refine HeapFile.page_ensures (fun _ _ => rfl) fun page' _ => ?_
      cases page'.firstRecord with
      | ok rid => exact .of_set rfl pinned
      | error => exact ih (.of_set rfl pinned)

theorem advance_owns (fuel : Nat) (owns : s.Owns pins) :
    (advance fuel s).Ensures (sure reading) pins (fun r pins' => r.2.Owns pins') := by
  simp only [advance, ensures_bind]
  refine HeapFile.page_ensures (fun _ _ => rfl) fun page _ => ?_
  cases page.nextRecord s.curRec with
  | ok rid => exact ⟨owns.current, owns.held⟩
  | error => exact nextPages_owns fuel owns

theorem scanLoop_owns (fuel : Nat) (owns : s.Owns pins) :
    (scanLoop fuel s).Ensures (sure reading) pins (fun r pins' => r.2.Owns pins') := by
  induction fuel generalizing s pins with
  | zero => trivial
  | succ fuel ih =>
    simp only [scanLoop, ensures_bind, ensures_ite]
    refine (advance_owns fuel owns).mono fun r pins' owns' => ⟨fun _ => owns', fun _ => ?_⟩
    refine HeapFile.page_ensures (fun _ _ => rfl) fun page _ => ?_
    cases page.getRecord r.2.curRec with
    | error => exact owns'
    | ok rec =>
      simp only [ensures_ite]
      exact ⟨fun _ => owns', fun _ => ih owns'⟩

theorem firstPage_owns (owns : s.Owns pins) (unset : s.curPage = none) :
    s.firstPage.Ensures (sure reading) pins (fun r pins' => r.2.Owns pins') := by
  have header := owns.unset unset
  simp only [firstPage, ensures_bind, ensures_ite, ensures_pure]
  refine header_ensures (fun _ => rfl) fun hdr => ⟨fun _ => .of_unset unset header, ?_⟩
  refine fun _ status _ =>
    ⟨fun failed => .of_unset unset ((account_unread failed).trans header), fun read => ?_⟩
  have owns' : HeapFile.Owns { s.toHeapFile with
      curPage := some hdr.firstPage, curPageNo := hdr.firstPage, curDirtyFlag := false, curRec :=
        nullRid }
      (account (.readPage s.filePtr hdr.firstPage) pins status) :=
    .of_set rfl ((account_read (not_not.mp read)).trans (congrArg (· + _) header))
  refine HeapFile.page_ensures (fun _ _ => rfl) fun page _ => ?_
  cases page.firstRecord with
  | error =>
    simp only [ensures_bind, ensures_ite, ensures_pure]
    exact fun status' released => ⟨fun failed => absurd released failed,
      fun _ => .of_unset rfl (owns'.released (Option.some_ne_none _) released _)⟩
  | ok rid =>
    simp only [ensures_bind]
    refine HeapFile.page_ensures (fun _ _ => rfl) fun page _ => ?_
    cases page.getRecord rid <;> exact ⟨owns'.current, owns'.held⟩

theorem scanNext_owns (fuel : Nat) (owns : s.Owns pins) :
    (scanNext fuel s).Ensures (sure reading) pins (fun r pins' => r.2.Owns pins') := by
  simp only [scanNext, ensures_ite, ensures_bind, ensures_pure]
  refine ⟨fun _ => owns, fun _ => ⟨fun unset => ?_, fun _ => scanLoop_owns fuel owns⟩⟩
  refine (firstPage_owns owns unset).mono fun r pins' owns' => ?_
  obtain ⟨status, t⟩ := r
  cases status with
  | some status => exact owns'
  | none => exact scanLoop_owns fuel owns'

theorem deleteRecord_owns (owns : s.Owns pins) :
    s.deleteRecord.Ensures (sure reading) pins (fun r pins' => r.2.Owns pins') := by
  have finish : s.headerPage.Ensures (sure reading) pins fun hdr g =>
      (s.setHeaderPage { hdr with recCnt := hdr.recCnt - 1 }).Ensures (sure reading) g fun _ g' =>
        HeapFile.Owns { s.toHeapFile with curDirtyFlag := true, hdrDirtyFlag := true } g' :=
    header_ensures (fun _ => rfl) fun hdr _ _ => ⟨owns.current, owns.held⟩
  simp only [deleteRecord, ensures_bind]
  refine HeapFile.page_ensures (fun _ _ => rfl) fun page _ => ?_
  cases page.deleteRecord s.curRec with
  | error status =>
    simp only [ensures_bind, ensures_pure]
    exact finish
  | ok page' =>
    simp only [ensures_bind, ensures_pure]
    exact HeapFile.setPage_ensures fun n _ => finish

end HeapFileScan

namespace InsertFileScan

theorem new_owns (name : Name) : (InsertFileScan.new name).Ensures (sure True) 0 (fun r pins' =>
    match r with
    | .error _ => pins' = 0
    | .ok h => h.Owns pins' ∧ h.curPage ≠ none) := by
  simp only [InsertFileScan.new, ensures_bind]
  refine (HeapFile.new_owns name).mono fun r pins result => ?_
  cases r with
  | error => exact result
  | ok h =>
    obtain ⟨owns, set⟩ := result
    simp only [ensures_bind, ensures_ite, ensures_pure]
    refine header_ensures (fun _ => rfl) fun hdr => ⟨fun _ => ?_, fun _ => ⟨owns, set⟩⟩
    refine fun status released status' read => ⟨fun failed => absurd (read trivial) failed, fun _ => ?_⟩
    refine ⟨.of_set rfl ?_, Option.some_ne_none _⟩
    exact (account_read (read trivial)).trans (congrArg (· + _) (owns.released set released _))

theorem delete_owns (owns : h.Owns pins) :
    (InsertFileScan.delete h).Ensures (sure reading) pins (fun _ pins' => pins' = 0) := by
  simp only [InsertFileScan.delete, ensures_ite, ensures_bind, unPinPage, ensures_perform]
  refine ⟨fun set status released => ?_, fun _ => HeapFile.delete_owns owns⟩
  exact HeapFile.delete_owns (.of_unset rfl (owns.released set released _))

theorem counted_owns (owns : h.Owns pins) :
    (counted h).Ensures (sure reading) pins (fun h' pins' => h'.Owns pins') := by
  simp only [counted, ensures_bind, ensures_pure]
  exact header_ensures (fun _ => rfl) fun hdr _ _ => ⟨owns.current, owns.held⟩

theorem insertOnNewPage_owns {rec : Record} (owns : h.Owns pins) :
    (insertOnNewPage h rec).Ensures (sure reading) pins (fun r pins' => r.2.Owns pins') := by
  simp only [insertOnNewPage, ensures_bind, allocPage, ensures_perform]
  intro reply _
  cases reply with
  | error => exact owns
  | ok newPageNo =>
    simp only [ensures_bind, ensures_ite, ensures_pure]
    refine page_ensures (fun _ => rfl) fun page _ _ => ?_
    refine header_ensures (fun _ => rfl) fun hdr _ _ => ?_
    refine HeapFile.page_ensures (fun _ _ => rfl) fun page' set => ?_
    refine HeapFile.setPage_ensures fun n _ status released =>
      ⟨fun failed => absurd released failed, fun _ => ?_⟩
    -- the pin on the new page takes the place of the old one
    have moved : account (.unPinPage h.filePtr h.curPageNo true) (pins + one (h.filePtr, newPageNo))
      status =
        one (h.filePtr, h.headerPageNo) + one (h.filePtr, newPageNo) := by
      rw [account_released released, owns.set set, add_right_comm, add_sub_cancel_right]
    refine HeapFile.page_ensures (fun _ _ => rfl) fun page'' _ => ?_
    cases page''.insertRecord rec with
    | error => exact .of_set rfl moved
    | ok r =>
      simp only [ensures_bind, ensures_pure]
      exact HeapFile.setPage_ensures fun _ _ => counted_owns (.of_set rfl moved)

theorem insertRecord_owns_of_set {rec : Record} (owns : h.Owns pins) :
    h.page.Ensures (sure reading) pins fun page g =>
      (insertOnPage h rec page).Ensures (sure reading) g (fun r pins' => r.2.Owns pins') := by
  refine HeapFile.page_ensures (fun _ _ => rfl) fun page _ => ?_
  rw [insertOnPage]
  cases page.insertRecord rec with
  | error => exact insertOnNewPage_owns owns
  | ok r =>
    simp only [ensures_bind, ensures_pure]
    exact HeapFile.setPage_ensures fun _ _ => counted_owns owns

theorem insertRecord_owns {rec : Record} (owns : h.Owns pins) :
    (insertRecord h rec).Ensures (sure reading) pins (fun r pins' => r.2.Owns pins') := by
  simp only [insertRecord, ensures_ite, ensures_bind, ensures_pure]
  refine ⟨fun _ => owns, fun _ => ⟨fun unset => ?_, fun _ => ?_⟩⟩
  · have header := owns.unset unset
    refine header_ensures (fun _ => rfl) fun hdr status _ => ⟨fun failed => ?_, fun read => ?_⟩
    · exact .of_unset unset ((account_unread failed).trans header)
    · have owns' : HeapFile.Owns { h with curPage := some hdr.lastPage, curPageNo := hdr.lastPage }
          (account (.readPage h.filePtr hdr.lastPage) pins status) :=
        .of_set rfl ((account_read (not_not.mp read)).trans (congrArg (· + _) header))
      exact insertRecord_owns_of_set owns'
  · exact insertRecord_owns_of_set owns

end InsertFileScan

end owns

/-! Objects and their methods. -/

inductive FileObject
  | heapFile (h : HeapFile)
  | scan (s : HeapFileScan) (mark : Option HeapFileScan.Mark)
  | inserting (h : HeapFile)

namespace FileObject

def toHeapFile : FileObject → HeapFile
  | .heapFile h => h
  | .scan s _ => s.toHeapFile
  | .inserting h => h

def withHeapFile (h : HeapFile) : FileObject → FileObject
  | .heapFile _ => .heapFile h
  | .scan s mark => .scan { s with toHeapFile := h } mark
  | .inserting _ => .inserting h

@[simp] theorem toHeapFile_withHeapFile (h : HeapFile) (o : FileObject) :
    (o.withHeapFile h).toHeapFile = h := by
  cases o <;> rfl

end FileObject

/-- `current` is `HeapFileScan::getRecord`. -/
inductive Method
  | newHeapFile (name : Name)
  | newHeapFileScan (name : Name)
  | newInsertFileScan (name : Name)
  | getRecCnt
  | getRecord (rid : RID)
  | startScan (filter : Option Filter)
  | endScan
  | markScan
  | resetScan
  | scanNext
  | current
  | deleteRecord
  | markDirty
  | insertRecord (rec : Record)
  | delete

namespace Method

/-- What becomes of an object; an object whose constructor fails is not there.
A method of another class, or going back to a position never marked, has no
meaning. -/
def call (fuel : Nat) : Method → Option FileObject → Prog (Option FileObject)
  | .newHeapFile name, none => do
    match ← HeapFile.new name with
    | .error _ => return none
    | .ok h => return some (.heapFile h)
  | .newHeapFileScan name, none => do
    match ← HeapFileScan.new name with
    | .error _ => return none
    | .ok s => return some (.scan s none)
  | .newInsertFileScan name, none => do
    match ← InsertFileScan.new name with
    | .error _ => return none
    | .ok h => return some (.inserting h)
  | .getRecCnt, some o => do
    let _ ← o.toHeapFile.getRecCnt
    return some o
  | .getRecord rid, some o => do
    let (_, h) ← o.toHeapFile.getRecord rid
    return some (o.withHeapFile h)
  | .startScan filter, some (.scan s mark) => return some (.scan (s.startScan filter).2 mark)
  | .endScan, some (.scan s mark) => do
    let (_, s) ← s.endScan
    return some (.scan s mark)
  | .markScan, some (.scan s _) => return some (.scan s (some s.markScan))
  | .resetScan, some (.scan s (some mark)) => do
    let (_, s) ← s.resetScan mark
    return some (.scan s (some mark))
  | .scanNext, some (.scan s mark) => do
    let (_, s) ← s.scanNext fuel
    return some (.scan s mark)
  | .current, some (.scan s mark) => do
    let _ ← s.getRecord
    return some (.scan s mark)
  | .deleteRecord, some (.scan s mark) => do
    let (_, s) ← s.deleteRecord
    return some (.scan s mark)
  | .markDirty, some (.scan s mark) => return some (.scan s.markDirty mark)
  | .insertRecord rec, some (.inserting h) => do
    let (_, h) ← InsertFileScan.insertRecord h rec
    return some (.inserting h)
  | .delete, some (.heapFile h) => do
    h.delete
    return none
  | .delete, some (.scan s _) => do
    s.delete
    return none
  | .delete, some (.inserting h) => do
    InsertFileScan.delete h
    return none
  | _, _ => .halt

def constructs : Method → Bool
  | .newHeapFile _ | .newHeapFileScan _ | .newInsertFileScan _ => true
  | _ => false

/-- The methods that do not allow for a failed read: the constructors, and those
that read another page after the current one is released. -/
def mustRead : Method → Option FileObject → Prop
  | .newHeapFile _, _ | .newHeapFileScan _, _ | .newInsertFileScan _, _ => True
  | .getRecord _, some o | .resetScan, some o => o.toHeapFile.curPage ≠ none
  | _, _ => False

/-- An object owns its pins, and a slot without an object has none. -/
def Owned : Option FileObject → Pins → Prop
  | none, pins => pins = 0
  | some o, pins => o.toHeapFile.Owns pins

theorem new_owned (m : Method) (fuel : Nat) :
    (m.call fuel none).Ensures (sure (m.mustRead none)) 0 (fun o pins =>
    match o with
    | none => pins = 0
    | some o => o.toHeapFile.Owns pins ∧ o.toHeapFile.curPage ≠ none) := by
  cases m with
  | newHeapFile name =>
    simp only [call, ensures_bind]
    refine (HeapFile.new_owns name).mono fun r pins result => ?_
    cases r <;> exact result
  | newHeapFileScan name =>
    simp only [call, HeapFileScan.new, ensures_bind]
    refine (HeapFile.new_owns name).mono fun r pins result => ?_
    cases r <;> exact result
  | newInsertFileScan name =>
    simp only [call, ensures_bind]
    refine (InsertFileScan.new_owns name).mono fun r pins result => ?_
    cases r <;> exact result
  | _ => trivial

section calls
variable {o : FileObject} {pins : Pins} (fuel : Nat)

theorem getRecCnt_owned (owns : o.toHeapFile.Owns pins) :
    (getRecCnt.call fuel (some o)).Ensures (sure (getRecCnt.mustRead (some o))) pins Owned := by
  simp only [call, HeapFile.getRecCnt, ensures_bind, ensures_pure]
  exact header_ensures (fun _ => rfl) fun _ => owns

theorem getRecord_owned (rid : RID) (owns : o.toHeapFile.Owns pins) :
    ((getRecord rid).call fuel (some o)).Ensures (sure ((getRecord rid).mustRead (some o))) pins
      Owned := by
  simp only [call, ensures_bind, ensures_pure]
  refine (HeapFile.getRecord_owns owns id).mono fun r pins' owns' => ?_
  simpa [Owned] using owns'

theorem delete_owned (owns : o.toHeapFile.Owns pins) :
    (delete.call fuel (some o)).Ensures (sure (delete.mustRead (some o))) pins
      (fun o' pins' => o' = none ∧ pins' = 0) := by
  cases o with
  | heapFile h =>
    simp only [call, ensures_bind, ensures_pure, true_and]
    exact HeapFile.delete_owns owns
  | scan s mark =>
    simp only [call, ensures_bind, ensures_pure, true_and]
    exact HeapFileScan.delete_owns owns
  | inserting h =>
    simp only [call, ensures_bind, ensures_pure, true_and]
    exact InsertFileScan.delete_owns owns

theorem scan_owned {s : HeapFileScan} {mark : Option HeapFileScan.Mark} (m : Method)
    (owns : s.Owns pins) :
    (m.call fuel (some (.scan s mark))).Ensures (sure (m.mustRead (some (.scan s mark)))) pins
      Owned := by
  cases m with
  | getRecCnt => exact getRecCnt_owned fuel owns
  | getRecord rid => exact getRecord_owned fuel rid owns
  | startScan filter =>
    cases filter with
    | none => exact owns
    | some filter =>
      simp only [call, HeapFileScan.startScan, ensures_pure, Owned]
      split <;> exact owns
  | endScan =>
    simp only [call, ensures_bind, ensures_pure]
    exact HeapFileScan.endScan_owns owns
  | markScan => exact owns
  | resetScan =>
    cases mark with
    | none => trivial
    | some mark =>
      simp only [call, ensures_bind, ensures_pure]
      exact HeapFileScan.resetScan_owns owns id
  | scanNext =>
    simp only [call, ensures_bind, ensures_pure]
    exact HeapFileScan.scanNext_owns fuel owns
  | current =>
    simp only [call, HeapFileScan.getRecord, ensures_bind, ensures_pure]
    exact HeapFile.page_ensures (fun _ _ => rfl) fun _ _ => owns
  | deleteRecord =>
    simp only [call, ensures_bind, ensures_pure]
    exact HeapFileScan.deleteRecord_owns owns
  | markDirty => exact ⟨owns.current, owns.held⟩
  | delete => exact (delete_owned (o := .scan s mark) fuel owns).mono fun _ _ gone => gone.1 ▸ gone.2
  | _ => trivial

theorem call_owned {o : Option FileObject} (m : Method) (owned : Owned o pins) :
    (m.call fuel o).Ensures (sure (m.mustRead o)) pins Owned := by
  cases o with
  | none =>
    cases owned
    refine (m.new_owned fuel).mono fun o pins result => ?_
    cases o with
    | none => exact result
    | some o => exact result.1
  | some o =>
    have owns : o.toHeapFile.Owns pins := owned
    cases o with
    | scan s mark => exact scan_owned fuel m owns
    | heapFile h =>
      cases m with
      | getRecCnt => exact getRecCnt_owned fuel owns
      | getRecord rid => exact getRecord_owned fuel rid owns
      | delete => exact (delete_owned fuel owns).mono fun _ _ gone => gone.1 ▸ gone.2
      | _ => trivial
    | inserting h =>
      cases m with
      | getRecCnt => exact getRecCnt_owned fuel owns
      | getRecord rid => exact getRecord_owned fuel rid owns
      | insertRecord rec =>
        simp only [call, ensures_bind, ensures_pure]
        exact InsertFileScan.insertRecord_owns owns
      | delete => exact (delete_owned fuel owns).mono fun _ _ gone => gone.1 ▸ gone.2
      | _ => trivial

end calls

end Method

structure Objects where
  object : Nat → Option FileObject
  pins : Nat → Pins

namespace Objects

def Start (w : Objects) : Prop := w = ⟨fun _ => none, fun _ => 0⟩

/-- A method of one object runs, with replies that the contract admits. -/
inductive Step (E : Method → Option FileObject → Contract StorageCall.Reply Pins) :
    Objects → Nat × Method → Objects → Prop
  | call {w : Objects} {i : Nat} {m : Method} {o : Option FileObject} {pins : Pins} (fuel : Nat) :
    (m.call fuel (w.object i)).Outcome (E m (w.object i)) (w.pins i) o pins →
    Step E w (i, m) ⟨update w.object i o, update w.pins i pins⟩

abbrev Faulty := Step fun _ _ => faulty

abbrev Safe := Step fun m o => sure (m.mustRead o)

/-- `curPage` is set exactly if one pin on the page `curPageNo` is held, besides
that of the header, and it points to that page. -/
def CurrentPinned (h : HeapFile) (pins : Pins) : Prop :=
  (h.curPage ≠ none ↔ (pins - one (h.filePtr, h.headerPageNo)) (h.filePtr, h.curPageNo) = 1) ∧
    ∀ n, h.curPage = some n → n = h.curPageNo

theorem CurrentPinned.of_owns {h : HeapFile} {pins : Pins} (owns : h.Owns pins) :
    CurrentPinned h pins := by
  have extra : pins - one (h.filePtr, h.headerPageNo) =
      if h.curPage = none then 0 else one (h.filePtr, h.curPageNo) := by
    rw [owns.held, add_sub_cancel_left]
  rw [CurrentPinned, extra]
  rcases owns.current with unset | set
  · simp [unset]
  · simp [set, one]

def Owned (w : Objects) : Prop := ∀ i, Method.Owned (w.object i) (w.pins i)

theorem Owned.step {w w' : Objects} {a : Nat × Method} (owned : Owned w) (step : Safe w a w') :
    Owned w' := by
  intro j
  cases step with
  | @call i m o pins fuel outcome =>
    by_cases same : j = i
    · subst same
      simp only [update_self]
      exact (Method.call_owned fuel m (owned j)).outcome outcome
    · simp only [update_of_ne same]
      exact owned j

theorem Owned.of_reachable {w : Objects} (reached : Reachable Start Safe w) : Owned w :=
  reached.invariant (fun _ start => by cases start; exact fun _ => rfl) fun _ _ _ => Owned.step

/-- While no release fails, nor a read in a method that does not allow for it:
objects keep account of the pin on their current page, constructed objects hold
a pin on either page, and the destructor releases what the object holds. -/
theorem pins_owned_of_safe {w : Objects} (reached : Reachable Start Safe w) :
    (∀ i o, w.object i = some o → CurrentPinned o.toHeapFile (w.pins i)) ∧
    (∀ i m w' o, m.constructs = true → Safe w (i, m) w' → w'.object i = some o →
      w'.pins i = one (o.toHeapFile.filePtr, o.toHeapFile.headerPageNo) +
        one (o.toHeapFile.filePtr, o.toHeapFile.curPageNo)) ∧
    ∀ i w', Safe w (i, .delete) w' → w'.pins i = 0 := by
  refine ⟨fun i o there => ?_, fun i m w' o constructs step there => ?_, fun i w' step => ?_⟩
  · have owned := Owned.of_reachable reached i
    rw [there] at owned
    exact .of_owns owned
  · have owned := Owned.of_reachable reached i
    cases step with
    | call fuel outcome =>
      simp only [update_self] at there ⊢
      subst there
      cases before : w.object i with
      | none =>
        rw [before] at owned outcome
        have empty : w.pins i = 0 := owned
        rw [empty] at outcome
        obtain ⟨owns, set⟩ := (m.new_owned fuel).outcome outcome
        exact owns.set set
      | some o' =>
        rw [before] at outcome
        -- the constructors need a free slot
        cases m with
        | newHeapFile => cases outcome
        | newHeapFileScan => cases outcome
        | newInsertFileScan => cases outcome
        | _ => cases constructs
  · cases step with
    | call fuel outcome =>
      simp only [update_self]
      have owned := Owned.of_reachable reached i
      cases before : w.object i with
      | none =>
        rw [before] at outcome
        cases outcome
      | some o =>
        rw [before] at owned outcome
        exact ((Method.delete_owned fuel owned).outcome outcome).2

/-- A file of an empty page, seen through a buffer pool that may be too full for
any page behind it. -/
def pool (full : Bool) : Handler StorageCall.Reply Unit
  | .getFirstPage _, _ => some (.ok 1, ())
  | .readPage _ pageNo, _ => some (if full = true ∧ 2 < pageNo then .bufferExceeded else .ok, ())
  | .allocPage _, _ => some (.ok 3, ())
  | .load _ pageNo, _ =>
    some (if pageNo = 1 then .header ⟨2, 2, 1, 0⟩ else .data ⟨fun _ => 0, 0, 0, 1004, -1, 2, 2⟩, ())
  | .store _ _ _, _ => some ((), ())
  | .openFile _, _ | .closeFile _, _ | .createFile _, _ | .destroyFile _, _ => some (.ok, ())
  | .unPinPage _ _ _, _ | .flushFile _, _ => some (.ok, ())

/-- A heap file is opened, another of its pages becomes the current one, and the
object is deleted. -/
theorem pins_owned_of_safe_moved : ∃ (w w' : Objects) (o : FileObject), w.object 0 = some o ∧
    CurrentPinned o.toHeapFile (w.pins 0) ∧ w.pins 0 ([97], 2) = 0 ∧ w.pins 0 ([97], 3) = 1 ∧
    Safe w (0, .delete) w' ∧ w'.pins 0 = 0 := by
  have admits (reading : Prop) : ∀ c s g reply t, pool false c s = some (reply, t) →
      (sure reading).admits c g reply := by
    intro c s g reply t answer
    cases c <;> first | trivial | cases answer
    · exact fun _ => rfl
    · rfl
  obtain ⟨w, w', o, moved, deleted, there, left, held⟩ : ∃ w w' o, Reachable Start Safe w ∧
    Safe w (0, .delete) w' ∧
      w.object 0 = some o ∧ w.pins 0 ([97], 2) = 0 ∧ w.pins 0 ([97], 3) = 1 :=
    ⟨_, _, _, .next (a := (0, .getRecord ⟨3, 0⟩)) (.next (a := (0, .newHeapFile [97])) (.initial rfl)
      (.call 0 (Outcome.of_run (s := ()) (t := ()) (admits _) rfl)))
      (.call 0 (Outcome.of_run (s := ()) (t := ()) (admits _) rfl)),
      .call 0 (Outcome.of_run (s := ()) (t := ()) (admits _) rfl), rfl, rfl, rfl⟩
  obtain ⟨current, _, returned⟩ := pins_owned_of_safe moved
  exact ⟨w, w', o, there, current 0 o there, left, held, deleted, returned 0 w' deleted⟩

/-- `getRecord` releases the current page and fails to read another. The object
then takes itself to hold a page, and the destructor releases it once more. -/
theorem released_twice : ∃ (w w' : Objects) (o : FileObject), Reachable Start Faulty w ∧
    w.object 0 = some o ∧ ¬ CurrentPinned o.toHeapFile (w.pins 0) ∧ Faulty w (0, .delete) w' ∧
      w'.pins 0 ([97], 2) = -1 := by
  have possible : ∀ {α : Type} {p : Prog α} {pins pins' : Pins} {value : α},
      run (traced (pool true) account) p ((), pins) = some (value, (), pins') →
        p.Outcome faulty pins value pins' :=
    fun returned => Outcome.of_run (fun _ _ _ _ _ _ => trivial) returned
  have failed : Reachable Start Faulty _ := .next (a := (0, .getRecord ⟨3, 0⟩))
    (.next (a := (0, .newHeapFile [97])) (.initial rfl) (.call 0 (possible rfl)))
      (.call 0 (possible rfl))
  refine ⟨_, _, _, failed, rfl, fun pinned => ?_, .call 0 (possible rfl), rfl⟩
  have held := pinned.1.mp nofun
  revert held
  decide

end Objects
end Minirel
