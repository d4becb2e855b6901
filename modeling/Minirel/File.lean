import Mathlib.Logic.Function.Basic
import Minirel.Basic

/-! The file layer (class `File` of db.h, db.C). A UNIX file is an array of
page images; page 0 is the header with the file's page count and the head of
its free list, whose links are kept in the free pages themselves. -/
namespace Minirel
open Function

/-- The three fields the macro `DBP` lays over a page. -/
structure DBPage where
  nextFree : Int
  firstPage : Int
  numPages : Int
deriving DecidableEq, Repr

/-- Page images as this layer sees them: opaque apart from the `DBP` view. -/
class PageImage (P : Type) where
  zero : P
  dbp : P → DBPage
  setDbp : P → DBPage → P
  dbp_setDbp : ∀ page fields, dbp (setDbp page fields) = fields

export PageImage (dbp setDbp)
attribute [simp] PageImage.dbp_setDbp

/-- The smallest page image has the header fields and nothing else. -/
instance : PageImage DBPage := ⟨⟨0, 0, 0⟩, id, fun _ fields => fields, fun _ _ => rfl⟩

/-- An array of pages; whatever lies behind the end would read as a hole. -/
structure UnixFile (P : Type) [PageImage P] where
  size : Int
  page : Int → P
  hole : ∀ pageNo, size ≤ pageNo → page pageNo = PageImage.zero

/-- The address of a `File` object; 0 is `NULL`. -/
abbrev FilePtr := Int

abbrev Disk (P : Type) [PageImage P] := FilePtr → UnixFile P

/-- The transfers a buffer manager call can make, each at most once. -/
inductive Transfer
  | headerRead | headerWrite | freeRead | extendWrite | awayRead | awayWrite
  | pageRead | victimWrite | flushWrite (frame : Nat)
deriving DecidableEq, Repr

/-- The transfers that fail during one call, with what a failed read leaves in
its buffer and a failed write on the disk. -/
abbrev Faults (P : Type) := Transfer → Option P

def noFaults : Faults P := fun _ => none

variable {P : Type} [PageImage P]

def UnixFile.create : UnixFile P where
  size := 1
  page pageNo := if pageNo = 0 then setDbp PageImage.zero ⟨-1, -1, 1⟩ else PageImage.zero
  hole := fun _ behind => if_neg (by omega)

def UnixFile.write (f : UnixFile P) (pageNo : Int) (page : P) : UnixFile P where
  size := max f.size (pageNo + 1)
  page := update f.page pageNo page
  hole := by
    intro other behind
    rw [update_of_ne (by omega)]
    exact f.hole other (by omega)

namespace Disk

def write (d : Disk P) (file : FilePtr) (pageNo : Int) (page : P) : Disk P :=
  update d file ((d file).write pageNo page)

@[simp] theorem write_page_self (d : Disk P) (file : FilePtr) (pageNo : Int) (page : P) :
    (d.write file pageNo page file).page pageNo = page := by
  simp [write, UnixFile.write]

theorem write_page_of_ne (d : Disk P) {file other : FilePtr} {pageNo otherNo : Int} (page : P)
    (apart : (other, otherNo) ≠ (file, pageNo)) :
    (d.write file pageNo page other).page otherNo = (d other).page otherNo := by
  unfold write
  by_cases same : other = file
  · subst same
    rw [update_self]
    exact update_of_ne (fun h => apart (by rw [h])) ..
  · rw [update_of_ne same]

/-- An error carries what was left in the caller's buffer, if it was touched. -/
def intread (d : Disk P) (file : FilePtr) (pageNo : Int) (fault : Option P) :
    Except (Status × Option P) P :=
  match fault with
  | some junk => .error (.unixErr, some junk)
  | none =>
    if 0 ≤ pageNo ∧ pageNo < (d file).size then .ok ((d file).page pageNo)
    else .error (.unixErr, none)

def intwrite (d : Disk P) (file : FilePtr) (pageNo : Int) (page : P) (fault : Option P) :
    Status × Disk P :=
  if pageNo < 0 then (.unixErr, d)
  else
    match fault with
    | some torn => (.unixErr, d.write file pageNo torn)
    | none => (.ok, d.write file pageNo page)

def readPage (d : Disk P) (file : FilePtr) (pageNo : Int) (fault : Option P) :
    Except (Status × Option P) P :=
  if pageNo < 1 then .error (.badPageNo, none) else d.intread file pageNo fault

def writePage (d : Disk P) (file : FilePtr) (pageNo : Int) (page : P) (fault : Option P) :
    Status × Disk P :=
  if pageNo < 1 then (.badPageNo, d) else d.intwrite file pageNo page fault

def getFirstPage (d : Disk P) (file : FilePtr) (fault : Option P) : Except Status Int :=
  match d.intread file 0 fault with
  | .error (status, _) => .error status
  | .ok header => .ok (dbp header).firstPage

theorem intread_ok {d : Disk P} {file : FilePtr} {pageNo : Int} {fault : Option P} {page : P}
    (read : d.intread file pageNo fault = .ok page) : page = (d file).page pageNo := by
  unfold intread at read
  cases fault with
  | some junk => cases read
  | none =>
    simp only at read
    split at read
    · exact (Except.ok.inj read).symm
    · cases read

theorem readPage_ok {d : Disk P} {file : FilePtr} {pageNo : Int} {fault : Option P} {page : P}
    (read : d.readPage file pageNo fault = .ok page) : page = (d file).page pageNo := by
  unfold readPage at read
  split at read
  · cases read
  · exact intread_ok read

theorem readPage_error {d : Disk P} {file : FilePtr} {pageNo : Int} {fault : Option P}
    {e : Status × Option P} (failed : d.readPage file pageNo fault = .error e) :
    fault ≠ none ∨ ¬ (1 ≤ pageNo ∧ pageNo < (d file).size) := by
  unfold readPage intread at failed
  split at failed
  next low => exact Or.inr (by omega)
  next =>
    cases fault with
    | some junk => exact Or.inl (by simp)
    | none =>
      simp only at failed
      split at failed
      next => cases failed
      next outside => exact Or.inr (by omega)

def writeHeader (d : Disk P) (file : FilePtr) (header : P) (fault : Faults P) (pageNo : Int) :
    Except Status Int × Disk P :=
  match d.intwrite file 0 header (fault .headerWrite) with
  | (.ok, d) => (.ok pageNo, d)
  | (status, d) => (.error status, d)

/-- A page from the free list, or else a new one behind the last. -/
def allocatePage (d : Disk P) (file : FilePtr) (fault : Faults P) : Except Status Int × Disk P :=
  match d.intread file 0 (fault .headerRead) with
  | .error (status, _) => (.error status, d)
  | .ok header =>
    let fields := dbp header
    if fields.nextFree ≠ -1 then
      match d.intread file fields.nextFree (fault .freeRead) with
      | .error (status, _) => (.error status, d)
      | .ok firstFree =>
        d.writeHeader file (setDbp header { fields with nextFree := (dbp firstFree).nextFree })
          fault fields.nextFree
    else
      match d.intwrite file fields.numPages PageImage.zero (fault .extendWrite) with
      | (.ok, d) =>
        let firstPage := if fields.firstPage = -1 then fields.numPages else fields.firstPage
        d.writeHeader file
          (setDbp header { fields with numPages := fields.numPages + 1, firstPage := firstPage })
          fault fields.numPages
      | (status, d) => (.error status, d)

def disposePage (d : Disk P) (file : FilePtr) (pageNo : Int) (fault : Faults P) : Status × Disk P :=
  if pageNo < 1 then (.badPageNo, d)
  else
    match d.intread file 0 (fault .headerRead) with
    | .error (status, _) => (status, d)
    | .ok header =>
      let fields := dbp header
      if fields.firstPage = pageNo ∨ pageNo ≥ fields.numPages then (.badPageNo, d)
      else
        match d.intread file pageNo (fault .awayRead) with
        | .error (status, _) => (status, d)
        | .ok _ =>
          let away := setDbp PageImage.zero { dbp (PageImage.zero : P) with nextFree :=
            fields.nextFree }
          match d.intwrite file pageNo away (fault .awayWrite) with
          | (.ok, d) =>
            d.intwrite file 0 (setDbp header { fields with nextFree := pageNo }) (fault .headerWrite)
          | (status, d) => (status, d)

end Disk
end Minirel
