import Minirel.HeapFile
import Minirel.Interp
import Minirel.Sort

/-! Sorted files (sort.h, sort.C): the records of a heap file are sorted in runs,
each a temporary heap file, and the runs are merged while they are read. What
`qsort` does to an array is a parameter. -/
namespace Minirel
open Storage

/-- A `SORTREC`: the record identifier and a copy of the sort attribute. -/
structure SortRec where
  rid : RID
  field : List UInt8
  length : Int
deriving DecidableEq, Repr

def SortRec.cmp (type : Datatype) (p1 p2 : SortRec) : Option Int :=
  reccmp p1.field p2.field p1.length p2.length type

/-- A `RUN`. The position that `inFile->markScan` saves is kept here. -/
structure Run where
  name : Name
  inFile : HeapFileScan
  valid : Bool
  record : List UInt8
  rid : RID
  marked : HeapFileScan.Mark
  mark : RID
deriving DecidableEq, Repr

structure SortedFile where
  runs : List Run
  type : Datatype
  offset : Int
  length : Int
deriving DecidableEq, Repr

namespace SortedFile

/-- The sort attribute of a record; what lies behind the record has no meaning. -/
def sortField (offset length : Int) (rec : List UInt8) : Option (List UInt8) :=
  if 0 ≤ offset ∧ offset + length ≤ rec.length then some ((rec.drop offset.toNat).take length.toNat)
    else none

/-! Run generation. -/

/-- `for(numItems = 0; numItems < maxItems; numItems++)`, with so many items to go. -/
def fillBuffer (fuel : Nat) (offset length : Int) : Nat → HeapFileScan →
    Prog (Except Status (List SortRec) × HeapFileScan)
  | 0, hfs => return (.ok [], hfs)
  | items + 1, hfs => do
    let (status, hfs) ← hfs.scanNext fuel
    if status = .fileEof then return (.ok [], hfs)
    if status ≠ .ok then return (.error status, hfs)
    match ← hfs.getRecord with
    | .error status => return (.error status, hfs)
    | .ok rec =>
      match sortField offset length rec with
      | none => .halt
      | some field =>
        let item : SortRec := ⟨hfs.curRec, field, length⟩
        match ← fillBuffer fuel offset length items hfs with
        | (.error status, hfs) => return (.error status, hfs)
        | (.ok buffer, hfs) => return (.ok (item :: buffer), hfs)

/-- The name of the run of this number. It ends with the NUL that `ends` writes. -/
def runName (fileName : Name) (number : Nat) :
    Name := fileName ++ chars ".sort." ++ decimal number ++ [0]

/-- `for(int i = 0; i < items; i++)`: the records are fetched and written. -/
def copyRecords : List SortRec → HeapFile → HeapFile → Prog (Status × HeapFile × HeapFile)
  | [], hfile, outFile => return (.ok, hfile, outFile)
  | item :: items, hfile, outFile => do
    match ← hfile.getRecord item.rid with
    | (.error status, hfile) => return (status, hfile, outFile)
    | (.ok record, hfile) =>
      match ← InsertFileScan.insertRecord outFile (.ofBytes record) with
      | (.error status, outFile) => return (status, hfile, outFile)
      | (.ok _, outFile) => copyRecords items hfile outFile

def generateRun (qsort : (SortRec → SortRec → Option Int) → List SortRec → List SortRec)
    (fileName : Name) (type : Datatype) (number : Nat) (buffer : List SortRec) : Prog Status := do
  let buffer := qsort (SortRec.cmp type) buffer
  let name := runName fileName number
  let status ← createFile name
  if status ≠ .ok then return status
  let status ← destroyFile name
  if status ≠ .ok then return status
  match ← InsertFileScan.new name with
  | .error status => return status
  | .ok outFile =>
    match ← HeapFile.new fileName with
    | .error status => return status
    | .ok hfile =>
      let (status, hfile, outFile) ← copyRecords buffer hfile outFile
      if status ≠ .ok then return status
      InsertFileScan.delete outFile
      hfile.delete
      return .ok

/-- `do … while (numItems > 0)`, with the number of runs so far. -/
def generateRuns (qsort : (SortRec → SortRec → Option Int) → List SortRec → List SortRec)
    (fileName : Name) (type : Datatype) (offset length : Int) (maxItems : Nat) :
    Nat → Nat → HeapFileScan → Prog (Except Status Nat × HeapFileScan)
  | 0, _, _ => .halt
  | fuel + 1, number, hfs => do
    match ← fillBuffer fuel offset length maxItems hfs with
    | (.error status, hfs) => return (.error status, hfs)
    | (.ok [], hfs) => return (.ok number, hfs)
    | (.ok buffer, hfs) =>
      let status ← generateRun qsort fileName type (number + 1) buffer
      if status ≠ .ok then return (.error status, hfs)
      generateRuns qsort fileName type offset length maxItems fuel (number + 1) hfs

/-- A scan is started on each run. The record, the mark and the position of the
mark have no value yet. -/
def startScans : List Name → Prog (Except Status (List Run))
  | [] => return .ok []
  | name :: names => do
    match ← HeapFileScan.new name with
    | .error status => return .error status
    | .ok inFile =>
      let (status, inFile) := inFile.startScan none
      if status ≠ .ok then return .error status
      match ← startScans names with
      | .error status => return .error status
      | .ok runs => return .ok (⟨name, inFile, false, [], ⟨-1, -1⟩, ⟨0, nullRid⟩, nullRid⟩ :: runs)

def sortFile (qsort : (SortRec → SortRec → Option Int) → List SortRec → List SortRec) (fuel : Nat)
    (fileName : Name) (offset length : Int) (type : Datatype) (maxItems : Nat) :
    Prog (Except Status (List Run)) := do
  match ← HeapFileScan.new fileName with
  | .error status => return .error status
  | .ok hfs =>
    let (status, hfs) := hfs.startScan none
    if status ≠ .ok then return .error status
    match ← generateRuns qsort fileName type offset length maxItems fuel 0 hfs with
    | (.error status, _) => return .error status
    | (.ok number, hfs) =>
      hfs.delete
      startScans ((List.range number).map fun k => runName fileName (k + 1))

def accepted (offset length : Int) (type : Datatype) : Bool :=
  !(offset < 0 || length < 1 || (type = .integer && length ≠ 4) || (type = .float && length ≠ 4))

def new (qsort : (SortRec → SortRec → Option Int) → List SortRec → List SortRec) (fuel : Nat)
    (fileName : Name) (offset length : Int) (type : Datatype) (maxItems : Int) :
    Prog (Except Status SortedFile) := do
  if accepted offset length type = false then return .error .badSortParm
  if maxItems < 2 then return .error .insufMem
  match ← sortFile qsort fuel fileName offset length type maxItems.toNat with
  | .error status => return .error status
  | .ok runs => return .ok ⟨runs, type, offset, length⟩

/-! Merging. -/

/-- The next record of a run is fetched if it is not in memory. -/
def loadHead (fuel : Nat) (run : Run) : Prog (Status × Run) := do
  if run.valid then return (.ok, run)
  let (status, inFile) ← run.inFile.scanNext fuel
  let run := { run with inFile := inFile }
  if status = .fileEof
    then return (.ok, { run with rid := { run.rid with pageNo := -1 }, valid := true })
  if status ≠ .ok then return (status, run)
  let run := { run with rid := inFile.curRec }
  match ← inFile.getRecord with
  | .error status => return (status, run)
  | .ok rec => return (.ok, { run with record := rec, valid := true })

/-- `reccmp` on the sort attributes of two records. -/
def compare (sf : SortedFile) (rec1 rec2 : List UInt8) : Option Int :=
  match sortField sf.offset sf.length rec1, sortField sf.offset sf.length rec2 with
  | some p1, some p2 => reccmp p1 p2 sf.length sf.length sf.type
  | _, _ => none

/-- Whether the run at `i` takes the place of the smallest so far. -/
def choose (sf : SortedFile) (smallest : Option (Nat × List UInt8)) (i : Nat) (run : Run) :
    Option (Option (Nat × List UInt8)) :=
  if run.rid.pageNo < 0 then some smallest
  else
    match smallest with
    | none => some (some (i, run.record))
    | some (k, rec) => (sf.compare rec run.record).map fun c =>
      if c > 0 then some (i, run.record) else some (k, rec)

/-- `for(run = runs.begin(); run != runs.end(); run++, i++)`. -/
def findSmallest (fuel : Nat) (sf : SortedFile) :
    Option (Nat × List UInt8) → Nat → List Run →
      Prog (Status × Option (Nat × List UInt8) × List Run)
  | smallest, _, [] => return (.ok, smallest, [])
  | smallest, i, run :: runs => do
    let (status, run) ← loadHead fuel run
    if status ≠ .ok then return (status, smallest, run :: runs)
    match sf.choose smallest i run with
    | none => .halt
    | some smallest =>
      let (status, smallest, runs) ← findSmallest fuel sf smallest (i + 1) runs
      return (status, smallest, run :: runs)

def next (fuel : Nat) (sf : SortedFile) : Prog (Except Status (List UInt8) × SortedFile) := do
  if sf.runs.length ≤ 0 then return (.error .fileEof, sf)
  let (status, smallest, runs) ← findSmallest fuel sf none 0 sf.runs
  let sf := { sf with runs := runs }
  if status ≠ .ok then return (.error status, sf)
  match smallest with
  | none => return (.error .fileEof, sf)
  | some (i, rec) => return (.ok rec,
      { sf with runs := runs.modify i fun run => { run with valid := false } })

/-! Going back. -/

def setMark (sf : SortedFile) : SortedFile :=
  { sf with runs := sf.runs.map fun run => { run with marked := run.inFile.markScan, mark := run.rid } }

def restoreRun (run : Run) : Prog (Status × Run) := do
  let (status, inFile) ← run.inFile.resetScan run.marked
  let run := { run with inFile := inFile }
  if status ≠ .ok then return (status, run)
  let run := { run with rid := run.mark }
  if run.rid.pageNo ≥ 0 then
    match ← inFile.getRecord with
    | .error status => return (status, run)
    | .ok rec => return (.ok, { run with record := rec, valid := true })
  else return (.ok, { run with valid := true })

def gotoMarks : List Run → Prog (Status × List Run)
  | [] => return (.ok, [])
  | run :: runs => do
    let (status, run) ← restoreRun run
    if status ≠ .ok then return (status, run :: runs)
    let (status, runs) ← gotoMarks runs
    return (status, run :: runs)

def gotoMark (sf : SortedFile) : Prog (Status × SortedFile) := do
  let (status, runs) ← gotoMarks sf.runs
  return (status, { sf with runs := runs })

/-- The destructor; what `destroyFile` returns is not looked at. -/
def delete (sf : SortedFile) : Prog Unit :=
  sf.runs.forM fun run => do
    run.inFile.delete
    let _ ← destroyFile run.name
    return ()

end SortedFile
end Minirel
