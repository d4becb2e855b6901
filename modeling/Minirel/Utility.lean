import Minirel.Catalog

/-! The utilities (load.C, print.C, help.C). What they print is left out, and a
UNIX file is given by its contents. -/
namespace Minirel

/-- `while((nbytes = read(fd, record, width)) == width)`. A failed insertion is
an early return: the inserter is not deleted then. -/
def loadLoop (width : Nat) : Nat → List UInt8 → HeapFile → Prog (Except Status HeapFile)
  | 0, _, _ => .halt
  | fuel + 1, data, iFile => do
    if data.length < width then return .ok iFile
    match ← InsertFileScan.insertRecord iFile ⟨data.take width, width⟩ with
    | (.error status, _) => return .error status
    | (.ok _, iFile) => loadLoop width fuel (data.drop width) iFile

/-- `unix` gives the contents of the files that can be opened for reading. -/
def utLoad (unix : Name → Option (List UInt8)) (fuel : Nat) (relation fileName : Name) :
    Prog Status := do
  if relation = [] ∨ fileName = [] ∨ relation = relCatName ∨
    relation = attrCatName then return .badCatParm
  match unix fileName with
  | none => return .unixErr
  | some data =>
    match ← RelCatalog.getInfo fuel relation with
    | .error status => return status
    | .ok rd =>
      match ← AttrCatalog.getRelInfo fuel rd.relName with
      | .error status => return status
      | .ok attrs =>
        match ← InsertFileScan.new rd.relName with
        | .error status => return status
        | .ok iFile =>
          let width := int (attrs.map AttrDesc.attrLen).sum
          -- `new char [width]`
          if width < 0 then .halt
          match ← loadLoop width.toNat fuel data iFile with
          | .error status => return status
          | .ok iFile =>
            InsertFileScan.delete iFile
            return .ok

/-- `while((status = hfile->scanNext(rid)) == OK)`. The scan is not deleted on
an early return. -/
def printLoop : Nat → HeapFileScan → Prog (Except Status HeapFileScan)
  | 0, _ => .halt
  | fuel + 1, hfile => do
    let (status, hfile) ← hfile.scanNext fuel
    if status ≠ .ok then return if status ≠ .fileEof then .error status else .ok hfile
    match ← hfile.getRecord with
    | .error status => return .error status
    | .ok _ => printLoop fuel hfile

def utPrint (fuel : Nat) (relation : Name) : Prog Status := do
  let relation := if relation = [] then relCatName else relation
  match ← RelCatalog.getInfo fuel relation with
  | .error status => return status
  | .ok rd =>
    match ← AttrCatalog.getRelInfo fuel rd.relName with
    | .error status => return status
    | .ok _ =>
      match ← HeapFileScan.new rd.relName with
      | .error status => return status
      | .ok hfile =>
        let (status, hfile) := hfile.startScan none
        if status ≠ .ok then return status
        match ← printLoop fuel hfile with
        | .error status => return status
        | .ok hfile =>
          let (status, hfile) ← hfile.endScan
          if status ≠ .ok then return status
          hfile.delete
          return .ok

def RelCatalog.help (fuel : Nat) (relation : Name) : Prog Status := do
  if relation = [] then utPrint fuel relCatName
  else
    match ← getInfo fuel relation with
    | .error status => return status
    | .ok _ =>
      match ← AttrCatalog.getRelInfo fuel relation with
      | .error status => return status
      | .ok _ => return .ok

end Minirel
