import Minirel.HeapFile

/-! The two catalogs (catalog.h, catalog.C) with the creation and destruction of
relations (create.C, destroy.C) and of the database (dbcreate.C). A `char`
array is represented by the C string it holds: `addInfo` clears the bytes behind
it before the descriptor is stored. -/
namespace Minirel
open ByteMemory

def chars (s : String) : Name := s.toList.map fun c => UInt8.ofNat c.toNat

def relCatName : Name := chars "relcat"
def attrCatName : Name := chars "attrcat"

def maxName : Nat := 32

def cString (s : Name) : Name := s.takeWhile (· ≠ 0)

def int (x : Int) : Int := x.bmod (2 ^ 32)

def nameField (s : Name) : List UInt8 := s ++ List.replicate (maxName - s.length) 0

structure RelDesc where
  relName : Name
  attrCnt : Int
deriving DecidableEq, Repr

namespace RelDesc

def size : Nat := maxName + 4

def bytes (d : RelDesc) : List UInt8 := nameField d.relName ++ encode 4 d.attrCnt

def ofBytes (b : List UInt8) : RelDesc :=
  ⟨cString (b.take maxName), decode ((b.drop maxName).take 4)⟩

end RelDesc

structure AttrDesc where
  relName : Name
  attrName : Name
  attrOffset : Int
  attrType : Int
  attrLen : Int
deriving DecidableEq, Repr

namespace AttrDesc

def size : Nat := maxName + maxName + 4 + 4 + 4

def bytes (d : AttrDesc) : List UInt8 :=
  nameField d.relName ++
    (nameField d.attrName ++ (encode 4 d.attrOffset ++ (encode 4 d.attrType ++ encode 4 d.attrLen)))

def ofBytes (b : List UInt8) : AttrDesc where
  relName := cString (b.take maxName)
  attrName := cString ((b.drop maxName).take maxName)
  attrOffset := decode ((b.drop (maxName + maxName)).take 4)
  attrType := decode ((b.drop (maxName + maxName + 4)).take 4)
  attrLen := decode ((b.drop (maxName + maxName + 8)).take 4)

end AttrDesc

/-- An attribute as a query gives it; `attrValue` is the value it points to. -/
structure AttrInfo where
  relName : Name
  attrName : Name
  attrType : Int
  attrLen : Int
  attrValue : Option (List UInt8)
deriving DecidableEq, Repr

def byRelation (relation : Name) : Filter := ⟨0, relation.length + 1, .string, relation, .eq⟩

def addRecord (fileName : Name) (bytes : List UInt8) : Prog Status := do
  match ← InsertFileScan.new fileName with
  | .error status => return status
  | .ok ifs =>
    let (result, ifs) ← InsertFileScan.insertRecord ifs (.ofBytes bytes)
    InsertFileScan.delete ifs
    match result with
    | .ok _ => return .ok
    | .error status => return status

def openLookup (fileName relation : Name) : Prog (Except Status HeapFileScan) := do
  match ← HeapFileScan.new fileName with
  | .error status => return .error status
  | .ok hfs =>
    let (status, hfs) := hfs.startScan (some (byRelation relation))
    if status ≠ .ok then
      hfs.delete
      return .error status
    return .ok hfs

namespace RelCatalog

def getInfo (fuel : Nat) (relation : Name) : Prog (Except Status RelDesc) := do
  if relation = [] then return .error .badCatParm
  match ← openLookup relCatName relation with
  | .error status => return .error status
  | .ok hfs =>
    let (status, hfs) ← hfs.scanNext fuel
    if status ≠ .ok then
      let (_, hfs) ← hfs.endScan
      hfs.delete
      return .error (if status = .fileEof then .relNotFound else status)
    match ← hfs.getRecord with
    | .error status => return .error status
    | .ok rec =>
      if rec.length ≠ RelDesc.size then .halt
      let (nextStatus, hfs) ← hfs.endScan
      hfs.delete
      if nextStatus ≠ .ok then return .error nextStatus
      return .ok (RelDesc.ofBytes rec)

def addInfo (record : RelDesc) : Prog Status := addRecord relCatName record.bytes

/-- The scan is ended once more after it was deleted, which has no effect here:
the deleted object has no page. -/
def removeInfo (fuel : Nat) (relation : Name) : Prog Status := do
  if relation = [] then return .badCatParm
  match ← openLookup relCatName relation with
  | .error status => return status
  | .ok hfs =>
    let (status, hfs) ← hfs.scanNext fuel
    if status ≠ .ok then
      hfs.delete
      return if status = .fileEof then .relNotFound else if status = .noRecords then .ok else status
    let (status, hfs) ← hfs.deleteRecord
    hfs.delete
    return if status = .noRecords then .ok else status

end RelCatalog

namespace AttrCatalog

/-- How the search for an attribute ends: an early return, the end of the scan,
or `break`. -/
inductive Search
  | returned (status : Status)
  | ended (status : Status) (hfs : HeapFileScan)
  | found (record : AttrDesc) (hfs : HeapFileScan)

/-- `while ((status = hfs->scanNext(rid)) == OK)` until the name is met. -/
def search (attrName : Name) : Nat → HeapFileScan → Prog Search
  | 0, _ => .halt
  | fuel + 1, hfs => do
    let (status, hfs) ← hfs.scanNext fuel
    if status ≠ .ok then return .ended status hfs
    match ← hfs.getRecord with
    | .error status => return .returned status
    | .ok rec =>
      if rec.length ≠ AttrDesc.size then .halt
      let record := AttrDesc.ofBytes rec
      if record.attrName = attrName then return .found record hfs
      search attrName fuel hfs

def getInfo (fuel : Nat) (relation attrName : Name) : Prog (Except Status AttrDesc) := do
  if relation = [] ∨ attrName = [] then return .error .badCatParm
  match ← openLookup attrCatName relation with
  | .error status => return .error status
  | .ok hfs =>
    match ← search attrName fuel hfs with
    | .returned status => return .error status
    | .ended status hfs =>
      let (_, hfs) ← hfs.endScan
      hfs.delete
      return .error (if status = .fileEof then .attrNotFound else status)
    | .found record hfs =>
      let (nextStatus, hfs) ← hfs.endScan
      hfs.delete
      if nextStatus ≠ .ok then return .error nextStatus
      return .ok record

def addInfo (record : AttrDesc) : Prog Status := addRecord attrCatName record.bytes

def removeInfo (fuel : Nat) (relation attrName : Name) : Prog Status := do
  if relation = [] ∨ attrName = [] then return .badCatParm
  match ← openLookup attrCatName relation with
  | .error status => return status
  | .ok hfs =>
    match ← search attrName fuel hfs with
    | .returned status => return status
    | .ended status hfs =>
      let (_, hfs) ← hfs.endScan
      hfs.delete
      return if status = .fileEof then .relNotFound else if status = .noRecords then .ok else status
    | .found _ hfs =>
      let (status, hfs) ← hfs.deleteRecord
      let (_, hfs) ← hfs.endScan
      hfs.delete
      return if status = .noRecords then .ok else status

/-- `while ((status = hfs->scanNext(rid)) == OK)`, collecting the rows; the
error is an early return. -/
def collect : Nat → HeapFileScan → Prog (Except Status (Status × List AttrDesc × HeapFileScan))
  | 0, _ => .halt
  | fuel + 1, hfs => do
    let (status, hfs) ← hfs.scanNext fuel
    if status ≠ .ok then return .ok (status, [], hfs)
    match ← hfs.getRecord with
    | .error status => return .error status
    | .ok rec =>
      if rec.length ≠ AttrDesc.size then .halt
      match ← collect fuel hfs with
      | .error status => return .error status
      | .ok (status, attrs, hfs) => return .ok (status, AttrDesc.ofBytes rec :: attrs, hfs)

def getRelInfo (fuel : Nat) (relation : Name) : Prog (Except Status (List AttrDesc)) := do
  if relation = [] then return .error .badCatParm
  match ← openLookup attrCatName relation with
  | .error status => return .error status
  | .ok hfs =>
    match ← collect fuel hfs with
    | .error status => return .error status
    | .ok (status, attrs, hfs) =>
      let (nextStatus, hfs) ← hfs.endScan
      hfs.delete
      if status ≠ .fileEof then return .error status
      if attrs = [] then return .error .relNotFound
      if nextStatus ≠ .ok then return .error nextStatus
      return .ok attrs

/-- `for (i = 0; i < attrCnt; i++)` of `dropRelation`. -/
def removeAll (fuel : Nat) (relation : Name) : List AttrDesc → Prog Status
  | [] => return .ok
  | attr :: attrs => do
    let status ← removeInfo fuel relation attr.attrName
    if status ≠ .ok then return status
    removeAll fuel relation attrs

def dropRelation (fuel : Nat) (relation : Name) : Prog Status := do
  if relation = [] then return .badCatParm
  match ← getRelInfo fuel relation with
  | .error status => return status
  | .ok attrs => removeAll fuel relation attrs

end AttrCatalog

namespace RelCatalog

def tupleWidth (attrList : List AttrInfo) : Int := (attrList.map AttrInfo.attrLen).sum % 2 ^ 32

/-- `for(int i = 0; i < attrCnt; i++)` of `createRel`: check and add the
attributes one after the other. -/
def addAttrs (relation : Name) : Int → List AttrInfo → Prog Status
  | _, [] => return .ok
  | offset, attr :: attrs => do
    if attr.attrName.length ≥ maxName then return .nameTooLong
    let ad : AttrDesc := ⟨relation, attr.attrName, offset, int attr.attrType, int attr.attrLen⟩
    let status ← AttrCatalog.addInfo ad
    if status ≠ .ok then return status
    addAttrs relation (int (offset + ad.attrLen)) attrs

def createRel (fuel : Nat) (relation : Name) (attrList : List AttrInfo) : Prog Status := do
  if relation = [] ∨ attrList.length < 1 then return .badCatParm
  if relation.length ≥ maxName then return .nameTooLong
  match ← getInfo fuel relation with
  | .ok _ => return .relExists
  | .error status =>
    if status ≠ .relNotFound then return status
    -- the sum is formed in the loop that compares the names
    if ¬ (attrList.map AttrInfo.attrName).Nodup then return .duplAttr
    if tupleWidth attrList > pageSize then return .attrTooLong
    let status ← addInfo ⟨cString relation, int attrList.length⟩
    if status ≠ .ok then return status
    let status ← addAttrs (cString relation) 0 attrList
    if status ≠ .ok then return status
    createHeapFile relation

def destroyRel (fuel : Nat) (relation : Name) : Prog Status := do
  if relation = [] ∨ relation = relCatName ∨ relation = attrCatName then return .badCatParm
  let status ← AttrCatalog.dropRelation fuel relation
  if status ≠ .ok then return status
  let status ← removeInfo fuel relation
  if status ≠ .ok then return status
  destroyHeapFile relation

end RelCatalog

/-- `CALL(c)`: the program exits at the first call that fails. -/
def calls : List (Prog Status) → Prog Status
  | [] => return .ok
  | c :: rest => do
    let status ← c
    if status ≠ .ok then return status
    calls rest

def relCatAttrs : List AttrDesc :=
  [⟨relCatName, chars "relName", 0, 0, 32⟩, ⟨relCatName, chars "attrCnt", 32, 1, 4⟩]

def attrCatAttrs : List AttrDesc :=
  [⟨attrCatName, chars "relName", 0, 0, 32⟩, ⟨attrCatName, chars "attrName", 32, 0, 32⟩,
    ⟨attrCatName, chars "attrOffset", 64, 1, 4⟩, ⟨attrCatName, chars "attrType", 68, 1, 4⟩,
    ⟨attrCatName, chars "attrLen", 72, 1, 4⟩]

/-- `main` of dbcreate, from the creation of the catalog files on; it exits with
the status of the call that failed. -/
def dbcreate : Prog Status := do
  let status ← createHeapFile relCatName
  if status ≠ .ok then return status
  let status ← createHeapFile attrCatName
  if status ≠ .ok then return status
  match ← HeapFile.new relCatName with
  | .error status => return status
  | .ok relCat =>
    match ← HeapFile.new attrCatName with
    | .error status => return status
    | .ok attrCat =>
      let status ← calls ([RelCatalog.addInfo ⟨relCatName, 2⟩] ++ relCatAttrs.map AttrCatalog.addInfo ++
        [RelCatalog.addInfo ⟨attrCatName, 5⟩] ++ attrCatAttrs.map AttrCatalog.addInfo)
      if status ≠ .ok then return status
      relCat.delete
      attrCat.delete
      return .ok

end Minirel
