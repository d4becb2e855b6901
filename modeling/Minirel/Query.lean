import Minirel.Catalog

/-! The query layer (query.h, select.C, delete.C, join.C). A scan that is a
local variable is deleted at the end of its block. If its constructor fails, the
destructor runs on members that were never set, which has no meaning here. The
number that `atof` reads from a text, as a `float` and by its bits, is a
parameter. -/
namespace Minirel
open ByteMemory

def isSpace (c : UInt8) : Bool := c = 32 || (9 ≤ c && c ≤ 13)

/-- The value of the digits a text starts with. -/
def leadingDigits (text : Name) : Int :=
  (text.takeWhile fun c => 48 ≤ c && c ≤ 57).foldl (fun n c => 10 * n + (c.toNat - 48 : Int)) 0

/-- `atoi`: a `long` that saturates, narrowed to `int`. -/
def atoi (text : Name) : Int :=
  let value : Int :=
    match text.dropWhile isSpace with
    | 45 :: rest => -leadingDigits rest
    | 43 :: rest => leadingDigits rest
    | rest => leadingDigits rest
  int (max (-2 ^ 63) (min (2 ^ 63 - 1) value))

/-- The value a filter of a type points to, for a literal given by its text. -/
def literal (atof : Name → Nat) : Datatype → Name → List UInt8
  | .string, text => text
  | .integer, text => encode 4 (atoi text)
  | .float, text => encode 4 (atof text)

def AttrDesc.filter (d : AttrDesc) (type : Datatype) (value : List UInt8) (op : Operator) :
    Filter :=
  ⟨d.attrOffset, d.attrLen, type, value, op⟩

/-- `if (attrType == 0) STRING else if (attrType == 1) INTEGER else FLOAT`. -/
def datatypeOf (attrType : Int) : Datatype :=
  if attrType = 0 then .string else if attrType = 1 then .integer else .float

def AttrDesc.field (d : AttrDesc) (rec : List UInt8) : List UInt8 :=
  (rec.drop d.attrOffset.toNat).take d.attrLen.toNat

def AttrDesc.Inside (d : AttrDesc) (rec : List UInt8) : Prop :=
  0 ≤ d.attrOffset ∧ 0 ≤ d.attrLen ∧ d.attrOffset + d.attrLen ≤ rec.length

instance (d : AttrDesc) (rec : List UInt8) : Decidable (d.Inside rec) :=
  inferInstanceAs (Decidable (_ ∧ _))

/-- `for (int i = 0; i < projCnt; ++i) memcpy(...)`. A descriptor that was never
set, or a field behind the end of its record, has no meaning. -/
def copyAttrs (source : AttrDesc → List UInt8) : List (Option AttrDesc) → Prog (List UInt8)
  | [] => return []
  | none :: _ => .halt
  | some d :: ds => do
    if d.Inside (source d) then
      let rest ← copyAttrs source ds
      return d.field (source d) ++ rest
    else .halt

abbrev undefined {α : Type} : Prog α := .halt

def Operator.flip : Operator → Operator
  | .eq => .eq
  | .gt => .lt
  | .gte => .lte
  | .lt => .gt
  | .lte => .gte
  | .ne => .ne

/-- `(Datatype) attrType`. -/
def datatypeOf? (attrType : Int) : Option Datatype :=
  if attrType = 0 then some .string else if attrType = 1 then some .integer
  else if attrType = 2 then some .float else none

def joinSource (outer : Name) (outerRec innerRec : List UInt8) (d : AttrDesc) : List UInt8 :=
  if d.relName = outer then outerRec else innerRec

/-- The filter of the inner scan points into the outer record. -/
def startInner (attrDesc1 attrDesc2 : AttrDesc) (myop : Operator) (outerRec : List UInt8)
    (innerScan : HeapFileScan) :
    Status × HeapFileScan :=
  match datatypeOf? attrDesc2.attrType with
  | none => (.badScanParm, innerScan)
  | some type => innerScan.startScan
      (some (attrDesc2.filter type (outerRec.drop attrDesc1.attrOffset.toNat) myop))

/-- `for (int i = 0; i < projCnt; i++)`: look up the projection list. -/
def lookupAttrs (fuel : Nat) : List AttrInfo → Prog (Except Status (List AttrDesc))
  | [] => return .ok []
  | proj :: projNames => do
    match ← AttrCatalog.getInfo fuel proj.relName proj.attrName with
    | .error status => return .error status
    | .ok d =>
      match ← lookupAttrs fuel projNames with
      | .error status => return .error status
      | .ok ds => return .ok (d :: ds)

/-! The statements call `next` where the source has `scanNext`. -/
section next
variable {M : Type → Type} [Monad M] [MonadLiftT Prog M]
    (next : Nat → HeapFileScan → M (Status × HeapFileScan))

/-! Selection. -/

/-- `while (heapResult.scanNext(rid) == OK)` of `ScanSelect`. -/
def selectLoopBy (projNames : List (Option AttrDesc)) (reclen : Int) :
    Nat → HeapFileScan → HeapFile → M (Status × HeapFileScan × HeapFile)
  | 0, _, _ => undefined
  | fuel + 1, heapResult, insertResult => do
    let (status, heapResult) ← next fuel heapResult
    if status ≠ .ok then return (.ok, heapResult, insertResult)
    match ← heapResult.getRecord with
    | .error status => return (status, heapResult, insertResult)
    | .ok rec =>
      let data ← copyAttrs (fun _ => rec) projNames
      match ← InsertFileScan.insertRecord insertResult ⟨data, reclen⟩ with
      | (.error status, insertResult) => return (status, heapResult, insertResult)
      | (.ok _, insertResult) => selectLoopBy projNames reclen fuel heapResult insertResult

def scanSelectBy (fuel : Nat) (result : Name) (projNames : List (Option AttrDesc))
    (filter : Option Filter) (reclen : Int) : M Status := do
  match ← InsertFileScan.new result, projNames with
  | .ok insertResult, some first :: _ =>
    match ← HeapFileScan.new first.relName with
    | .error _ => undefined
    | .ok heapResult =>
      let (status, heapResult) := heapResult.startScan filter
      let (status, heapResult, insertResult) ←
        if status ≠ .ok then pure (status, heapResult, insertResult)
        else selectLoopBy next projNames reclen fuel heapResult insertResult
      heapResult.delete
      InsertFileScan.delete insertResult
      return status
  | _, _ => undefined

/-! Deletion. -/

/-- `while (status == OK)` of `QU_Delete`. -/
def deleteWhileBy : Nat → Status → HeapFileScan → M HeapFileScan
  | 0, _, _ => undefined
  | fuel + 1, status, hfs => do
    if status ≠ .ok then return hfs
    let (status, hfs) ← next fuel hfs
    if status = .fileEof then return hfs
    let (_, hfs) ← hfs.deleteRecord
    deleteWhileBy fuel status hfs

/-- From the scan on: what `startScan` returned is not looked at. -/
def deleteScanBy (fuel : Nat) (hfs : HeapFileScan) (filter : Option Filter) : M Status := do
  let (_, hfs) := hfs.startScan filter
  let hfs ← deleteWhileBy next fuel .ok hfs
  hfs.delete
  return .ok

/-- The scan is not deleted if the attribute is not found. -/
def quDeleteBy (atof : Name → Nat) (fuel : Nat) (relation attrName : Name) (op : Operator)
    (type : Datatype) (attrValue : Name) : M Status := do
  if relation = [] ∨ relation = relCatName ∨ relation = attrCatName then return .badCatParm
  match ← HeapFileScan.new relation with
  | .error status => return status
  | .ok hfs =>
    if attrName = [] then deleteScanBy next fuel hfs none
    else
      match ← AttrCatalog.getInfo fuel relation attrName with
      | .error status => return status
      | .ok attrDesc =>
        deleteScanBy next fuel hfs (some (attrDesc.filter type (literal atof type attrValue) op))

/-! Nested loops join. -/

/-- `while (innerScan.scanNext(innerRID) == OK)`. -/
def innerLoopBy (descs : List AttrDesc) (reclen : Int) (outer : Name) (outerRec : List UInt8) :
    Nat → HeapFileScan → HeapFile → M (HeapFileScan × HeapFile)
  | 0, _, _ => undefined
  | fuel + 1, innerScan, resultRel => do
    let (status, innerScan) ← next fuel innerScan
    if status ≠ .ok then return (innerScan, resultRel)
    match ← innerScan.getRecord with
    | .error _ => undefined
    | .ok innerRec =>
      let data ← copyAttrs (joinSource outer outerRec innerRec) (descs.map some)
      match ← InsertFileScan.insertRecord resultRel ⟨data, reclen⟩ with
      | (.error _, _) => undefined
      | (.ok _, resultRel) => innerLoopBy descs reclen outer outerRec fuel innerScan resultRel

/-- `while (outerScan.scanNext(outerRID) == OK)`. -/
def outerLoopBy (descs : List AttrDesc) (reclen : Int) (attrDesc1 attrDesc2 : AttrDesc)
    (myop : Operator) :
    Nat → HeapFileScan → HeapFile → M (Status × HeapFileScan × HeapFile)
  | 0, _, _ => undefined
  | fuel + 1, outerScan, resultRel => do
    let (status, outerScan) ← next fuel outerScan
    if status ≠ .ok then return (.ok, outerScan, resultRel)
    match ← outerScan.getRecord with
    | .error _ => undefined
    | .ok outerRec =>
      match ← HeapFileScan.new attrDesc2.relName with
      | .error _ => undefined
      | .ok innerScan =>
        let (status, innerScan) := startInner attrDesc1 attrDesc2 myop outerRec innerScan
        if status ≠ .ok then
          innerScan.delete
          return (status, outerScan, resultRel)
        let (innerScan, resultRel) ← innerLoopBy next descs reclen attrDesc1.relName outerRec fuel
          innerScan resultRel
        innerScan.delete
        outerLoopBy descs reclen attrDesc1 attrDesc2 myop fuel outerScan resultRel

/-- From the descriptors on. -/
def joinScanBy (fuel : Nat) (result : Name) (descs : List AttrDesc) (attrDesc1 : AttrDesc)
    (op : Operator) (attrDesc2 : AttrDesc) : M Status := do
  let reclen := int (descs.map AttrDesc.attrLen).sum
  match ← InsertFileScan.new result with
  | .error _ => undefined
  | .ok resultRel =>
    match ← HeapFileScan.new attrDesc1.relName with
    | .error _ => undefined
    | .ok outerScan =>
      let (_, outerScan) := outerScan.startScan none
      let (status, outerScan, resultRel) ←
        outerLoopBy next descs reclen attrDesc1 attrDesc2 op.flip fuel outerScan resultRel
      outerScan.delete
      InsertFileScan.delete resultRel
      return status

def quNLJoinBy (fuel : Nat) (result : Name) (projNames : List AttrInfo) (attr1 : AttrInfo)
    (op : Operator) (attr2 : AttrInfo) : M Status := do
  if attr1.attrType ≠ attr2.attrType ∨ attr1.attrLen ≠ attr2.attrLen then return .attrTypeMismatch
  match ← lookupAttrs fuel projNames with
  | .error status => return status
  | .ok descs =>
    match ← AttrCatalog.getInfo fuel attr1.relName attr1.attrName with
    | .error status => return status
    | .ok attrDesc1 =>
      match ← AttrCatalog.getInfo fuel attr2.relName attr2.attrName with
      | .error status => return status
      | .ok attrDesc2 => joinScanBy next fuel result descs attrDesc1 op attrDesc2

end next

abbrev selectLoop := selectLoopBy HeapFileScan.scanNext
abbrev scanSelect := scanSelectBy HeapFileScan.scanNext
abbrev deleteWhile := deleteWhileBy HeapFileScan.scanNext
abbrev deleteScan := deleteScanBy HeapFileScan.scanNext
abbrev quDelete := quDeleteBy HeapFileScan.scanNext
abbrev innerLoop := innerLoopBy HeapFileScan.scanNext
abbrev outerLoop := outerLoopBy HeapFileScan.scanNext
abbrev joinScan := joinScanBy HeapFileScan.scanNext
abbrev quNLJoin := quNLJoinBy HeapFileScan.scanNext

/-- The inner loop of `QU_Select`: the descriptor goes to the positions of the
projection list that name it, and each adds to the record length. -/
def placeAttr (attr : AttrDesc) : List AttrInfo → List (Option AttrDesc) → Int →
    List (Option AttrDesc) × Int
  | proj :: projNames, desc :: descs, reclen =>
    if attr.attrName = proj.attrName then
      let (descs, reclen) := placeAttr attr projNames descs (int (reclen + attr.attrLen))
      (some attr :: descs, reclen)
    else
      let (descs, reclen) := placeAttr attr projNames descs reclen
      (desc :: descs, reclen)
  | _, _, reclen => ([], reclen)

/-- `for (int i = 0; i < attrCnt; ++i)` of `QU_Select`. -/
def placeAttrs (projNames : List AttrInfo) : List AttrDesc → List (Option AttrDesc) → Int →
    List (Option AttrDesc) × Int
  | [], descs, reclen => (descs, reclen)
  | attr :: attrs, descs, reclen =>
    let (descs, reclen) := placeAttr attr projNames descs reclen
    placeAttrs projNames attrs descs reclen

def quSelect (atof : Name → Nat) (fuel : Nat) (result : Name) (projNames : List AttrInfo)
    (attr : Option AttrInfo) (op : Operator) (attrValue : Option Name) : Prog Status := do
  if attr.any fun attr => attr.attrType < 0 || attr.attrType > 2 then return .attrTypeMismatch
  match projNames with
  | [] => .halt
  | first :: _ =>
    match ← AttrCatalog.getRelInfo fuel first.relName with
    | .error status => return status
    | .ok attrs =>
      let (descs, reclen) := placeAttrs projNames attrs (projNames.map fun _ => none) 0
      match attr with
      | none => scanSelect fuel result descs none reclen
      | some attr =>
        -- `attrIdx`: the last attribute of the name
        match (attrs.filter fun d => d.attrName = attr.attrName).getLast? with
        | none => .halt
        | some d =>
          let type := datatypeOf d.attrType
          scanSelect fuel result descs
            (attrValue.map fun text => d.filter type (literal atof type text) op) reclen

inductive JoinType
  | nlJoin | smJoin | hashJoin
deriving DecidableEq, Repr

/-- The sort merge join and the hash join of the source only check the types. -/
def quEmptyJoin (attr1 attr2 : AttrInfo) : Prog Status := do
  if attr1.attrType ≠ attr2.attrType ∨ attr1.attrLen ≠ attr2.attrLen then return .attrTypeMismatch
  return .ok

def quJoin (joinMethod : JoinType) (fuel : Nat) (result : Name) (projNames : List AttrInfo)
    (attr1 : AttrInfo) (op : Operator) (attr2 : AttrInfo) : Prog Status :=
  if joinMethod = .nlJoin ∨ joinMethod = .hashJoin ∧
    op ≠ .eq then quNLJoin fuel result projNames attr1 op attr2
  else quEmptyJoin attr1 attr2

end Minirel
