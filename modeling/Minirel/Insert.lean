import Minirel.Interp

/-! Insertion (insert.C), and the texts in which the interpreter passes values
(parser/interp.C, `value_of`). A column is copied with its declared length from
wherever its value is, so the bytes that follow the value in memory, and those
that are in the output buffer before, are parameters. -/
namespace Minirel
open ByteMemory

def formatInt (value : Int) :
    Name := if value < 0 then 45 :: decimal value.natAbs else decimal value.natAbs

/-- `behind j` is what follows the value that is copied for the `j`-th entry of
the attribute list, `buffer` what `outputData` holds at first. -/
structure Memory where
  behind : Nat → Nat → UInt8
  buffer : Nat → UInt8

def Memory.pointer (memory : Memory) (j : Nat) (value : List UInt8) : Nat → UInt8 :=
  fun k => value.getD k (memory.behind j (k - value.length))

def fetch (pointer : Nat → UInt8) (length : Int) : List UInt8 :=
  (List.range length.toNat).map pointer

/-- The bytes of a value for a column of some type; a string has its terminator. -/
def columnValue (atof : Name → Nat) : Datatype → Name → List UInt8
  | .string, text => text ++ [0]
  | .integer, text => encode 4 (atoi text)
  | .float, text => encode 4 (atof text)

/-- `tempPtr` at a column and an entry of its name. It keeps its value if the
type is none of the three; a missing value has no meaning. -/
def tempPtr (atof : Name → Nat) (memory : Memory) (attr : AttrDesc) (j : Nat) (given : AttrInfo)
    (pointer : Option (Nat → UInt8)) : Option (Nat → UInt8) :=
  match datatypeOf? attr.attrType with
  | some type => given.attrValue.map fun text => memory.pointer j (columnValue atof type text)
  | none => pointer

/-- `for (int j = 0; j < attrCnt; ++j)`. A copy behind the end of the buffer has
no meaning. -/
def copyColumn (atof : Name → Nat) (memory : Memory) (totalLength : Int) (attr : AttrDesc) :
    Nat → List AttrInfo → Option (Nat → UInt8) → List UInt8 →
      Option (Option (Nat → UInt8) × List UInt8)
  | _, [], pointer, output => some (pointer, output)
  | j, given :: attrList, pointer, output =>
    if attr.attrName = given.attrName then
      match tempPtr atof memory attr j given pointer with
      | none => none
      | some pointer =>
        if 0 ≤ attr.attrLen ∧ output.length + attr.attrLen ≤ totalLength then
          copyColumn atof memory totalLength attr (j + 1) attrList (some pointer)
            (output ++ fetch pointer attr.attrLen)
        else none
    else copyColumn atof memory totalLength attr (j + 1) attrList pointer output

/-- `for (int i = 0; i < attrCnt; ++i)`. -/
def copyColumns (atof : Name → Nat) (memory : Memory) (totalLength : Int)
    (attrList : List AttrInfo) :
    List AttrDesc → Option (Nat → UInt8) → List UInt8 → Option (List UInt8)
  | [], _, output => some output
  | attr :: attrs, pointer, output =>
    match copyColumn atof memory totalLength attr 0 attrList pointer output with
    | none => none
    | some (pointer, output) => copyColumns atof memory totalLength attrList attrs pointer output

def Memory.rest (memory : Memory) (totalLength : Int) (output : List UInt8) : List UInt8 :=
  output ++ (List.range (totalLength.toNat - output.length)).map fun k =>
    memory.buffer (output.length + k)

/-- The record goes into the file; one that cannot be opened has no meaning. -/
def insertTuple (relation : Name) (record : Record) : Prog Status := do
  match ← InsertFileScan.new relation with
  | .error _ => .halt
  | .ok ifs =>
    let (result, ifs) ← InsertFileScan.insertRecord ifs record
    InsertFileScan.delete ifs
    match result with
    | .error status => return status
    | .ok _ => return .ok

/-- The number of columns is that of the list; a descriptor behind the last one
has no meaning. -/
def insertValues (atof : Name → Nat) (memory : Memory) (relation : Name) (attrList : List AttrInfo)
    (attrs : List AttrDesc) : Prog Status :=
  if attrs.length < attrList.length then .halt
  else
    let columns := attrs.take attrList.length
    let totalLength := int (columns.map AttrDesc.attrLen).sum
    match copyColumns atof memory totalLength attrList columns none [] with
    | none => .halt
    | some output => insertTuple relation ⟨memory.rest totalLength output, totalLength⟩

def quInsert (atof : Name → Nat) (memory : Memory) (fuel : Nat) (relation : Name)
    (attrList : List AttrInfo) :
    Prog Status := do
  match ← RelCatalog.getInfo fuel relation with
  | .error status => return status
  | .ok rd =>
    match ← AttrCatalog.getRelInfo fuel rd.relName with
    | .error status => return status
    | .ok attrs => insertValues atof memory relation attrList attrs

end Minirel
