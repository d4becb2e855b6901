import Mathlib.Logic.Function.Basic
import Minirel.Query

/-! The comparison of two join attributes (join.C, `matchRec`) and the hash table
over the values of a join attribute (joinHT.h, joinHT.C). A pointer into a
record is the list of the bytes from there on, with what follows the record in
memory. What the two conversions from `float` to `int` yield is a parameter. -/
namespace Minirel
open ByteMemory

/-- `strcmp`; memory behind a string reads as its terminator. -/
def strcmp : List UInt8 → List UInt8 → Ordering
  | [], t => compare 0 (t.headD 0).toNat
  | a :: s, t =>
    let b := t.headD 0
    if a ≠ b then compare a.toNat b.toNat
    else if a = 0 then .eq
    else strcmp s t.tail

/-- An `int` of the sign of a comparison. -/
def signOf : Ordering → Int
  | .lt => -1
  | .eq => 0
  | .gt => 1

/-- `matchRec` of join.C; `floatSub` is `int(tmpFloat1 - tmpFloat2)`. -/
def matchRec (floatSub : Nat → Nat → Int) (outerRec innerRec : List UInt8)
    (attrDesc1 attrDesc2 : AttrDesc) : Int :=
  let outer := outerRec.drop attrDesc1.attrOffset.toNat
  let inner := innerRec.drop attrDesc2.attrOffset.toNat
  match datatypeOf? attrDesc1.attrType with
  | some .integer => int (decode (outer.take 4) - decode (inner.take 4))
  | some .float => floatSub (unsigned (outer.take 4)) (unsigned (inner.take 4))
  | some .string => signOf (strcmp outer inner)
  | none => 0

/-- The value of a join attribute. -/
inductive JAttrType
  | iValue (value : Int)
  | fValue (bits : Nat)
  | sValue (bytes : List UInt8)
deriving DecidableEq, Repr

/-- The value stays unset for an illegal type. -/
structure JoinHashBucket where
  attrValue : Option JAttrType
  rid : RID
deriving DecidableEq, Repr

/-- A chain and the number of its buckets. -/
structure HTentry where
  bucketCnt : Nat
  chain : List JoinHashBucket
  counted : bucketCnt = chain.length

structure JoinHashTbl where
  htSize : Nat
  positive : 0 < htSize
  joinAttr : AttrDesc
  ht : Fin htSize → HTentry

namespace JoinHashTbl

def new (size : Nat) (positive : 0 < size) (attr : AttrDesc) : JoinHashTbl :=
  ⟨size, positive, attr, fun _ => ⟨0, [], rfl⟩⟩

/-- `while (*attrPtr++) value = 31*value + (int)*attrPtr`: the first character
only decides whether there is a second one. -/
def hashString : Int → List UInt8 → Int
  | value, [] => value
  | value, c :: rest =>
    if c = 0 then value else hashString (int (31 * value + decode [rest.headD 0])) rest

def slot (table : JoinHashTbl) (value : Int) : Fin table.htSize :=
  ⟨(value.tmod table.htSize).natAbs, by
    have positive := table.positive
    rw [Int.natAbs_tmod]
    exact Nat.mod_lt _ (by simpa using positive)⟩

/-- `floatMul` is `(int) (value * HTSIZE * 31)`. -/
def hash (floatMul : Nat → Nat → Int) (table : JoinHashTbl) (attrPtr : List UInt8) :
    Fin table.htSize :=
  table.slot <|
    match datatypeOf? table.joinAttr.attrType with
    | some .integer => int (decode (attrPtr.take 4) * table.htSize * 31)
    | some .float => floatMul (unsigned (attrPtr.take 4)) table.htSize
    | some .string => hashString 0 attrPtr
    | none => 0

def attrValue (table : JoinHashTbl) (joinAttrPtr : List UInt8) : Option JAttrType :=
  match datatypeOf? table.joinAttr.attrType with
  | some .integer => some (.iValue (decode (joinAttrPtr.take 4)))
  | some .float => some (.fValue (unsigned (joinAttrPtr.take 4)))
  | some .string => some (.sValue (joinAttrPtr.take table.joinAttr.attrLen.toNat))
  | none => none

def insert (floatMul : Nat → Nat → Int) (table : JoinHashTbl) (newRid : RID) (tuple : List UInt8) :
    Status × JoinHashTbl :=
  let joinAttrPtr := tuple.drop table.joinAttr.attrOffset.toNat
  let index := table.hash floatMul joinAttrPtr
  let entry := table.ht index
  (.ok, { table with
    ht := Function.update table.ht index
      ⟨entry.bucketCnt + 1, ⟨table.attrValue joinAttrPtr, newRid⟩ :: entry.chain,
        by rw [entry.counted, List.length_cons]⟩ })

def matched (table : JoinHashTbl) (innerJoinAttrPtr : List UInt8) (bucket : JoinHashBucket) :
    Bool :=
  match bucket.attrValue with
  | some (.iValue value) => value = decode (innerJoinAttrPtr.take 4)
  | some (.fValue bits) =>
    match floatKey bits, floatKey (unsigned (innerJoinAttrPtr.take 4)) with
    | some x, some y => x = y
    | _, _ => false
  | some (.sValue bytes) => strncmp table.joinAttr.attrLen.toNat bytes innerJoinAttrPtr = .eq
  | none => false

/-- `outRids` up to `ridCnt`. The array has room for the whole chain. -/
def lookup (floatMul : Nat → Nat → Int) (table : JoinHashTbl) (innerJoinAttrPtr : List UInt8) :
    List RID :=
  ((table.ht (table.hash floatMul innerJoinAttrPtr)).chain.filter
    (table.matched innerJoinAttrPtr)).map JoinHashBucket.rid

theorem lookup_length_le (floatMul : Nat → Nat → Int) (table : JoinHashTbl) (ptr : List UInt8) :
    (table.lookup floatMul ptr).length ≤ (table.ht (table.hash floatMul ptr)).bucketCnt := by
  rw [lookup, List.length_map, HTentry.counted]
  exact List.length_filter_le _ _

end JoinHashTbl
end Minirel
