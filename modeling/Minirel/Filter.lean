import Minirel.Basic
import Minirel.Lib.Memory

/-! Scan filters: the comparison of an attribute inside a record with a filter
value (heapfile.h, `HeapFileScan::startScan` and `matchRec`). -/
namespace Minirel
open ByteMemory

inductive Datatype
  | string | integer | float
deriving DecidableEq, Repr

inductive Operator
  | lt | lte | eq | gte | gt | ne
deriving DecidableEq, Repr

/-- `strncmp`: bytes compare as unsigned characters, up to `n` of them or to a
common NUL. Memory behind a string reads as its terminator. -/
def strncmp : Nat → List UInt8 → List UInt8 → Ordering
  | 0, _, _ => .eq
  | n + 1, s, t =>
    let a := s.headD 0
    let b := t.headD 0
    if a ≠ b then compare a.toNat b.toNat
    else if a = 0 then .eq
    else strncmp n s.tail t.tail

/-- The sign of `iattr - ifltr`, computed in 32 bits. -/
def intDiff (a b : Int) : Ordering := compare ((a - b).bmod (2 ^ 32)) 0

/-- A single-precision number by its bit pattern: the position of a number in
the order of all of them, `none` for NaN. Both zeros are at 0. -/
def floatKey (bits : Nat) : Option Int :=
  let magnitude : Nat := bits % 2 ^ 31
  if magnitude > 0x7F800000 then none
  else if bits < 2 ^ 31 then some (magnitude : Int)
  else some (-(magnitude : Int))

/-- The sign of `fattr - ffltr`, if it has one: the difference of numbers that
are not NaN is NaN only for two equal infinities. -/
def floatDiff (a b : Nat) : Option Ordering :=
  match floatKey a, floatKey b with
  | some x, some y => if x = y ∧ x.natAbs = 0x7F800000 then none else some (compare x y)
  | _, _ => none

/-- `diff op 0.0`, where a NaN compares with nothing but is different. -/
def Operator.holds : Operator → Option Ordering → Bool
  | .lt, diff => diff == some .lt
  | .lte, diff => diff == some .lt || diff == some .eq
  | .eq, diff => diff == some .eq
  | .gte, diff => diff == some .gt || diff == some .eq
  | .gt, diff => diff == some .gt
  | .ne, diff => diff != some .eq

/-- The five scan parameters; `filter` is the value it points to. -/
structure Filter where
  offset : Int
  length : Int
  type : Datatype
  filter : List UInt8
  op : Operator
deriving DecidableEq, Repr

namespace Filter

def accepted (f : Filter) : Bool :=
  !(f.offset < 0 || f.length < 1 || (f.type = .integer && f.length ≠ 4) ||
    (f.type = .float && f.length ≠ 4))

def diff (type : Datatype) (length : Int) (field value : List UInt8) : Option Ordering :=
  match type with
  | .integer => some (intDiff (decode (field.take length.toNat)) (decode (value.take length.toNat)))
  | .float => floatDiff (unsigned (field.take length.toNat)) (unsigned (value.take length.toNat))
  | .string => some (strncmp length.toNat field value)

def matchRec (f : Filter) (rec : List UInt8) : Bool :=
  if f.offset + f.length - 1 ≥ rec.length then false
  else f.op.holds (diff f.type f.length (rec.drop f.offset.toNat) f.filter)

end Filter
end Minirel
