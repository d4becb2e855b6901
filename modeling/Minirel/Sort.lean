import Minirel.Filter

/-! Comparison of sort attributes (sort.C). -/
namespace Minirel
open ByteMemory

def memcmp : Nat → List UInt8 → List UInt8 → Ordering
  | 0, _, _ => .eq
  | n + 1, s, t =>
    let a := s.headD 0
    let b := t.headD 0
    if a ≠ b then compare a.toNat b.toNat else memcmp n s.tail t.tail

/-- `diff` of `reccmp`, by its sign. -/
def recdiff (p1 p2 : List UInt8) (p1Len p2Len : Int) : Datatype → Option Ordering
  | .integer => some (intDiff (decode (p1.take 4)) (decode (p2.take 4)))
  | .float => floatDiff (unsigned (p1.take 4)) (unsigned (p2.take 4))
  | .string => some (memcmp (min p1Len p2Len).toNat p1 p2)

/-- A NaN cannot be converted to `int`. -/
def reccmp (p1 p2 : List UInt8) (p1Len p2Len : Int) (type : Datatype) : Option Int :=
  match recdiff p1 p2 p1Len p2Len type with
  | some .lt => some (-1)
  | some .gt => some 1
  | some .eq => some 0
  | none => none

end Minirel
