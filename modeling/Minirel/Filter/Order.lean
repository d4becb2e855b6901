import Mathlib.Order.Compare
import Minirel.Sort

/-! Integers are compared by the sign of a 32-bit difference, in scans and in
sorts. That is the order of the integers as long as the difference fits. -/
namespace Minirel
open ByteMemory

def Operator.Relates : Operator → Int → Int → Prop
  | .lt, x, y => x < y
  | .lte, x, y => x ≤ y
  | .eq, x, y => x = y
  | .gte, x, y => y ≤ x
  | .gt, x, y => y < x
  | .ne, x, y => x ≠ y

theorem Operator.holds_compare (op : Operator) (x y : Int) : op.holds (some (compare x y)) = true ↔
    op.Relates x y := by
  rcases lt_trichotomy x y with less | rfl | greater
  · rw [compare_lt_iff_lt.mpr less]
    cases op <;> simp [Operator.holds, Operator.Relates] <;> omega
  · rw [compare_eq_iff_eq.mpr rfl]
    cases op <;> simp [Operator.holds, Operator.Relates]
  · rw [compare_gt_iff_gt.mpr greater]
    cases op <;> simp [Operator.holds, Operator.Relates] <;> omega

section difference
variable {a b : Int}

theorem intDiff_eq_compare (low : -2 ^ 31 ≤ a - b) (high : a - b < 2 ^ 31) :
    intDiff a b = compare a b := by
  have fits : (a - b).bmod (2 ^ 32) = a - b := by
    rw [Int.bmod_def]
    omega
  rw [intDiff, fits]
  rcases lt_trichotomy a b with less | rfl | greater
  · rw [compare_lt_iff_lt.mpr less, compare_lt_iff_lt.mpr (by omega)]
  · rw [Int.sub_self, compare_eq_iff_eq.mpr rfl, compare_eq_iff_eq.mpr rfl]
  · rw [compare_gt_iff_gt.mpr greater, compare_gt_iff_gt.mpr (by omega)]

/-- A difference that does not fit has the wrong sign. -/
theorem intDiff_eq_swap (lowA : -2 ^ 31 ≤ a) (highA : a < 2 ^ 31) (lowB : -2 ^ 31 ≤ b)
    (highB : b < 2 ^ 31) (wraps : a - b < -2 ^ 31 ∨ 2 ^ 31 ≤ a - b) : intDiff a b = compare b a ∧
      a ≠ b := by
  refine ⟨?_, by omega⟩
  rcases wraps with below | above
  · have wrapped : (a - b).bmod (2 ^ 32) = a - b + 2 ^ 32 := by
      rw [Int.bmod_def]
      omega
    rw [intDiff, wrapped, compare_gt_iff_gt.mpr (by omega), compare_gt_iff_gt.mpr (by omega)]
  · have wrapped : (a - b).bmod (2 ^ 32) = a - b - 2 ^ 32 := by
      rw [Int.bmod_def]
      omega
    rw [intDiff, wrapped, compare_lt_iff_lt.mpr (by omega), compare_lt_iff_lt.mpr (by omega)]

end difference

/-- Wherever the two numbers are compared, by a filter on an attribute or by a
sort, the outcome is that of the numbers. -/
structure ComparedAs (a b : Int) : Prop where
  filter : ∀ (f : Filter) (rec : List UInt8), f.type = .integer → f.accepted = true →
    f.offset + f.length ≤ rec.length → 4 ≤ f.filter.length →
    decode ((rec.drop f.offset.toNat).take 4) = a → decode (f.filter.take 4) = b →
      (f.matchRec rec = true ↔ f.op.Relates a b)
  sort : ∀ (p1 p2 : List UInt8) (p1Len p2Len : Int), 4 ≤ p1.length → 4 ≤ p2.length →
    decode (p1.take 4) = a → decode (p2.take 4) = b →
      reccmp p1 p2 p1Len p2Len .integer = some (a - b).sign

section compared
variable {a b : Int}

theorem Filter.matchRec_integer {f : Filter} {rec : List UInt8} (type : f.type = .integer)
    (accepted : f.accepted = true) (inside : f.offset + f.length ≤ rec.length) : f.matchRec rec =
      f.op.holds (some (intDiff (decode ((rec.drop f.offset.toNat).take 4))
        (decode (f.filter.take 4)))) := by
  have four : f.length = 4 := by
    simp [Filter.accepted, type] at accepted
    omega
  have within : ¬ f.offset + f.length - 1 ≥ rec.length := by omega
  rw [Filter.matchRec, if_neg within, type, four]
  rfl

theorem reccmp_integer (p1 p2 : List UInt8) (p1Len p2Len : Int) {diff : Int}
    (same : intDiff (decode (p1.take 4)) (decode (p2.take 4)) = compare diff 0) :
    reccmp p1 p2 p1Len p2Len .integer = some diff.sign := by
  rw [reccmp, recdiff, same]
  rcases lt_trichotomy diff 0 with less | rfl | greater
  · rw [compare_lt_iff_lt.mpr less, Int.sign_eq_neg_one_of_neg less]
  · rfl
  · rw [compare_gt_iff_gt.mpr greater, Int.sign_eq_one_of_pos greater]

theorem ComparedAs.of_fits (low : -2 ^ 31 ≤ a - b) (high : a - b < 2 ^ 31) : ComparedAs a b := by
  constructor
  · rintro f rec type accepted inside _ rfl rfl
    rw [Filter.matchRec_integer type accepted inside, intDiff_eq_compare low high,
      Operator.holds_compare]
  · rintro p1 p2 p1Len p2Len _ _ rfl rfl
    refine reccmp_integer p1 p2 p1Len p2Len ?_
    rw [intDiff, Int.bmod_def]
    congr 1
    omega

theorem decode_encode_take (low : -2 ^ 31 ≤ a) (high : a < 2 ^ 31) :
    decode ((encode 4 a).take 4) = a := by
  rw [List.take_of_length_le (by simp)]
  exact decode_encode_of_fits 4 (by omega) (by omega)

/-- A comparison of two integers is that of the numbers exactly if their
difference is a 32-bit number as well. -/
theorem comparedAs_iff (lowA : -2 ^ 31 ≤ a) (highA : a < 2 ^ 31) (lowB : -2 ^ 31 ≤ b)
    (highB : b < 2 ^ 31) :
    ComparedAs a b ↔ -2 ^ 31 ≤ a - b ∧ a - b < 2 ^ 31 := by
  refine ⟨fun compared => ?_, fun ⟨low, high⟩ => .of_fits low high⟩
  by_contra outside
  obtain ⟨swapped, apart⟩ := intDiff_eq_swap lowA highA lowB highB (by omega)
  -- `a < b` is answered by `b < a`
  have less := compared.filter ⟨0, 4, .integer, encode 4 b, .lt⟩ (encode 4 a) rfl rfl (by simp)
    (by simp)
    (decode_encode_take lowA highA) (decode_encode_take lowB highB)
  rw [Filter.matchRec_integer rfl rfl (by simp)] at less
  simp only [List.drop_zero, Int.toNat_zero] at less
  rw [decode_encode_take lowA highA, decode_encode_take lowB highB, swapped,
    Operator.holds_compare] at less
  simp only [Operator.Relates] at less
  omega

/-- The smallest and the largest integer that can be compared with 0 and 1. -/
theorem comparedAs_iff_extreme : ComparedAs (-2 ^ 31) 0 ∧ ComparedAs (2 ^ 31 - 1) 0 :=
  ⟨(comparedAs_iff (by decide) (by decide) (by decide) (by decide)).mpr (by decide),
    (comparedAs_iff (by decide) (by decide) (by decide) (by decide)).mpr (by decide)⟩

/-- `-2147483648 < 1` is denied, and the sort takes the smaller for the larger;
its order has cycles. -/
theorem integer_order_wraps :
    (⟨0, 4, .integer, encode 4 1, .lt⟩ : Filter).matchRec (encode 4 (-2147483648)) = false ∧
    reccmp (encode 4 (-2147483648)) (encode 4 1) 4 4 .integer = some 1 ∧
    (reccmp (encode 4 (-2000000000)) (encode 4 0) 4 4 .integer = some (-1) ∧
      reccmp (encode 4 0) (encode 4 2000000000) 4 4 .integer = some (-1) ∧
      reccmp (encode 4 2000000000) (encode 4 (-2000000000)) 4 4 .integer = some (-1)) ∧
    ¬ ComparedAs (-2147483648) 1 := by
  refine ⟨by decide, by decide, ⟨by decide, by decide, by decide⟩, fun compared => ?_⟩
  have less := compared.filter ⟨0, 4, .integer, encode 4 1, .lt⟩ (encode 4 (-2147483648)) rfl rfl
    (by decide) (by decide)
    (by decide) (by decide)
  exact absurd (less.mpr (by simp [Operator.Relates])) (by decide)

end compared
end Minirel
