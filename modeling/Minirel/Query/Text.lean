import Mathlib.Data.List.TakeWhile
import Mathlib.Tactic.IntervalCases
import Minirel.Catalog.Rows
import Minirel.Insert

/-! Integers as texts: what `"%d"` prints, `atoi` reads. -/
namespace Minirel

def IsDigit (c : UInt8) : Prop := 48 ≤ c ∧ c ≤ 57

instance (c : UInt8) : Decidable (IsDigit c) := inferInstanceAs (Decidable (_ ∧ _))

theorem byte_digitChar {d : Nat} (low : d < 10) :
    UInt8.ofNat (Nat.digitChar d).toNat = UInt8.ofNat (48 + d) := by
  interval_cases d <;> rfl

theorem isDigit_ofNat (n : Nat) : IsDigit (UInt8.ofNat (48 + n % 10)) ∧
    (UInt8.ofNat (48 + n % 10)).toNat = 48 + n % 10 := by
  have low : n % 10 < 10 := Nat.mod_lt _ (by omega)
  interval_cases n % 10 <;> decide

theorem decimal_eq (n : Nat) :
    decimal n = (if n < 10 then [] else decimal (n / 10)) ++ [UInt8.ofNat (48 + n % 10)] := by
  unfold decimal
  rw [Nat.toDigits_eq_if (by omega)]
  split
  next low => simp [byte_digitChar low, Nat.mod_eq_of_lt low]
  next => simp [byte_digitChar (Nat.mod_lt n (by omega : 0 < 10))]

theorem decimal_ne_nil (n : Nat) : decimal n ≠ [] := by
  rw [decimal_eq]
  exact List.append_ne_nil_of_right_ne_nil _ (List.cons_ne_nil _ _)

theorem decimal_digits (n : Nat) : ∀ c ∈ decimal n, IsDigit c := by
  induction n using Nat.strong_induction_on with
  | _ n ih =>
    intro c member
    rw [decimal_eq, List.mem_append, List.mem_singleton] at member
    rcases member with member | rfl
    · split at member
      · cases member
      · exact ih (n / 10) (by omega) c member
    · exact (isDigit_ofNat n).1

theorem decimal_length_le {k : Nat} (n : Nat) (below : n < 10 ^ (k + 1)) :
    (decimal n).length ≤ k + 1 := by
  induction k generalizing n with
  | zero =>
    rw [decimal_eq, if_pos (by simpa using below)]
    exact le_rfl
  | succ k ih =>
    rw [decimal_eq, List.length_append, List.length_singleton]
    split
    · simp
    · have shorter := ih (n / 10) (Nat.div_lt_of_lt_mul (by rwa [← Nat.pow_succ']))
      omega

theorem leadingDigits_of_digits {text : Name} (digits : ∀ c ∈ text, IsDigit c) :
    leadingDigits text = text.foldl (fun n c => 10 * n + (c.toNat - 48 : Int)) 0 := by
  have all : text.takeWhile (fun c => 48 ≤ c && c ≤ 57) = text := by
    rw [List.takeWhile_eq_self_iff]
    intro c member
    obtain ⟨low, high⟩ := digits c member
    simp [low, high]
  rw [leadingDigits, all]

theorem leadingDigits_decimal (n : Nat) : leadingDigits (decimal n) = n := by
  rw [leadingDigits_of_digits (decimal_digits n)]
  induction n using Nat.strong_induction_on with
  | _ n ih =>
    rw [decimal_eq, List.foldl_append, List.foldl_cons, List.foldl_nil, (isDigit_ofNat n).2]
    split
    next low =>
      rw [List.foldl_nil, Nat.mod_eq_of_lt low]
      omega
    next =>
      rw [ih (n / 10) (by omega)]
      omega

theorem IsDigit.plain {c : UInt8} (digit : IsDigit c) : isSpace c = false ∧ c ≠ 45 ∧ c ≠ 43 := by
  obtain ⟨low, _⟩ := digit
  have low' : 48 ≤ c.toNat := low
  refine ⟨?_, ?_, ?_⟩
  · have blank : c ≠ 32 := by
      rintro rfl
      exact absurd low' (by decide)
    have control : ¬ c ≤ 13 := by
      intro high
      have high' : c.toNat ≤ 13 := high
      omega
    simp [isSpace, blank, control]
  · rintro rfl
    exact absurd low' (by decide)
  · rintro rfl
    exact absurd low' (by decide)

theorem atoi_formatInt {v : Int} (low : -2 ^ 31 ≤ v) (high : v < 2 ^ 31) :
    atoi (formatInt v) = v := by
  have narrow : ∀ w : Int, w = v → int (max (-2 ^ 63) (min (2 ^ 63 - 1) w)) = v := by
    rintro _ rfl
    rw [min_eq_right (by omega), max_eq_right (by omega)]
    exact int_of_fits (by omega) (by omega)
  have value := leadingDigits_decimal v.natAbs
  unfold atoi formatInt
  by_cases negative : v < 0
  · rw [if_pos negative, List.dropWhile_cons_of_neg (by decide)]
    apply narrow
    simp only [value]
    omega
  · rw [if_neg negative]
    obtain ⟨c, rest, digits⟩ := List.exists_cons_of_ne_nil (decimal_ne_nil v.natAbs)
    obtain ⟨plain, minus, plus⟩ := (decimal_digits v.natAbs c (by simp [digits])).plain
    rw [digits] at value ⊢
    rw [List.dropWhile_cons_of_neg (by simp [plain])]
    apply narrow
    split
    next same => exact absurd (List.cons.inj same).1 minus
    next same => exact absurd (List.cons.inj same).1 plus
    next =>
      rw [value]
      omega

end Minirel
