import Mathlib.Logic.Function.Basic
import Mathlib.Data.List.Pairwise

/-! The entries of a partial map on the integers, listed by increasing key. -/
namespace Enumerate
variable {β : Type*} {f g : Int → Option β} {lo mid hi k : Int} {b : β}

def count (f : Int → Option β) : Nat → Int → List (Int × β)
  | 0, _ => []
  | n + 1, lo => ((f lo).map (lo, ·)).toList ++ count f n (lo + 1)

def span (f : Int → Option β) (lo hi : Int) : List (Int × β) := count f (hi - lo).toNat lo

theorem span_of_le (h : hi ≤ lo) : span f lo hi = [] := by
  unfold span
  rw [show (hi - lo).toNat = 0 by omega]
  rfl

theorem span_step (h : lo < hi) :
    span f lo hi = ((f lo).map (lo, ·)).toList ++ span f (lo + 1) hi := by
  unfold span
  rw [show (hi - lo).toNat = (hi - (lo + 1)).toNat + 1 by omega]
  rfl

/-- Induction along an interval, from its upper end down. -/
theorem interval_induction {e : Int} {motive : Int → Prop} (base : ∀ lo, e ≤ lo → motive lo)
    (step : ∀ lo, lo < e → motive (lo + 1) → motive lo) (lo : Int) : motive lo := by
  obtain ⟨n, hn⟩ : ∃ n : Nat, n = (e - lo).toNat := ⟨_, rfl⟩
  induction n generalizing lo with
  | zero => exact base lo (by omega)
  | succ n ih => exact step lo (by omega) (ih (lo + 1) (by omega))

theorem mem_span : (k, b) ∈ span f lo hi ↔ lo ≤ k ∧ k < hi ∧ f k = some b := by
  induction lo using interval_induction (e := hi) with
  | base lo h =>
    rw [span_of_le h]
    simp only [List.not_mem_nil, false_iff]
    omega
  | step lo h ih =>
    rw [span_step h, List.mem_append, ih]
    by_cases same : k = lo
    · subst same
      simp [h]
    · have apart : ((f lo).map (lo, ·)) ≠ some (k, b) := by
        intro found
        obtain ⟨_, _, pair⟩ := Option.map_eq_some_iff.mp found
        exact same (congrArg Prod.fst pair).symm
      simp only [Option.mem_toList, apart, false_or]
      constructor
      · rintro ⟨h1, h2⟩
        exact ⟨by omega, h2⟩
      · rintro ⟨h1, h2⟩
        exact ⟨by omega, h2⟩

theorem span_congr (same : ∀ k, lo ≤ k → k < hi → f k = g k) : span f lo hi = span g lo hi := by
  induction lo using interval_induction (e := hi) with
  | base lo h => rw [span_of_le h, span_of_le h]
  | step lo h ih =>
    rw [span_step h, span_step h, same lo (Int.le_refl lo) h,
      ih (fun k h1 h2 => same k (by omega) h2)]

theorem span_append (h1 : lo ≤ mid) (h2 : mid ≤ hi) :
    span f lo hi = span f lo mid ++ span f mid hi := by
  induction lo using interval_induction (e := mid) with
  | base lo h =>
    obtain rfl : lo = mid := by omega
    rw [span_of_le (Int.le_refl lo), List.nil_append]
  | step lo h ih => rw [span_step (show lo < hi by omega), span_step h, ih (by omega),
      List.append_assoc]

theorem span_eq_nil (none : ∀ k, lo ≤ k → k < hi → f k = none) : span f lo hi = [] := by
  induction lo using interval_induction (e := hi) with
  | base lo h => exact span_of_le h
  | step lo h ih =>
    rw [span_step h, none lo (Int.le_refl lo) h, ih (fun k h1 h2 => none k (by omega) h2)]
    rfl

/-- Splitting at a key that is bound. -/
theorem span_hit (h1 : lo ≤ k) (h2 : k < hi) (bound : f k = some b) :
    span f lo hi = span f lo k ++ (k, b) :: span f (k + 1) hi := by
  rw [span_append h1 (Int.le_of_lt h2), span_step h2, bound]
  rfl

/-- Splitting at a key that is not bound. -/
theorem span_miss (h1 : lo ≤ k) (h2 : k < hi) (unbound : f k = none) :
    span f lo hi = span f lo k ++ span f (k + 1) hi := by
  rw [span_append h1 (Int.le_of_lt h2), span_step h2, unbound]
  rfl

theorem span_increasing (f : Int → Option β) (lo hi : Int) :
    (span f lo hi).Pairwise (fun a b => a.1 < b.1) := by
  induction lo using interval_induction (e := hi) with
  | base lo h =>
    rw [span_of_le h]
    exact List.Pairwise.nil
  | step lo h ih =>
    rw [span_step h, List.pairwise_append]
    refine ⟨?_, ih, ?_⟩
    · cases f lo <;> simp
    · rintro ⟨k, b⟩ first ⟨l, c⟩ rest
      have later := (mem_span.mp rest).1
      obtain ⟨_, _, pair⟩ := Option.map_eq_some_iff.mp (Option.mem_toList.mp first)
      cases pair
      show lo < l
      omega

theorem span_filter (keep : Int → Bool) (thin : ∀ k, g k = if keep k then f k else none) :
    span g lo hi = (span f lo hi).filter fun e => keep e.1 := by
  induction lo using interval_induction (e := hi) with
  | base lo h => rw [span_of_le h, span_of_le h, List.filter_nil]
  | step lo h ih =>
    rw [span_step h, span_step h, List.filter_append, ih, thin]
    cases f lo with
    | none => simp
    | some b => cases kept : keep lo <;> simp [kept]

theorem span_update_outside {v : Option β} (outside : k < lo ∨ hi ≤ k) :
    span (Function.update f k v) lo hi = span f lo hi :=
  span_congr (fun j h1 h2 => Function.update_of_ne (by omega) ..)

end Enumerate
