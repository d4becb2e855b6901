import Mathlib.Control.Monad.Basic

/-! Programs that draw on a supply of bounded size and give up when it is used
up. The state is how much has been used. -/
namespace Budget
variable {α β : Type} {size k m : Nat} {a : α} {b : β}

/-- The program takes exactly `k` from the supply and yields `a`, or it gives up
because there is not as much left. -/
def Takes (size : Nat) (p : StateT Nat Option α) (k : Nat) (a : α) : Prop :=
  ∀ used ≤ size, p.run used = if used + k ≤ size then some (a, used + k) else none

theorem Takes.pure (a : α) : Takes size (Pure.pure a) 0 a := by
  intro used room
  rw [Nat.add_zero, if_pos room]
  rfl

theorem Takes.bind {p : StateT Nat Option α} {f : α → StateT Nat Option β}
    (first : Takes size p k a) (rest : Takes size (f a) m b) : Takes size (p >>= f) (k + m) b := by
  intro used room
  rw [StateT.run_bind, first used room]
  by_cases enough : used + k ≤ size
  · rw [if_pos enough, ← Nat.add_assoc]
    exact rest (used + k) enough
  · rw [if_neg enough, if_neg (by omega)]
    rfl

theorem Takes.map {p : StateT Nat Option α} (g : α → β) (takes : Takes size p k a) :
    Takes size (g <$> p) k (g a) := by
  intro used room
  rw [StateT.run_map, takes used room]
  split <;> rfl

/-- From a supply that is not used the program succeeds if it takes at most all
of it. -/
theorem Takes.succeeds_iff {p : StateT Nat Option α} (takes : Takes size p k a) :
    p.run 0 ≠ none ↔ k ≤ size := by
  rw [takes 0 (Nat.zero_le _), Nat.zero_add]
  split <;> simp_all

end Budget
