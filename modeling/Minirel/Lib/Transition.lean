import Mathlib.Tactic.TypeStar

/-! Labelled transition systems: reachable states and the invariant rule. -/
namespace Transition
variable {σ α : Type*} {start : σ → Prop} {step : σ → α → σ → Prop} {s : σ}

/-- States reached from a starting state by any number of steps. -/
inductive Reachable (start : σ → Prop) (step : σ → α → σ → Prop) : σ → Prop
  | initial {s : σ} : start s → Reachable start step s
  | next {s t : σ} {a : α} : Reachable start step s → step s a t → Reachable start step t

/-- What holds at the start and survives every step holds throughout. -/
theorem Reachable.invariant {inv : σ → Prop} (base : ∀ s, start s → inv s)
    (keep : ∀ s a t, inv s → step s a t → inv t) (reached : Reachable start step s) : inv s := by
  induction reached with
  | initial h => exact base _ h
  | next _ h ih => exact keep _ _ _ ih h

end Transition
