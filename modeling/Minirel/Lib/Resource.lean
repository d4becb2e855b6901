import Mathlib.Algebra.Group.Submonoid.Basic
import Mathlib.Algebra.Group.Subgroup.Defs
import Mathlib.Tactic.Abel
import Minirel.Lib.Contract

/-! Triples for programs that take and give back resources. The calls change an
amount; a program starts with an amount in hand and ends with one that goes with
its value. It may leave behind what counts as waste, and does not touch what
others hold. -/
namespace Program
variable {C : Type} {R : C → Type} {α β M : Type} [AddCommGroup M]

structure Accounting (R : C → Type) (M : Type) where
  admits : (c : C) → R c → Prop
  change : (c : C) → R c → M

def Accounting.contract (E : Accounting R M) : Contract R M where
  admits c _ reply := E.admits c reply
  next c g reply := g + E.change c reply

def Handles (E : Accounting R M) (waste : AddSubmonoid M) (before : M) (p : Program R α)
    (after : α → M → Prop) : Prop :=
  ∀ others, p.Ensures E.contract (others + before) fun value g =>
    ∃ held left, after value held ∧ left ∈ waste ∧ g = others + (held + left)

namespace Handles
variable {E : Accounting R M} {waste : AddSubmonoid M} {before held left : M} {p q : Program R α}
    {value : α}
  {f : α → Program R β} {after after' : α → M → Prop} {last : β → M → Prop}

theorem pure (holds : after value before) : Handles E waste before (Pure.pure value) after :=
  fun others => ⟨before, 0, holds, waste.zero_mem, by rw [add_zero]⟩

theorem halt : Handles E waste before (.halt : Program R α) after := fun _ => trivial

theorem halt_bind : Handles E waste before ((.halt : Program R α) >>= f) last := fun _ => trivial

theorem call {c : C} {k : R c → Program R α}
    (next : ∀ reply, E.admits c reply →
      Handles E waste (before + E.change c reply) (k reply) after) :
    Handles E waste before (.call c k) after := by
  intro others reply admitted
  have ensures := next reply admitted others
  rwa [← add_assoc] at ensures

theorem perform {c : C} {after : R c → M → Prop}
    (holds : ∀ reply, E.admits c reply → after reply (before + E.change c reply)) :
    Handles E waste before (Program.perform c) after :=
  call fun reply admitted => pure (holds reply admitted)

theorem bind (first : Handles E waste before p after)
    (next : ∀ value held, after value held → Handles E waste held (f value) last) :
    Handles E waste before (p >>= f) last := by
  intro others
  refine ensures_bind.mpr ((first others).mono ?_)
  rintro value _ ⟨held, left, holds, wasted, rfl⟩
  have regrouped : others + (held + left) = others + left + held := by abel
  rw [regrouped]
  refine (next value held holds (others + left)).mono ?_
  rintro result _ ⟨held', left', holds', wasted', rfl⟩
  exact ⟨held', left + left', holds', waste.add_mem wasted wasted', by abel⟩

theorem mono (handles : Handles E waste before p after)
    (weaker : ∀ value held, after value held → after' value held) :
    Handles E waste before p after' := by
  intro others
  refine (handles others).mono ?_
  rintro value _ ⟨held, left, holds, rest⟩
  exact ⟨held, left, weaker value held holds, rest⟩

/-- What the program does not use stays in hand. -/
theorem frame (extra : M) (handles : Handles E waste before p after) :
    Handles E waste (before + extra) p fun value held => ∃ own, after value own ∧
      held = own + extra := by
  intro others
  have regrouped : others + (before + extra) = others + extra + before := by abel
  rw [regrouped]
  refine (handles (others + extra)).mono ?_
  rintro value _ ⟨held, left, holds, wasted, rfl⟩
  exact ⟨held + extra, left, ⟨held, holds, rfl⟩, wasted, by abel⟩

/-- What is in hand may be left behind if it counts as waste. -/
theorem discard (wasted : left ∈ waste) (handles : Handles E waste before p after) :
    Handles E waste (before + left) p after := by
  intro others
  have regrouped : others + (before + left) = others + left + before := by abel
  rw [regrouped]
  refine (handles (others + left)).mono ?_
  rintro value _ ⟨held, left', holds, wasted', rfl⟩
  exact ⟨held, left + left', holds, waste.add_mem wasted wasted', by abel⟩

/-- Return with nothing in hand. -/
theorem abandon (wasted : before ∈ waste) (holds : after value 0) :
    Handles E waste before (Pure.pure value) after := by
  have handles : Handles E waste (0 + before) (Pure.pure value) after := discard wasted (.pure holds)
  rwa [zero_add] at handles

theorem ite {cond : Prop} [Decidable cond] (yes : cond → Handles E waste before p after)
    (no : ¬ cond → Handles E waste before q after) :
    Handles E waste before (if cond then p else q) after := by
  split
  · exact yes ‹_›
  · exact no ‹_›

end Handles
end Program
