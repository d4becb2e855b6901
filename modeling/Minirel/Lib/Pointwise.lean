import Mathlib.Data.List.Forall2

/-! Lists that are related element by element. -/
namespace Pointwise
variable {α β γ : Type*} {R : α → β → Prop} {S : β → γ → Prop} {l : List α} {l' : List β}
    {l'' : List γ}

theorem comp (first : List.Forall₂ R l l') (second : List.Forall₂ S l' l'') :
    List.Forall₂ (fun a c => ∃ b, R a b ∧ S b c) l l'' := by
  induction first generalizing l'' with
  | nil =>
    cases second
    exact .nil
  | cons head _ ih =>
    cases second with
    | cons head' rest => exact .cons ⟨_, head, head'⟩ (ih rest)

theorem exists_right (related : ∀ a ∈ l, ∃ b, R a b) : ∃ l', List.Forall₂ R l l' := by
  induction l with
  | nil => exact ⟨[], .nil⟩
  | cons a l ih =>
    rw [List.forall_mem_cons] at related
    obtain ⟨b, head⟩ := related.1
    obtain ⟨l', tail⟩ := ih related.2
    exact ⟨b :: l', .cons head tail⟩

theorem forall_right {P : β → Prop} (related : List.Forall₂ R l l') (holds : ∀ a b, R a b → P b) :
    ∀ b ∈ l', P b := by
  induction related with
  | nil => simp
  | cons head _ ih => exact List.forall_mem_cons.mpr ⟨holds _ _ head, ih⟩

theorem and_right {P : β → Prop} (related : List.Forall₂ R l l') (holds : ∀ b ∈ l', P b) :
    List.Forall₂ (fun a b => R a b ∧ P b) l l' := by
  induction related with
  | nil => exact .nil
  | cons head _ ih =>
    rw [List.forall_mem_cons] at holds
    exact .cons ⟨head, holds.1⟩ (ih holds.2)

theorem modify_right {T : α → β → Prop} {f : β → β} {i : Nat} (related : List.Forall₂ R l l')
    (here : ∀ a b, l'[i]? = some b → R a b → T a (f b)) (elsewhere : ∀ a b, R a b → T a b) :
    List.Forall₂ T l (l'.modify i f) := by
  induction related generalizing i with
  | nil =>
    rw [List.modify_nil]
    exact .nil
  | cons head rest ih =>
    cases i with
    | zero => exact .cons (here _ _ rfl head) (rest.imp elsewhere)
    | succ i => exact .cons (elsewhere _ _ head) (ih here)

theorem forall_left (related : List.Forall₂ R l l') : ∀ a ∈ l, ∃ b, R a b := by
  induction related with
  | nil => simp
  | cons head _ ih => exact List.forall_mem_cons.mpr ⟨⟨_, head⟩, ih⟩

theorem exists_left (related : List.Forall₂ R l l') : ∀ b ∈ l', ∃ a ∈ l, R a b := by
  induction related with
  | nil => simp
  | @cons a b l l' head _ ih =>
    rw [List.forall_mem_cons]
    refine ⟨⟨a, List.mem_cons_self, head⟩, fun b member => ?_⟩
    obtain ⟨a', member', rel⟩ := ih b member
    exact ⟨a', List.mem_cons_of_mem _ member', rel⟩

end Pointwise
