import Mathlib.Data.Multiset.Bind

/-! What is made of the matching pairs of elements of a list, as a multiset. -/
namespace Pairs
variable {α β : Type} {l : List α} {p : α → α → Bool} {f : α → α → β} {g : α → β}

/-- One value for each pair that matches. -/
def values (p : α → α → Bool) (f : α → α → β) (l m : List α) : List β :=
  l.flatMap fun a => (m.filter (p a)).map (f a)

theorem values_coe (l m : List α) : (values p f l m : Multiset β) =
    (((l : Multiset α) ×ˢ (m : Multiset α)).filter fun q => p q.1 q.2).map fun q => f q.1 q.2 := by
  simp only [SProd.sprod, Multiset.product, Multiset.filter_bind, Multiset.map_bind,
    Multiset.filter_map, Multiset.map_map, values]
  rw [← Multiset.coe_bind]
  refine congrArg (Multiset.bind (l : Multiset α)) (funext fun a => ?_)
  simp

/-- The first element of a pair can stand for what is made of it if it does where
the two agree and the second does elsewhere, where the pair matches both ways. -/
theorem values_perm (Agree : α → α → Prop) (symm : ∀ a b, Agree a b → Agree b a)
    (alike : ∀ a ∈ l, ∀ b ∈ l, p a b = true → Agree a b → f a b = g a)
    (crossed : ∀ a ∈ l, ∀ b ∈ l, p a b = true → ¬ Agree a b → p b a = true ∧ f a b = g b) :
    (values p f l l).Perm (values p (fun a _ => g a) l l) := by
  classical
  rw [← Multiset.coe_eq_coe, values_coe, values_coe]
  obtain ⟨matching, eq⟩ : ∃ m, m = ((l : Multiset α) ×ˢ (l : Multiset α)).filter fun q =>
    p q.1 q.2 = true := ⟨_, rfl⟩
  have member : ∀ q ∈ matching, q.1 ∈ l ∧ q.2 ∈ l ∧ p q.1 q.2 = true := by
    intro q listed
    rw [eq, Multiset.mem_filter, Multiset.mem_product] at listed
    exact ⟨listed.1.1, listed.1.2, listed.2⟩
  -- the pairs that do not agree are the same the other way around
  have crossing : (matching.filter fun q => ¬ Agree q.1 q.2).map Prod.swap =
      matching.filter fun q => ¬ Agree q.1 q.2 := by
    rw [eq, Multiset.filter_filter]
    nth_rewrite 2 [← Multiset.map_swap_product]
    rw [Multiset.filter_map]
    refine congrArg (Multiset.map Prod.swap) (Multiset.filter_congr fun q listed => ?_)
    rw [Multiset.mem_product] at listed
    obtain ⟨first, second⟩ := listed
    constructor
    · rintro ⟨differ, matches'⟩
      exact ⟨fun agree => differ (symm _ _ agree), (crossed _ first _ second matches' differ).1⟩
    · rintro ⟨differ, matches'⟩
      exact ⟨fun agree => differ (symm _ _ agree), (crossed _ second _ first matches' differ).1⟩
  rw [← eq, ← Multiset.filter_add_not (fun q : α × α => Agree q.1 q.2) matching, Multiset.map_add,
    Multiset.map_add]
  refine congrArg₂ (· + ·) (Multiset.map_congr rfl fun q listed => ?_) ?_
  · obtain ⟨listed, agree⟩ := Multiset.mem_filter.mp listed
    obtain ⟨first, second, matches'⟩ := member q listed
    exact alike _ first _ second matches' agree
  · nth_rewrite 2 [← crossing]
    rw [Multiset.map_map]
    refine Multiset.map_congr rfl fun q listed => ?_
    obtain ⟨listed, differ⟩ := Multiset.mem_filter.mp listed
    obtain ⟨first, second, matches'⟩ := member q listed
    exact (crossed _ first _ second matches' differ).2

/-- Two elements show whether the first one of a pair can stand for it. -/
theorem eq_of_values_perm {a b : α} (matching : p a b = true) (first : f a a = g a)
    (second : f b b = g b)
    (perm : (values p f [a, b] [a, b]).Perm (values p (fun a _ => g a) [a, b] [a, b])) :
    f a b = g a ∨ p b a = true ∧ f a b = g b := by
  have sides (h : α → α → β) : values p h [a, b] [a, b] = (if p a a then [h a a] else []) ++
      ((h a b :: if p b a then [h b a] else []) ++ if p b b then [h b b] else []) := by
    cases same : p a a <;> cases back : p b a <;> cases same' : p b b <;>
      simp [values, matching, same, back, same']
  rw [sides f, sides fun a _ => g a, first, second, List.perm_append_left_iff,
    List.perm_append_right_iff] at perm
  cases back : p b a with
  | false => simpa [back] using perm
  | true =>
    have member := perm.subset List.mem_cons_self
    simpa [back] using member

end Pairs
