import Mathlib.Algebra.BigOperators.Group.List.Basic
import Mathlib.Algebra.GroupWithZero.Nat
import Mathlib.Data.List.Basic

/-! Merging any number of lists: the smallest of their heads comes next, the
first one of several. `gt a b` tells that `b` has to come before `a`. -/
namespace Merge
variable {α : Type*}

def better (gt : α → α → Bool) (best : Option (Nat × α)) (i : Nat) (a : α) : Nat × α :=
  match best with
  | none => (i, a)
  | some (k, b) => if gt b a then (i, a) else (k, b)

def smallest (gt : α → α → Bool) : Option (Nat × α) → Nat → List (List α) → Option (Nat × α)
  | best, _, [] => best
  | best, i, [] :: lists => smallest gt best (i + 1) lists
  | best, i, (a :: _) :: lists => smallest gt (some (better gt best i a)) (i + 1) lists

/-- The order in which the elements of the lists are taken, each with the number
of its list. -/
inductive Merges (gt : α → α → Bool) : List (List α) → List (Nat × α) → Prop
  | nil (none : smallest gt none 0 lists = none) : Merges gt lists []
  | cons (first : smallest gt none 0 lists = some (i, a))
      (rest : Merges gt (lists.modify i List.tail) out) :
      Merges gt lists ((i, a) :: out)

variable {gt : α → α → Bool} {best : Option (Nat × α)} {lists : List (List α)}
    {out : List (Nat × α)}
  {a b : α} {i k : Nat}

theorem better_cases (gt : α → α → Bool) (best : Option (Nat × α)) (i : Nat) (a : α) :
    better gt best i a = (i, a) ∨ best = some (better gt best i a) := by
  cases best with
  | none => exact .inl rfl
  | some b =>
    obtain ⟨k, b⟩ := b
    simp only [better]
    split
    · exact .inl rfl
    · exact .inr rfl

theorem smallest_isSome (gt : α → α → Bool) (b : Nat × α) (i : Nat) (lists : List (List α)) :
    ∃ r, smallest gt (some b) i lists = some r := by
  induction lists generalizing b i with
  | nil => exact ⟨b, rfl⟩
  | cons list lists ih =>
    cases list with
    | nil => exact ih b (i + 1)
    | cons a list => exact ih _ (i + 1)

theorem eq_nil_of_smallest_none (none : smallest gt none i lists = none) :
    ∀ list ∈ lists, list = [] := by
  induction lists generalizing i with
  | nil => simp
  | cons list lists ih =>
    cases list with
    | nil => exact List.forall_mem_cons.mpr ⟨rfl, ih none⟩
    | cons a list =>
      obtain ⟨r, some⟩ := smallest_isSome gt (i, a) (i + 1) lists
      cases none.symm.trans some

theorem smallest_mem (found : smallest gt best k lists = some (i, a)) :
    best = some (i, a) ∨ k ≤ i ∧ ∃ rest, lists[i - k]? = some (a :: rest) := by
  induction lists generalizing best k with
  | nil => exact .inl found
  | cons list lists ih =>
    have later (h : k + 1 ≤ i ∧ ∃ rest, lists[i - (k + 1)]? = some (a :: rest)) :
        k ≤ i ∧ ∃ rest, (list :: lists)[i - k]? = some (a :: rest) := by
      obtain ⟨low, rest, there⟩ := h
      refine ⟨by omega, rest, ?_⟩
      rw [show i - k = i - (k + 1) + 1 by omega, List.getElem?_cons_succ]
      exact there
    cases list with
    | nil => exact (ih found).imp_right later
    | cons b list =>
      rcases ih found with here | there
      · rcases better_cases gt best k b with new | old
        · rw [new] at here
          cases here
          exact .inr ⟨Nat.le_refl _, list, by simp⟩
        · exact .inl (old.trans here)
      · exact .inr (later there)

theorem head_of_smallest (found : smallest gt none 0 lists = some (i, a)) :
    ∃ rest, lists[i]? = some (a :: rest) := by
  obtain ⟨_, rest, there⟩ := (smallest_mem found).resolve_left nofun
  exact ⟨rest, there⟩

/-- What holds of all lists and goes over to their tails holds after an element
was taken. -/
theorem forall_modify_tail {Q : List α → Prop} (i : Nat) (holds : ∀ list ∈ lists, Q list)
    (shrink : ∀ list, Q list → Q list.tail) : ∀ list ∈ lists.modify i List.tail, Q list := by
  intro list member
  obtain ⟨j, there⟩ := List.mem_iff_getElem?.mp member
  rw [List.getElem?_modify] at there
  obtain ⟨old, there, same⟩ := Option.map_eq_some_iff.mp there
  have holds := holds old (List.mem_of_getElem? there)
  split at same
  · exact same ▸ shrink old holds
  · exact same ▸ holds

theorem sum_modify_tail {rest : List α} (there : lists[i]? = some (a :: rest)) :
    ((lists.modify i List.tail).map List.length).sum + 1 = (lists.map List.length).sum := by
  induction lists generalizing i with
  | nil => simp at there
  | cons list lists ih =>
    cases i with
    | zero =>
      obtain rfl : list = a :: rest := by simpa using there
      simp
      omega
    | succ i =>
      rw [List.getElem?_cons_succ] at there
      have less := ih there
      rw [List.modify_succ_cons, List.map_cons, List.map_cons, List.sum_cons, List.sum_cons]
      omega

theorem Merges.exists_out (gt : α → α → Bool) (lists : List (List α)) :
    ∃ out, Merges gt lists out := by
  -- every element taken leaves one less
  generalize size : (lists.map List.length).sum = n
  induction n using Nat.strongRecOn generalizing lists with
  | _ n ih =>
    cases found : smallest gt none 0 lists with
    | none => exact ⟨[], .nil found⟩
    | some r =>
      obtain ⟨i, a⟩ := r
      obtain ⟨rest, there⟩ := head_of_smallest found
      have less := sum_modify_tail there
      obtain ⟨out, merges⟩ := ih _ (by omega) (lists.modify i List.tail) rfl
      exact ⟨_, .cons found merges⟩

/-- Every element of every list is taken once, and those of one list in their
order. -/
theorem Merges.projection (merges : Merges gt lists out) (j : Nat) :
    (out.filter fun e => e.1 = j).map Prod.snd = lists[j]?.getD [] := by
  induction merges with
  | @nil lists none =>
    cases there : lists[j]? with
    | none => rfl
    | some list => exact (eq_nil_of_smallest_none none list (List.mem_of_getElem? there)).symm
  | @cons lists i a out first _ ih =>
    obtain ⟨rest, there⟩ := head_of_smallest first
    rw [List.getElem?_modify] at ih
    by_cases same : i = j
    · subst same
      rw [List.filter_cons_of_pos (by simp), List.map_cons, ih, there]
      simp
    · rw [List.filter_cons_of_neg (by simpa using same), ih]
      simp [same]

theorem Merges.mem (merges : Merges gt lists out) {e : Nat × α} (member : e ∈ out) :
    ∃ list ∈ lists, e.2 ∈ list := by
  have taken : e.2 ∈ (out.filter fun e' => e'.1 = e.1).map Prod.snd :=
    List.mem_map_of_mem (List.mem_filter.mpr ⟨member, by simp⟩)
  rw [merges.projection e.1] at taken
  cases there : lists[e.1]? with
  | none => simp [there] at taken
  | some list =>
    rw [there] at taken
    exact ⟨list, List.mem_of_getElem? there, taken⟩

/-! Order. -/

/-- On the elements `P` holds of, "not greater" is a total preorder. -/
structure Orders (gt : α → α → Bool) (P : α → Prop) : Prop where
  total : ∀ a b, P a → P b → gt a b = true → gt b a = false
  trans : ∀ a b c, P a → P b → P c → gt a b = false → gt b c = false → gt a c = false

section order
variable {P : α → Prop}

theorem Orders.refl (orders : Orders gt P) (holds : P a) : gt a a = false := by
  cases same : gt a a with
  | false => rfl
  | true => exact same.symm.trans (orders.total a a holds holds same)

theorem Orders.better_le (orders : Orders gt P) (known : ∀ k b, best = some (k, b) → P b)
    (holds : P a) :
    P (better gt best i a).2 ∧ gt (better gt best i a).2 a = false ∧
      ∀ k b, best = some (k, b) → gt (better gt best i a).2 b = false := by
  cases best with
  | none => exact ⟨holds, orders.refl holds, nofun⟩
  | some old =>
    obtain ⟨k, b⟩ := old
    have holds' := known k b rfl
    cases less : gt b a with
    | true =>
      simp only [better, less, if_true]
      refine ⟨holds, orders.refl holds, ?_⟩
      rintro _ _ ⟨⟩
      exact orders.total b a holds' holds less
    | false =>
      simp only [better, less]
      refine ⟨holds', less, ?_⟩
      rintro _ _ ⟨⟩
      exact orders.refl holds'

/-- The smallest head is not greater than any of them. -/
theorem Orders.smallest_le (orders : Orders gt P) (all : ∀ list ∈ lists, ∀ x ∈ list, P x)
    (known : ∀ k b, best = some (k, b) → P b) (found : smallest gt best k lists = some (i, a)) :
    P a ∧ (∀ k b, best = some (k, b) → gt a b = false) ∧
      ∀ list ∈ lists, ∀ x, list.head? = some x → gt a x = false := by
  induction lists generalizing best k with
  | nil =>
    have holds := known i a found
    refine ⟨holds, ?_, by simp⟩
    intro k' b old
    cases found.symm.trans old
    exact orders.refl holds
  | cons list lists ih =>
    rw [List.forall_mem_cons] at all
    cases list with
    | nil =>
      obtain ⟨holds, old, heads⟩ := ih all.2 known found
      exact ⟨holds, old, List.forall_mem_cons.mpr ⟨nofun, heads⟩⟩
    | cons b list =>
      have first : P b := all.1 b List.mem_cons_self
      obtain ⟨holds', new, old'⟩ := orders.better_le (i := k) known first
      have known' : ∀ j x, some (better gt best k b) = some (j, x) → P x := by
        rintro j x same
        rw [Option.some.inj same] at holds'
        exact holds'
      obtain ⟨holds, old, heads⟩ := ih all.2 known' found
      have step := old (better gt best k b).1 (better gt best k b).2 rfl
      refine ⟨holds, fun j x same => ?_, List.forall_mem_cons.mpr ⟨?_, heads⟩⟩
      · exact orders.trans a _ x holds holds' (known j x same) step (old' j x same)
      · rintro x ⟨⟩
        exact orders.trans a _ b holds holds' first step new

/-- Sorted lists are merged into a sorted one. -/
theorem Merges.sorted (orders : Orders gt P) (merges : Merges gt lists out)
    (all : ∀ list ∈ lists, ∀ x ∈ list, P x)
    (sorted : ∀ list ∈ lists, list.Pairwise fun a b => gt a b = false) :
    (out.map Prod.snd).Pairwise fun a b => gt a b = false := by
  induction merges with
  | nil => exact .nil
  | @cons lists i a out first rest ih =>
    have all' := forall_modify_tail i all fun list holds x member =>
      holds x (List.mem_of_mem_tail member)
    have sorted' := forall_modify_tail i sorted fun list => List.Pairwise.tail
    refine List.pairwise_cons.mpr ⟨fun x taken => ?_, ih all' sorted'⟩
    -- what comes later stands behind a head that is not smaller
    obtain ⟨holds, _, heads⟩ := orders.smallest_le all (by intro _ _ none; cases none) first
    obtain ⟨e, later, rfl⟩ := List.mem_map.mp taken
    obtain ⟨list, member, x⟩ := rest.mem later
    obtain ⟨j, there⟩ := List.mem_iff_getElem?.mp member
    rw [List.getElem?_modify] at there
    obtain ⟨old, there, same⟩ := Option.map_eq_some_iff.mp there
    have listed := List.mem_of_getElem? there
    have inside : e.2 ∈ old := by
      split at same
      · exact List.mem_of_mem_tail (same ▸ x)
      · exact same ▸ x
    cases old with
    | nil => cases inside
    | cons h old =>
      have head := heads _ listed h rfl
      rcases List.mem_cons.mp inside with same | behind
      · rw [same]
        exact head
      · exact orders.trans a h e.2 holds (all _ listed h List.mem_cons_self)
          (all _ listed _ inside) head
          (List.rel_of_pairwise_cons (sorted _ listed) behind)

end order
end Merge
