import Mathlib.Data.Finset.Card
import Mathlib.Logic.Function.Basic

/-! Finite maps listed as key-value pairs, each key once, in any order, and the
places of such pairs in sublists. -/

/-- Where a sublist by a predicate splits, the list splits. -/
theorem List.filter_split {α : Type*} {p : α → Bool} {front back front' back' : List α} {a : α}
    (distinct : (front ++ a :: back).Nodup)
    (split : (front ++ a :: back).filter p = front' ++ a :: back') :
    front.filter p = front' ∧ back.filter p = back' := by
  have kept : a ∈ (front ++ a :: back).filter p := by rw [split]; simp
  rw [List.nodup_middle, List.nodup_cons, List.mem_append, not_or] at distinct
  rw [List.filter_append, List.filter_cons_of_pos (List.mem_filter.mp kept).2] at split
  have parts := (List.append_cons_inj_of_notMem (fun h => distinct.1.1 (List.mem_filter.mp h).1)
    (fun h => distinct.1.2 (List.mem_filter.mp h).1)).mp split
  exact ⟨parts.1, parts.2.2⟩

/-- The parts of a list by the value of a key, for all values in turn. -/
theorem List.flatMap_filter_perm {α κ : Type*} [DecidableEq κ] {key : α → κ} {keys : List κ}
    {l : List α} (distinct : keys.Nodup) (listed : ∀ a ∈ l, key a ∈ keys) :
    (keys.flatMap fun k => l.filter fun a => key a = k).Perm l := by
  induction l with
  | nil => simp
  | cons a l ih =>
    rw [List.forall_mem_cons] at listed
    have parts : (keys.flatMap fun k => (a :: l).filter fun b => key b = k) =
        keys.flatMap fun k => (if key a = k then [a] else []) ++ l.filter fun b => key b = k := by
      refine List.flatMap_congr fun k _ => ?_
      by_cases here : key a = k <;> simp [here]
    have first : (keys.flatMap fun k => if key a = k then [a] else []) = [a] := by
      obtain ⟨front, back, split⟩ := List.append_of_mem listed.1
      rw [split, List.nodup_middle, List.nodup_cons, List.mem_append, not_or] at distinct
      have none {ks : List κ} (apart : key a ∉ ks) :
          (ks.flatMap fun k => if key a = k then [a] else []) = [] := by
        refine List.flatMap_eq_nil_iff.mpr fun k member => if_neg ?_
        rintro rfl
        exact apart member
      simp [split, none distinct.1.1, none distinct.1.2]
    rw [parts]
    refine (List.flatMap_append_perm ..).symm.trans ?_
    rw [first]
    exact (ih listed.2).cons a

/-- The list holds exactly the bindings of the map. -/
structure Enumerates {α β : Type*} (l : List (α × β)) (m : α → Option β) : Prop where
  distinct : (l.map Prod.fst).Nodup
  mem_iff : ∀ a b, m a = some b ↔ (a, b) ∈ l

namespace Enumerates
open Function
variable {α β : Type*} {m : α → Option β} {l front back : List (α × β)} {a : α} {b : β}

theorem nil : Enumerates ([] : List (α × β)) (fun _ => none) := ⟨List.nodup_nil, by simp⟩

theorem eq_none_iff (lists : Enumerates l m) : m a = none ↔ a ∉ l.map Prod.fst := by
  constructor
  · intro none listed
    obtain ⟨⟨_, b⟩, member, rfl⟩ := List.mem_map.mp listed
    rw [(lists.mem_iff _ b).mpr member] at none
    cases none
  · intro absent
    by_contra bound
    obtain ⟨b, bound⟩ := Option.ne_none_iff_exists'.mp bound
    exact absent (List.mem_map.mpr ⟨_, (lists.mem_iff a b).mp bound, rfl⟩)

theorem unique {m' : α → Option β} (lists : Enumerates l m) (lists' : Enumerates l m') :
    m = m' := by
  funext a
  apply Option.ext
  intro b
  rw [lists.mem_iff, lists'.mem_iff]

theorem distinct_middle : ((front ++ (a, b) :: back).map Prod.fst).Nodup ↔
    a ∉ (front ++ back).map Prod.fst ∧ ((front ++ back).map Prod.fst).Nodup := by
  rw [List.map_append, List.map_cons, List.nodup_middle, List.nodup_cons, List.map_append]

variable [DecidableEq α]

theorem insert (lists : Enumerates (front ++ back) m)
    (distinct : ((front ++ (a, b) :: back).map Prod.fst).Nodup) :
    Enumerates (front ++ (a, b) :: back) (update m a (some b)) := by
  have absent := (distinct_middle.mp distinct).1
  refine ⟨distinct, fun c d => ?_⟩
  by_cases same : c = a
  · subst same
    have other : (c, d) ∉ front ++ back := fun member => absent (List.mem_map.mpr ⟨_, member, rfl⟩)
    simp only [List.mem_append] at other
    simp only [update_self, Option.some.injEq, List.mem_append, List.mem_cons, Prod.mk.injEq, true_and]
    tauto
  · rw [update_of_ne same, lists.mem_iff]
    simp [same]

theorem remove (lists : Enumerates (front ++ (a, b) :: back) m) :
    Enumerates (front ++ back) (update m a none) := by
  obtain ⟨absent, distinct⟩ := distinct_middle.mp lists.distinct
  refine ⟨distinct, fun c d => ?_⟩
  by_cases same : c = a
  · subst same
    simp only [update_self, reduceCtorEq, false_iff]
    exact fun member => absent (List.mem_map.mpr ⟨_, member, rfl⟩)
  · rw [update_of_ne same, lists.mem_iff]
    simp [same]

/-- A list as long as the map has keys. -/
theorem card (lists : Enumerates l m) : ∃ keys : Finset α, (∀ a, a ∈ keys ↔ m a ≠ none) ∧
    keys.card = l.length := by
  refine ⟨(l.map Prod.fst).toFinset, fun a => ?_, ?_⟩
  · rw [List.mem_toFinset, Ne, lists.eq_none_iff, not_not]
  · rw [List.toFinset_card_of_nodup lists.distinct, List.length_map]

omit [DecidableEq α] in
theorem filter (enumerates : Enumerates l m) (keep : β → Bool) :
    Enumerates (l.filter fun e => keep e.2) (fun a => (m a).filter keep) := by
  constructor
  · exact enumerates.distinct.sublist (List.filter_sublist.map _)
  · intro a b
    rw [Option.filter_eq_some_iff, enumerates.mem_iff, List.mem_filter]

end Enumerates
