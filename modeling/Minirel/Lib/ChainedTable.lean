import Mathlib.Data.List.Nodup
import Mathlib.Logic.Function.Basic

/-! Chained hash tables: one association list per hash value. Insertion refuses
a key that is present, so a key occurs at most once in its chain and removing
its first occurrence removes the key. -/

structure ChainedTable (K V : Type) {ι : Type} (hash : K → ι) where
  chain : ι → List (K × V)
  distinct : ∀ i, ((chain i).map Prod.fst).Nodup

namespace ChainedTable
open Function
variable {K V ι : Type} [DecidableEq K] {hash : K → ι}

def empty : ChainedTable K V hash := ⟨fun _ => [], fun _ => List.nodup_nil⟩

def lookup (t : ChainedTable K V hash) (key : K) : Option V := (t.chain (hash key)).lookup key

@[simp] theorem lookup_empty (key : K) : (empty : ChainedTable K V hash).lookup key = none := rfl

theorem key_notMem {l : List (K × V)} {key : K} (absent : l.lookup key = none) :
    key ∉ l.map Prod.fst := by
  induction l with
  | nil => simp
  | cons entry l ih =>
    obtain ⟨other, value⟩ := entry
    by_cases same : key = other
    · subst same
      simp at absent
    · rw [List.lookup_cons, beq_false_of_ne same] at absent
      simpa [same] using ih absent

theorem lookup_eraseP (l : List (K × V)) (distinct : (l.map Prod.fst).Nodup) (key other : K) :
    (l.eraseP (·.1 = key)).lookup other = if other = key then none else l.lookup other := by
  induction l with
  | nil => simp
  | cons entry l ih =>
    obtain ⟨first, value⟩ := entry
    rw [List.map_cons, List.nodup_cons] at distinct
    by_cases head : first = key
    · subst head
      rw [List.eraseP_cons_of_pos (by simp)]
      split
      next same =>
        subst same
        rw [List.lookup_eq_none_iff]
        intro entry member
        rw [bne_iff_ne]
        rintro rfl
        exact distinct.1 (List.mem_map.mpr ⟨entry, member, rfl⟩)
      next apart => rw [List.lookup_cons, beq_false_of_ne apart]
    · rw [List.eraseP_cons_of_neg (by simpa using head), List.lookup_cons, List.lookup_cons,
        ih distinct.2]
      by_cases same : other = first
      · subst same
        simp [head]
      · simp [beq_false_of_ne same]

variable [DecidableEq ι]

/-- The new entry goes to the front of its chain. -/
def insert (t : ChainedTable K V hash) (key : K) (value : V) : Option (ChainedTable K V hash) :=
  if absent : t.lookup key = none then
    some {
      chain := update t.chain (hash key) ((key, value) :: t.chain (hash key))
      distinct := by
        intro i
        by_cases same : i = hash key
        · subst same
          rw [update_self, List.map_cons, List.nodup_cons]
          exact ⟨key_notMem absent, t.distinct _⟩
        · rw [update_of_ne same]
          exact t.distinct i }
  else none

def remove (t : ChainedTable K V hash) (key : K) : Option (ChainedTable K V hash) :=
  if t.lookup key = none then none
  else
    some {
      chain := update t.chain (hash key) ((t.chain (hash key)).eraseP (·.1 = key))
      distinct := by
        intro i
        by_cases same : i = hash key
        · subst same
          rw [update_self]
          exact (t.distinct _).sublist (List.eraseP_sublist.map _)
        · rw [update_of_ne same]
          exact t.distinct i }

theorem insert_eq_none {t : ChainedTable K V hash} {key : K} {value : V} :
    t.insert key value = none ↔ t.lookup key ≠ none := by
  unfold insert
  split <;> simp_all

theorem lookup_insert {t u : ChainedTable K V hash} {key : K} {value : V}
    (inserted : t.insert key value = some u) (other : K) :
    u.lookup other = if other = key then some value else t.lookup other := by
  unfold insert at inserted
  split at inserted
  next absent =>
    obtain rfl := Option.some.inj inserted
    by_cases bucket : hash other = hash key
    · simp only [lookup, bucket, update_self, List.lookup_cons]
      by_cases same : other = key
      · simp [same]
      · rw [beq_false_of_ne same, if_neg same]
    · have apart : other ≠ key := fun same => bucket (congrArg hash same)
      simp only [lookup, update_of_ne bucket, if_neg apart]
  next => cases inserted

theorem lookup_remove {t u : ChainedTable K V hash} {key : K}
    (removed : t.remove key = some u) (other : K) :
    u.lookup other = if other = key then none else t.lookup other := by
  unfold remove at removed
  split at removed
  next => cases removed
  next present =>
    obtain rfl := Option.some.inj removed
    by_cases bucket : hash other = hash key
    · simp only [lookup, bucket, update_self]
      rw [lookup_eraseP _ (t.distinct _)]
    · have apart : other ≠ key := fun same => bucket (congrArg hash same)
      simp only [lookup, update_of_ne bucket, if_neg apart]

theorem remove_eq_none {t : ChainedTable K V hash} {key : K} :
    t.remove key = none ↔ t.lookup key = none := by
  unfold remove
  split <;> simp_all

end ChainedTable
