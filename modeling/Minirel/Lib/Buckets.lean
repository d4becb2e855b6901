import Minirel.Lib.ChainedTable

/-! Chains of buckets with the loops of a program over them: a search from the
front, and a removal that keeps the bucket before the current one at hand. On the
chains of a `ChainedTable` they are its lookup and its removal. -/

namespace Buckets
variable {K V ι : Type}

/-- The chain without the bucket between `passed` and `next`: either `next` is its
new head, or the predecessor is linked to it. The buckets already passed are in
reverse order, so that the first of them is the predecessor. -/
def relink : List (K × V) → List (K × V) → List (K × V)
  | [], next => next
  | previous :: front, next => front.reverse ++ previous :: next

theorem relink_eq (passed next : List (K × V)) : relink passed next = passed.reverse ++ next := by
  cases passed <;> simp [relink]

variable [DecidableEq K]

def find (key : K) : List (K × V) → Option V
  | [] => none
  | bucket :: next => if bucket.1 = key then some bucket.2 else find key next

def unlink (key : K) : List (K × V) → List (K × V) → Option (List (K × V))
  | _, [] => none
  | passed, bucket :: next =>
    if bucket.1 = key then some (relink passed next)
    else unlink key (bucket :: passed) next

theorem find_eq_lookup (key : K) (chain : List (K × V)) : find key chain = chain.lookup key := by
  induction chain with
  | nil => rfl
  | cons bucket next ih =>
    rw [find, List.lookup_cons, ih]
    by_cases same : bucket.1 = key
    · simp [same]
    · rw [if_neg same, beq_false_of_ne (Ne.symm same)]

theorem unlink_eq_none {key : K} {passed chain : List (K × V)} (absent : chain.lookup key = none) :
    unlink key passed chain = none := by
  induction chain generalizing passed with
  | nil => rfl
  | cons bucket next ih =>
    have apart := ChainedTable.key_notMem absent
    rw [List.map_cons, List.mem_cons, not_or] at apart
    rw [List.lookup_cons, beq_false_of_ne apart.1] at absent
    rw [unlink, if_neg (Ne.symm apart.1), ih absent]

theorem unlink_eq_some {key : K} {passed chain : List (K × V)} (present : chain.lookup key ≠ none) :
    unlink key passed chain = some (passed.reverse ++ chain.eraseP (·.1 = key)) := by
  induction chain generalizing passed with
  | nil => simp at present
  | cons bucket next ih =>
    rw [unlink]
    by_cases same : bucket.1 = key
    · rw [if_pos same, relink_eq, List.eraseP_cons_of_pos (by simpa using same)]
    · rw [List.lookup_cons, beq_false_of_ne (Ne.symm same)] at present
      rw [if_neg same, ih present, List.eraseP_cons_of_neg (by simpa using same)]
      simp

theorem find_map {W : Type} (f : V → W) (key : K) (chain : List (K × V)) :
    find key (chain.map (Prod.map id f)) = (find key chain).map f := by
  induction chain with
  | nil => rfl
  | cons bucket next ih =>
    rw [List.map_cons, find, find, ih]
    change (if bucket.1 = key then _ else _) = _
    split <;> rfl

theorem unlink_map {W : Type} (f : V → W) (key : K) (passed chain : List (K × V)) :
    unlink key (passed.map (Prod.map id f)) (chain.map (Prod.map id f)) =
      (unlink key passed chain).map (List.map (Prod.map id f)) := by
  induction chain generalizing passed with
  | nil => rfl
  | cons bucket next ih =>
    rw [List.map_cons, unlink, unlink]
    change (if bucket.1 = key then _ else _) = _
    split
    · simp [relink_eq]
    · exact ih (bucket :: passed)

variable [DecidableEq ι] {hash : K → ι} {t u : ChainedTable K V hash} {key : K} {value : V}

theorem absent_of_insert (inserted : t.insert key value = some u) : t.lookup key = none := by
  by_contra present
  rw [ChainedTable.insert_eq_none.mpr present] at inserted
  cases inserted

theorem present_of_remove (removed : t.remove key = some u) : t.lookup key ≠ none := by
  intro absent
  rw [ChainedTable.remove_eq_none.mpr absent] at removed
  cases removed

theorem chain_insert (inserted : t.insert key value = some u) :
    u.chain = Function.update t.chain (hash key) ((key, value) :: t.chain (hash key)) := by
  unfold ChainedTable.insert at inserted
  split at inserted
  · rw [← Option.some.inj inserted]
  · cases inserted

theorem chain_remove (removed : t.remove key = some u) :
    u.chain = Function.update t.chain (hash key) ((t.chain (hash key)).eraseP (·.1 = key)) := by
  unfold ChainedTable.remove at removed
  split at removed
  · cases removed
  · rw [← Option.some.inj removed]

end Buckets
