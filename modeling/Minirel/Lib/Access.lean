import Mathlib.Data.List.Basic

/-! Computations that record which entries of an array they read. -/

structure Access (ι α : Type) where
  value : α
  reads : List ι

namespace Access
variable {ι α β : Type} {ok : ι → Prop}

instance : Monad (Access ι) where
  pure a := ⟨a, []⟩
  bind x f := ⟨(f x.value).value, x.reads ++ (f x.value).reads⟩

def read (entry : ι → α) (i : ι) : Access ι α := ⟨entry i, [i]⟩

@[simp] theorem value_pure (a : α) : (pure a : Access ι α).value = a := rfl

@[simp] theorem value_bind (x : Access ι α) (f : α → Access ι β) :
    (x >>= f).value = (f x.value).value := rfl

@[simp] theorem value_read (entry : ι → α) (i : ι) : (read entry i).value = entry i := rfl

def Within (ok : ι → Prop) (x : Access ι α) : Prop := ∀ i ∈ x.reads, ok i

theorem Within.pure (a : α) : Within ok (pure a : Access ι α) := fun _ member => by cases member

theorem Within.bind {x : Access ι α} {f : α → Access ι β} (first : Within ok x)
    (next : Within ok (f x.value)) :
    Within ok (x >>= f) := fun i member => (List.mem_append.mp member).elim (first i) (next i)

theorem Within.read {entry : ι → α} {i : ι} (inside : ok i) : Within ok (Access.read entry i) :=
  fun _ member =>
  List.mem_singleton.mp member ▸ inside

theorem Within.ite {c : Prop} [Decidable c] {x y : Access ι α} (yes : c → Within ok x)
    (no : Within ok y) :
    Within ok (if c then x else y) := by
  split
  next holds => exact yes holds
  next => exact no

end Access
