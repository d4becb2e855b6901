import Mathlib.Tactic.TypeStar

/-! Programs over an interface: a tree of calls, each continued by its reply.
The same program is run against any implementation of the interface; a halted
program (a failed assertion, or fuel that ran out) has no result. -/

inductive Program {C : Type} (R : C → Type) (α : Type)
  | done (value : α)
  | call (c : C) (next : R c → Program R α)
  | halt

namespace Program
variable {C : Type} {R : C → Type} {α β σ : Type}

def bind : Program R α → (α → Program R β) → Program R β
  | .done value, f => f value
  | .call c next, f => .call c (fun reply => (next reply).bind f)
  | .halt, _ => .halt

instance : Monad (Program R) where
  pure := .done
  bind := bind

def perform (c : C) : Program R (R c) := .call c .done

/-- An implementation answers a call in a state, or crashes. -/
abbrev Handler (R : C → Type) (σ : Type) := (c : C) → σ → Option (R c × σ)

def run (handle : Handler R σ) : Program R α → σ → Option (α × σ)
  | .done value, s => some (value, s)
  | .call c next, s =>
    match handle c s with
    | some (reply, t) => (next reply).run handle t
    | none => none
  | .halt, _ => none

variable (handle : Handler R σ) (s : σ)

@[simp] theorem run_pure (value : α) : run handle (pure value) s = some (value, s) := rfl

@[simp] theorem run_halt : run handle (halt : Program R α) s = none := rfl

theorem run_bind (p : Program R α) (f : α → Program R β) :
    run handle (p >>= f) s = (run handle p s).bind (fun r => run handle (f r.1) r.2) := by
  change run handle (p.bind f) s = _
  induction p generalizing s with
  | done value => rfl
  | halt => rfl
  | call c next ih =>
    simp only [bind, run]
    cases handle c s with
    | none => rfl
    | some reply => exact ih reply.1 reply.2

@[simp] theorem run_perform (c : C) : run handle (perform c : Program R (R c)) s = handle c s := by
  simp only [perform, run]
  cases handle c s <;> rfl

theorem run_bind_of {p : Program R α} {f : α → Program R β} {value : α} {t : σ}
    (first : run handle p s = some (value, t)) :
    run handle (p >>= f) s = run handle (f value) t := by
  rw [run_bind, first]
  rfl

theorem run_bind_inv {p : Program R α} {f : α → Program R β} {r : β × σ}
    (returned : run handle (p >>= f) s = some r) :
    ∃ value t, run handle p s = some (value, t) ∧ run handle (f value) t = some r := by
  rw [run_bind] at returned
  obtain ⟨⟨value, t⟩, first, rest⟩ := Option.bind_eq_some_iff.mp returned
  exact ⟨value, t, first, rest⟩

/-! Loops take fuel: what a program returns once it has enough. -/

section returns
variable {handle : Handler R σ} {s t : σ} {p : Nat → Program R α} {value : α} {r r' : β × σ}

def Returns (handle : Handler R σ) (p : Nat → Program R α) (s : σ) (r : α × σ) : Prop :=
  ∃ bound, ∀ fuel, bound ≤ fuel → run handle (p fuel) s = some r

theorem Returns.of_run {p : Program R β} (h : run handle p s = some r) :
    Returns handle (fun _ => p) s r :=
  ⟨0, fun _ _ => h⟩

theorem Returns.bind {f : Nat → α → Program R β} (first : Returns handle p s (value, t))
    (next : Returns handle (f · value) t r) :
    Returns handle (fun fuel => p fuel >>= f fuel) s r := by
  obtain ⟨a, first⟩ := first
  obtain ⟨b, next⟩ := next
  refine ⟨max a b, fun fuel enough => ?_⟩
  rw [run_bind_of _ _ (first fuel (by omega))]
  exact next fuel (by omega)

theorem Returns.after {p : Program R α} {f : Nat → α → Program R β}
    (first : run handle p s = some (value, t)) (next : Returns handle (f · value) t r) :
    Returns handle (fun fuel => p >>= f fuel) s r :=
  (Returns.of_run first).bind next

/-- One round of a loop, which spends a unit of fuel. -/
theorem Returns.round {p q : Nat → Program R β} (body : Returns handle q s r)
    (unfold : ∀ fuel, p (fuel + 1) = q fuel) : Returns handle p s r := by
  obtain ⟨a, body⟩ := body
  refine ⟨a + 1, fun fuel enough => ?_⟩
  obtain ⟨k, rfl⟩ : ∃ k, fuel = k + 1 := ⟨fuel - 1, by omega⟩
  rw [unfold]
  exact body k (by omega)

/-- What is left when the first part has returned. -/
theorem Returns.rest {f : Nat → α → Program R β}
    (whole : Returns handle (fun fuel => p fuel >>= f fuel) s r)
    (first : Returns handle p s (value, t)) : Returns handle (f · value) t r := by
  obtain ⟨a, whole⟩ := whole
  obtain ⟨b, first⟩ := first
  refine ⟨max a b, fun fuel enough => ?_⟩
  rw [← run_bind_of _ _ (first fuel (by omega))]
  exact whole fuel (by omega)

/-- A first part that returns can be taken off. -/
theorem Returns.bind_iff {f : Nat → α → Program R β} (first : Returns handle p s (value, t)) :
    Returns handle (fun fuel => p fuel >>= f fuel) s r ↔ Returns handle (f · value) t r :=
  ⟨fun whole => whole.rest first, fun next => .bind first next⟩

theorem Returns.wrap_iff {g : α → β} (inj : Function.Injective g) :
    Returns handle (fun fuel => p fuel >>= fun value => pure (g value)) s (g value, t) ↔
      Returns handle p s (value, t) := by
  constructor
  · rintro ⟨bound, whole⟩
    refine ⟨bound, fun fuel enough => ?_⟩
    obtain ⟨value', t', first, last⟩ := run_bind_inv _ _ (whole fuel enough)
    rw [run_pure] at last
    cases Option.some.inj last |> Prod.mk.inj |>.2
    rw [first, inj (Option.some.inj last |> Prod.mk.inj |>.1)]
  · exact fun first => .bind first (.of_run rfl)

theorem Returns.unique {p : Nat → Program R β} (first : Returns handle p s r)
    (second : Returns handle p s r') :
    r = r' := by
  obtain ⟨a, first⟩ := first
  obtain ⟨b, second⟩ := second
  exact Option.some.inj ((first (max a b) (by omega)).symm.trans (second (max a b) (by omega)))

end returns

/-! More fuel leads to the same result. -/

section steady
variable {handle : Handler R σ} {s : σ} {r r' : β × σ}

/-- The second program returns whatever the first returns. -/
def Within (handle : Handler R σ) (p q : Program R α) : Prop :=
  ∀ s r, run handle p s = some r → run handle q s = some r

theorem Within.refl (p : Program R α) : Within handle p p := fun _ _ returned => returned

theorem Within.halt (q : Program R α) : Within handle .halt q := fun _ _ returned => by
  cases returned

theorem Within.bind {p q : Program R α} {f g : α → Program R β} (first : Within handle p q)
    (next : ∀ value, Within handle (f value) (g value)) : Within handle (p >>= f) (q >>= g) := by
  intro s r returned
  obtain ⟨value, t, run, rest⟩ := run_bind_inv _ _ returned
  rw [run_bind_of _ _ (first s (value, t) run)]
  exact next value t r rest

theorem Within.ite {c : Prop} [Decidable c] {p q p' q' : Program R α} (yes : Within handle p q)
    (no : Within handle p' q') : Within handle (if c then p else p') (if c then q else q') := by
  split
  · exact yes
  · exact no

def Steady (handle : Handler R σ) (p : Nat → Program R α) :
    Prop := ∀ fuel, Within handle (p fuel) (p (fuel + 1))

theorem Steady.returns {p : Nat → Program R β} (steady : Steady handle p) {fuel : Nat}
    (returned : run handle (p fuel) s = some r) : Returns handle p s r := by
  refine ⟨fuel, fun more enough => ?_⟩
  induction enough with
  | refl => exact returned
  | step _ ih => exact steady _ s r ih

theorem Steady.unique {p : Nat → Program R β} (steady : Steady handle p) {fuel : Nat}
    (returned : run handle (p fuel) s = some r) (returns : Returns handle p s r') : r = r' :=
  (steady.returns returned).unique returns

/-- A sequence returns through its first part. -/
theorem Steady.split {p : Nat → Program R α} {f : Nat → α → Program R β} (steady : Steady handle p)
    (whole : Returns handle (fun fuel => p fuel >>= f fuel) s r) :
    ∃ value t, Returns handle p s (value, t) ∧ Returns handle (f · value) t r := by
  obtain ⟨bound, runs⟩ := whole
  obtain ⟨value, t, first, _⟩ := run_bind_inv _ _ (runs bound (Nat.le_refl _))
  have returns := steady.returns first
  exact ⟨value, t, returns, Returns.rest ⟨bound, runs⟩ returns⟩

/-- A sequence whose first part is steady runs on from its result, or does not
return. -/
theorem Steady.run_bind {p : Nat → Program R α} {value : α} {t : σ} (steady : Steady handle p)
    (returns : Returns handle p s (value, t)) (fuel : Nat) (f : α → Program R β) :
    run handle (p fuel >>= f) s = none ∨ run handle (p fuel >>= f) s = run handle (f value) t := by
  cases first : run handle (p fuel) s with
  | none => exact .inl (by rw [Program.run_bind, first]; rfl)
  | some r =>
    cases steady.unique first returns
    exact .inr (run_bind_of _ _ first)

end steady

end Program
