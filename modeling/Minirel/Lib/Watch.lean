import Minirel.Lib.Contract

/-! Programs with points at which something can turn out wrong. A watched
program stops at the first of them and hands over what was still to be run, so
that one can say what the program does once something is wrong. -/
namespace Program
variable {C : Type} {R : C → Type} {α β γ σ : Type}

theorem bind_assoc (p : Program R α) (f : α → Program R β) (g : β → Program R γ) :
    (p.bind f).bind g = p.bind fun value => (f value).bind g := by
  induction p with
  | done value => rfl
  | halt => rfl
  | call c next ih => exact congrArg (call c) (funext ih)

theorem bind_done (p : Program R α) : p.bind .done = p := by
  induction p with
  | done value => rfl
  | halt => rfl
  | call c next ih => exact congrArg (call c) (funext ih)

/-- The calls that a run makes, up to its end or to a crash. -/
def calls (handle : Handler R σ) : Program R α → σ → List C
  | .done _, _ => []
  | .halt, _ => []
  | .call c next, s => c :: match handle c s with
    | some (reply, t) => (next reply).calls handle t
    | none => []

/-- A watched program ends with its value, or where something is wrong. -/
inductive Cut (R : C → Type) (α : Type)
  | ended (value : α)
  | failed (rest : Program R α)

def Cut.resume : Cut R α → Program R α
  | .ended value => .done value
  | .failed rest => rest

structure Watched (R : C → Type) (α : Type) where
  prog : Program R (Cut R α)

namespace Watched

/-- The program that does not stop. -/
def erase (p : Watched R α) : Program R α := p.prog >>= Cut.resume

def lift (p : Program R α) : Watched R α := ⟨p >>= fun value => .done (.ended value)⟩

def andThen (f : α → Watched R β) : Cut R α → Program R (Cut R β)
  | .ended value => (f value).prog
  | .failed rest => .done (.failed (rest >>= fun value => (f value).erase))

instance : Monad (Watched R) where
  pure value := ⟨.done (.ended value)⟩
  bind p f := ⟨p.prog >>= andThen f⟩

instance : MonadLift (Program R) (Watched R) := ⟨lift⟩

def halt : Watched R α := ⟨.halt⟩

/-- A point of the program, where something may be wrong. -/
def check (wrong : Bool) : Watched R Unit :=
  ⟨.done (if wrong then .failed (.done ()) else .ended ())⟩

theorem erase_pure (value : α) : (pure value : Watched R α).erase = pure value := rfl

theorem erase_lift (p : Program R α) : (lift p).erase = p :=
  (bind_assoc ..).trans (bind_done p)

theorem erase_bind (p : Watched R α) (f : α → Watched R β) :
    (p >>= f).erase = p.erase >>= fun value => (f value).erase := by
  refine (bind_assoc ..).trans (Eq.trans ?_ (bind_assoc ..).symm)
  refine congrArg p.prog.bind (funext fun cut => ?_)
  cases cut <;> rfl

theorem erase_check (wrong : Bool) : (check wrong : Watched R Unit).erase = pure () := by
  cases wrong <;> rfl

theorem erase_ite {cond : Prop} [Decidable cond] (p q : Watched R α) :
    (if cond then p else q).erase = if cond then p.erase else q.erase := apply_ite erase ..

theorem run_erase {handle : Handler R σ} {p : Watched R α} {s t : σ} {rest : Program R α}
    (failed : run handle p.prog s = some (.failed rest, t)) :
    run handle p.erase s = run handle rest t :=
  run_bind_of handle s failed

/-- Whatever the replies, the program ends with such a value once something has
been wrong. -/
def After (p : Watched R α) (post : α → Prop) : Prop :=
  p.prog.Ensures (.free R) () fun cut _ =>
    ∀ rest, cut = .failed rest → rest.Ensures (.free R) () fun value _ => post value

section rules
variable {p : Watched R α} {f : α → Watched R β} {post : α → Prop} {post₂ : β → Prop}

theorem after_pure (value : α) : (pure value : Watched R α).After post := by
  intro rest failed
  cases failed

theorem after_halt : (halt : Watched R α).After post := trivial

theorem after_of_forall (holds : ∀ value, post value) : p.After post :=
  .of_forall fun _ _ _ _ => .of_forall fun value _ => holds value

theorem After.bind (first : p.After post) (later : ∀ value, (f value).After post₂)
    (kept : ∀ value, post value → (f value).erase.Ensures (.free R) () fun result _ =>
      post₂ result) :
    (p >>= f).After post₂ := by
  apply ensures_bind.mpr
  refine first.mono fun cut _ holds => ?_
  cases cut with
  | ended value => exact later value
  | failed rest =>
    rintro _ ⟨⟩
    exact ensures_bind.mpr ((holds rest rfl).mono fun value _ good => kept value good)

theorem After.lift_bind {q : Program R α}
    (later : q.Ensures (.free R) () fun value _ => (f value).After post₂) :
    (lift q >>= f).After post₂ := by
  apply ensures_bind.mpr
  apply ensures_bind.mpr
  exact later

theorem After.check_bind {wrong : Bool} {g : Unit → Watched R β}
    (bad : wrong = true → (g ()).erase.Ensures (.free R) () fun result _ => post₂ result)
    (good : wrong = false → (g ()).After post₂) : (check wrong >>= g).After post₂ := by
  cases wrong with
  | false => exact good rfl
  | true =>
    rintro _ ⟨⟩
    exact bad rfl

theorem After.ite {cond : Prop} [Decidable cond] {q : Watched R α} (yes : cond → p.After post)
    (no : ¬ cond → q.After post) :
    (if cond then p else q).After post := by
  split
  · exact yes ‹_›
  · exact no ‹_›

theorem After.of_run {handle : Handler R σ} {s t u : σ} {rest : Program R α} {value : α}
    (after : p.After post) (failed : run handle p.prog s = some (.failed rest, t))
    (returned : run handle rest t = some (value, u)) :
    post value :=
  Ensures.sound_free (Ensures.sound_free after failed rest rfl) returned

end rules
end Watched
end Program
