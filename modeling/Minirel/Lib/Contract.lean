import Minirel.Lib.Program

/-! Partial correctness of programs against a contract of their interface: the
replies a call may get, and a ghost state that follows the calls. -/
namespace Program
variable {C : Type} {R : C → Type} {α β γ σ : Type}

structure Contract (R : C → Type) (γ : Type) where
  admits : (c : C) → γ → R c → Prop
  next : (c : C) → γ → R c → γ

/-- Nothing is known of the replies. -/
def Contract.free (R : C → Type) : Contract R Unit := ⟨fun _ _ _ => True, fun _ _ _ => ()⟩

/-- Whatever replies the contract admits, the program ends, if it returns, with
a value and a ghost state that satisfy `post`. -/
def Ensures (E : Contract R γ) : Program R α → γ → (α → γ → Prop) → Prop
  | .done value, g, post => post value g
  | .call c k, g, post => ∀ reply, E.admits c g reply → (k reply).Ensures E (E.next c g reply) post
  | .halt, _, _ => True

section rules
variable {E : Contract R γ} {g : γ} {p : Program R α} {f : α → Program R β}
    {post post' : α → γ → Prop}
  {post₂ : β → γ → Prop}

@[simp] theorem ensures_pure {value : α} : (pure value : Program R α).Ensures E g post ↔
    post value g := Iff.rfl

@[simp] theorem ensures_done {value : α} : (done value : Program R α).Ensures E g post ↔
    post value g := Iff.rfl

@[simp] theorem ensures_halt : (halt : Program R α).Ensures E g post ↔ True := Iff.rfl

@[simp] theorem ensures_perform {c : C} {post : R c → γ → Prop} : (perform c).Ensures E g post ↔
    ∀ reply, E.admits c g reply → post reply (E.next c g reply) := Iff.rfl

@[simp] theorem ensures_bind :
    (p >>= f).Ensures E g post₂ ↔ p.Ensures E g (fun value g' => (f value).Ensures E g' post₂) := by
  change (p.bind f).Ensures E g post₂ ↔ _
  induction p generalizing g with
  | done value => rfl
  | halt => rfl
  | call c k ih => exact forall_congr' fun reply => imp_congr_right fun _ => ih reply

@[simp] theorem ensures_ite {cond : Prop} [Decidable cond] {q : Program R α} :
    (if cond then p else q).Ensures E g post ↔ (cond → p.Ensures E g post) ∧
      (¬ cond → q.Ensures E g post) := by
  split <;> simp [*]

theorem Ensures.mono (ensures : p.Ensures E g post)
    (weaker : ∀ value g, post value g → post' value g) :
    p.Ensures E g post' := by
  induction p generalizing g with
  | done value => exact weaker _ _ ensures
  | halt => trivial
  | call c k ih => exact fun reply admitted => ih reply (ensures reply admitted)

theorem Ensures.and (first : p.Ensures E g post) (second : p.Ensures E g post') :
    p.Ensures E g (fun value g => post value g ∧ post' value g) := by
  induction p generalizing g with
  | done value => exact ⟨first, second⟩
  | halt => trivial
  | call c k ih => exact fun reply admitted => ih reply (first reply admitted) (second reply admitted)

theorem Ensures.of_forall (holds : ∀ value g, post value g) : p.Ensures E g post := by
  induction p generalizing g with
  | done value => exact holds _ _
  | halt => trivial
  | call c k ih => exact fun reply _ => ih reply

/-- The same program under another contract, seen through a relation between the
ghost states. -/
theorem Ensures.transfer {δ : Type} {E' : Contract R δ} (rel : γ → δ → Prop)
    (keeps : ∀ c g d reply, rel g d → E'.admits c d reply → E.admits c g reply ∧
      rel (E.next c g reply) (E'.next c d reply))
    {d : δ} (ensures : p.Ensures E g post) (start : rel g d) :
    p.Ensures E' d fun value d' => ∃ g', rel g' d' ∧ post value g' := by
  induction p generalizing g d with
  | done value => exact ⟨g, start, ensures⟩
  | halt => trivial
  | call c k ih =>
    intro reply admitted
    obtain ⟨admitted', related⟩ := keeps c g d reply start admitted
    exact ih reply (ensures reply admitted') related

/-- A handler that keeps to the contract, seen through a relation between its
states and the ghost states. -/
theorem Ensures.sound {handle : Handler R σ} (rel : σ → γ → Prop)
    (keeps : ∀ c s g reply t, rel s g → handle c s = some (reply, t) →
      E.admits c g reply ∧ rel t (E.next c g reply))
    {s t : σ} {value : α} (ensures : p.Ensures E g post) (start : rel s g)
    (returned : run handle p s = some (value, t)) : ∃ g', rel t g' ∧ post value g' := by
  induction p generalizing g s with
  | done result =>
    cases returned
    exact ⟨g, start, ensures⟩
  | halt => cases returned
  | call c k ih =>
    simp only [run] at returned
    split at returned
    next reply u answer =>
      obtain ⟨admitted, related⟩ := keeps c s g reply u start answer
      exact ih reply (ensures reply admitted) related returned
    next => cases returned

/-- Any handler is within the contract that promises nothing. -/
theorem Ensures.sound_free {handle : Handler R σ} {post : α → Unit → Prop} {s t : σ} {value : α}
    (ensures : p.Ensures (.free R) () post) (returned : run handle p s = some (value, t)) :
    post value () := by
  obtain ⟨_, _, holds⟩ := ensures.sound (fun _ _ => True) (fun _ _ _ _ _ _ _ => ⟨trivial, trivial⟩)
    trivial returned
  exact holds

end rules

/-! Programs that make certain calls only, whatever the replies. -/

def Makes (ok : C → Prop) : Program R α → (α → Prop) → Prop
  | .done value, post => post value
  | .call c k, post => ok c ∧ ∀ reply, (k reply).Makes ok post
  | .halt, _ => True

section makes
variable {ok ok' : C → Prop} {p : Program R α} {f : α → Program R β} {post post' : α → Prop}
    {post₂ : β → Prop}

@[simp] theorem makes_pure {value : α} : (pure value : Program R α).Makes ok post ↔ post value :=
  Iff.rfl

@[simp] theorem makes_halt : (halt : Program R α).Makes ok post ↔ True := Iff.rfl

@[simp] theorem makes_perform {c : C} {post : R c → Prop} : (perform c).Makes ok post ↔ ok c ∧
    ∀ reply, post reply := Iff.rfl

@[simp] theorem makes_bind : (p >>= f).Makes ok post₂ ↔ p.Makes ok fun value =>
    (f value).Makes ok post₂ := by
  change (p.bind f).Makes ok post₂ ↔ _
  induction p with
  | done value => rfl
  | halt => rfl
  | call c k ih => exact and_congr_right' (forall_congr' ih)

@[simp] theorem makes_ite {cond : Prop} [Decidable cond] {q : Program R α} :
    (if cond then p else q).Makes ok post ↔ (cond → p.Makes ok post) ∧
      (¬ cond → q.Makes ok post) := by
  split <;> simp [*]

theorem Makes.mono (makes : p.Makes ok post) (weaker : ∀ value, post value → post' value) :
    p.Makes ok post' := by
  induction p with
  | done value => exact weaker _ makes
  | halt => trivial
  | call c k ih => exact ⟨makes.1, fun reply => ih reply (makes.2 reply)⟩

theorem Makes.allow (makes : p.Makes ok post) (wider : ∀ c, ok c → ok' c) : p.Makes ok' post := by
  induction p with
  | done value => exact makes
  | halt => trivial
  | call c k ih => exact ⟨wider c makes.1, fun reply => ih reply (makes.2 reply)⟩

theorem Makes.of_forall (all : ∀ value, post value) : p.Makes (fun _ => True) post := by
  induction p with
  | done value => exact all value
  | halt => trivial
  | call c k ih => exact ⟨trivial, ih⟩

/-- What those calls keep, in a run. -/
theorem Makes.of_run {handle : Handler R σ} {inv : σ → Prop} (makes : p.Makes ok post)
    (keeps : ∀ c s reply t, ok c → inv s → handle c s = some (reply, t) → inv t) {s t : σ}
    {value : α} (start : inv s) (returned : run handle p s = some (value, t)) : post value ∧
      inv t := by
  induction p generalizing s with
  | done result =>
    cases returned
    exact ⟨makes, start⟩
  | halt => cases returned
  | call c k ih =>
    simp only [run] at returned
    split at returned
    next reply u answer =>
      exact ih reply (makes.2 reply) (keeps c s reply u makes.1 start answer) returned
    next => cases returned

/-- What those calls keep, in a ghost state. -/
theorem Makes.result {handle : Handler R σ} {s t : σ} {value : α} (makes : p.Makes ok post)
    (returned : run handle p s = some (value, t)) : post value := by
  have kept : post value ∧ True :=
    @Makes.of_run _ _ _ _ _ _ _ _ (fun _ => True) makes (fun _ _ _ _ _ _ _ => trivial) _ _ _ trivial
      returned
  exact kept.1

theorem Makes.ensures {E : Contract R γ} {inv : γ → Prop} (makes : p.Makes ok post)
    (keeps : ∀ c g reply, ok c → inv g → inv (E.next c g reply)) {g : γ} (start : inv g) :
    p.Ensures E g fun value g' => post value ∧ inv g' := by
  induction p generalizing g with
  | done result => exact ⟨makes, start⟩
  | halt => trivial
  | call c k ih => exact fun reply _ => ih reply (makes.2 reply) (keeps c g reply makes.1 start)

end makes

/-! The results that are possible under a contract. -/

def Outcome (E : Contract R γ) : Program R α → γ → α → γ → Prop
  | .done value, g, value', g' => value = value' ∧ g = g'
  | .call c k, g, value', g' =>
    ∃ reply, E.admits c g reply ∧ (k reply).Outcome E (E.next c g reply) value' g'
  | .halt, _, _, _ => False

section outcome
variable {E : Contract R γ} {g g' : γ} {p : Program R α} {value : α}

theorem Ensures.outcome {post : α → γ → Prop} (ensures : p.Ensures E g post)
    (outcome : p.Outcome E g value g') :
    post value g' := by
  induction p generalizing g with
  | done result =>
    obtain ⟨rfl, rfl⟩ := outcome
    exact ensures
  | halt => cases outcome
  | call c k ih =>
    obtain ⟨reply, admitted, rest⟩ := outcome
    exact ih reply (ensures reply admitted) rest

end outcome

/-! Handlers that carry the ghost state along. -/

def traced (handle : Handler R σ) (next : (c : C) → γ → R c → γ) : Handler R (σ × γ) :=
  fun c s => (handle c s.1).map fun r => (r.1, r.2, next c s.2 r.1)

section traced
variable {handle : Handler R σ} {s t : σ} {g g' : γ} {value : α}

theorem exists_run_traced (next : (c : C) → γ → R c → γ) {p : Program R α}
    (returned : run handle p s = some (value, t)) (g : γ) :
    ∃ g', run (traced handle next) p (s, g) = some (value, t, g') := by
  induction p generalizing s g with
  | done result =>
    cases returned
    exact ⟨g, rfl⟩
  | halt => cases returned
  | call c k ih =>
    simp only [run] at returned
    split at returned
    next reply u answer =>
      obtain ⟨g', rest⟩ := ih reply returned (next c g reply)
      refine ⟨g', ?_⟩
      simp only [run, traced, answer, Option.map_some]
      exact rest
    next => cases returned

theorem run_of_traced {next : (c : C) → γ → R c → γ} {p : Program R α}
    (returned : run (traced handle next) p (s, g) = some (value, t, g')) :
    run handle p s = some (value, t) := by
  induction p generalizing s g with
  | done result =>
    cases returned
    rfl
  | halt => cases returned
  | call c k ih =>
    simp only [run, traced] at returned ⊢
    cases answer : handle c s with
    | none => simp [answer] at returned
    | some r =>
      simp only [answer, Option.map_some] at returned
      exact ih r.1 returned

theorem Ensures.traced {E : Contract R γ} {p : Program R α} {post : α → γ → Prop}
    (admits : ∀ c s g reply t, handle c s = some (reply, t) → E.admits c g reply)
    (ensures : p.Ensures E g post)
    (returned : run (traced handle E.next) p (s, g) = some (value, t, g')) : post value g' := by
  obtain ⟨_, same, holds⟩ := ensures.sound (fun (s : σ × γ) g => s.2 = g)
    (fun c s g reply t same answer => by
    obtain ⟨⟨reply', u⟩, answer', pair⟩ := Option.map_eq_some_iff.mp answer
    cases pair
    cases same
    exact ⟨admits c s.1 s.2 reply' u answer', rfl⟩) rfl returned
  cases same
  exact holds

/-- What a handler within the contract does is a possible outcome. -/
theorem Outcome.of_run {E : Contract R γ} {p : Program R α}
    (admits : ∀ c s g reply t, handle c s = some (reply, t) → E.admits c g reply)
    (returned : run (traced handle E.next) p (s, g) = some (value, t, g')) :
    p.Outcome E g value g' := by
  induction p generalizing s g with
  | done result =>
    cases returned
    exact ⟨rfl, rfl⟩
  | halt => cases returned
  | call c k ih =>
    simp only [run, traced] at returned
    cases answer : handle c s with
    | none => simp [answer] at returned
    | some r =>
      simp only [answer, Option.map_some] at returned
      exact ⟨r.1, admits c s g r.1 r.2 answer, ih r.1 returned⟩

theorem Returns.traced {E : Contract R γ} {p : Nat → Program R α} {final : γ}
    (admits : ∀ c s g reply t, handle c s = some (reply, t) → E.admits c g reply)
    (ensures : ∀ fuel, (p fuel).Ensures E g (fun _ g' => g' = final))
    (returns : Returns handle p s (value, t)) :
    Returns (Program.traced handle E.next) p (s, g) (value, t, final) := by
  obtain ⟨bound, returns⟩ := returns
  refine ⟨bound, fun fuel enough => ?_⟩
  obtain ⟨g', run⟩ := exists_run_traced E.next (returns fuel enough) g
  rw [run, (ensures fuel).traced admits run]

end traced

end Program
