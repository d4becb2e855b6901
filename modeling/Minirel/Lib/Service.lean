import Minirel.Lib.Contract

/-! Services: what may be asked of an implementation in a state, and the answers
it may give then. Programs that ask for nothing else have a result over every
implementation of the service. -/
namespace Program
variable {C : Type} {R : C → Type} {α β γ σ τ : Type}

structure Service (R : C → Type) (σ : Type) where
  ready : (c : C) → σ → Prop
  answers : (c : C) → σ → R c → σ → Prop

/-- Whatever the answers, the service is ready for every call, and the program
returns with a value and a state that satisfy `post`. -/
def Served (S : Service R σ) : Program R α → σ → (α → σ → Prop) → Prop
  | .done value, s, post => post value s
  | .call c k, s, post => S.ready c s ∧ ∀ reply t, S.answers c s reply t → (k reply).Served S t post
  | .halt, _, _ => False

/-- The handler answers what the service is ready for as the service may, seen
through a relation between the states. -/
def Implements (handle : Handler R τ) (S : Service R σ) (rel : τ → σ → Prop) : Prop :=
  ∀ c x s, rel x s → S.ready c s → ∃ reply y t, handle c x = some (reply, y) ∧
    S.answers c s reply t ∧ rel y t

section served
variable {S : Service R σ} {s : σ} {p : Program R α} {f : α → Program R β}
    {post post' : α → σ → Prop}
  {post₂ : β → σ → Prop}

@[simp] theorem served_pure {value : α} : (pure value : Program R α).Served S s post ↔
    post value s := Iff.rfl

@[simp] theorem served_bind :
    (p >>= f).Served S s post₂ ↔ p.Served S s (fun value t => (f value).Served S t post₂) := by
  change (p.bind f).Served S s post₂ ↔ _
  induction p generalizing s with
  | done value => rfl
  | halt => rfl
  | call c k ih => exact and_congr_right' (forall₂_congr fun reply t => imp_congr_right fun _ =>
      ih reply)

@[simp] theorem served_ite {cond : Prop} [Decidable cond] {q : Program R α} :
    (if cond then p else q).Served S s post ↔ (cond → p.Served S s post) ∧
      (¬ cond → q.Served S s post) := by
  split <;> simp [*]

theorem Served.mono (served : p.Served S s post)
    (weaker : ∀ value t, post value t → post' value t) :
    p.Served S s post' := by
  induction p generalizing s with
  | done value => exact weaker _ _ served
  | halt => exact served
  | call c k ih => exact ⟨served.1, fun reply t answer => ih reply (served.2 reply t answer)⟩

/-- A program that is served has a result over every implementation. -/
theorem Served.run {handle : Handler R τ} {rel : τ → σ → Prop}
    (implements : Implements handle S rel) (served : p.Served S s post) {x : τ} (start : rel x s) :
    ∃ value y t, p.run handle x = some (value, y) ∧ rel y t ∧ post value t := by
  induction p generalizing s x with
  | done value => exact ⟨value, x, s, rfl, start, served⟩
  | halt => cases served
  | call c k ih =>
    obtain ⟨ready, rest⟩ := served
    obtain ⟨reply, y, t, answer, allowed, related⟩ := implements c x s start ready
    obtain ⟨value, y', t', run, final⟩ := ih reply (rest reply t allowed) related
    refine ⟨value, y', t', ?_, final⟩
    simp only [Program.run, answer]
    exact run

end served

/-! Partial correctness under a contract, for programs that also make each call
only where it is in order. -/

def Obeys (ok : (c : C) → γ → Prop) (E : Contract R γ) : Program R α → γ → (α → γ → Prop) → Prop
  | .done value, g, post => post value g
  | .call c k, g, post =>
    ok c g ∧ ∀ reply, E.admits c g reply → (k reply).Obeys ok E (E.next c g reply) post
  | .halt, _, _ => True

section obeys
variable {ok : (c : C) → γ → Prop} {E : Contract R γ} {g : γ} {p : Program R α}
    {f : α → Program R β}
  {post post' : α → γ → Prop} {post₂ : β → γ → Prop}

@[simp] theorem obeys_pure {value : α} : (pure value : Program R α).Obeys ok E g post ↔
    post value g := Iff.rfl

@[simp] theorem obeys_bind :
    (p >>= f).Obeys ok E g post₂ ↔
      p.Obeys ok E g (fun value g' => (f value).Obeys ok E g' post₂) := by
  change (p.bind f).Obeys ok E g post₂ ↔ _
  induction p generalizing g with
  | done value => rfl
  | halt => rfl
  | call c k ih => exact and_congr_right' (forall_congr' fun reply => imp_congr_right fun _ => ih reply)

@[simp] theorem obeys_ite {cond : Prop} [Decidable cond] {q : Program R α} :
    (if cond then p else q).Obeys ok E g post ↔ (cond → p.Obeys ok E g post) ∧
      (¬ cond → q.Obeys ok E g post) := by
  split <;> simp [*]

theorem Obeys.mono (obeys : p.Obeys ok E g post)
    (weaker : ∀ value g, post value g → post' value g) :
    p.Obeys ok E g post' := by
  induction p generalizing g with
  | done value => exact weaker _ _ obeys
  | halt => trivial
  | call c k ih => exact ⟨obeys.1, fun reply admitted => ih reply (obeys.2 reply admitted)⟩

theorem Obeys.ensures (obeys : p.Obeys ok E g post) : p.Ensures E g post := by
  induction p generalizing g with
  | done value => exact obeys
  | halt => trivial
  | call c k ih => exact fun reply admitted => ih reply (obeys.2 reply admitted)

end obeys

end Program
