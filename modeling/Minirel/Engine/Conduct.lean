import Minirel.Engine.Ledger

/-! When a program that runs on flat storage is served by the engine: it keeps
to the rules whatever replies it gets, tells if a read has failed, and makes at
most one page of unknown contents. -/
namespace Minirel
open Program

structure Conduct where
  ledger : Ledger
  grown : Bool
  lost : Bool

namespace Conduct

def failed : (c : StorageCall) → c.Reply → Bool
  | .readPage _ _, status => status ≠ .ok
  | _, _ => false

def contract : Contract StorageCall.Reply Conduct where
  admits c _ reply := ∃ st t, Flat.handle c st = some (reply, t)
  next c g reply := ⟨g.ledger.account c reply, g.grown || c.grows, g.lost || failed c reply⟩

/-- After a failed read anything goes. -/
def Orderly (bufs : Nat) (c : StorageCall) (g : Conduct) : Prop :=
  g.lost = true ∨ g.ledger.Permits bufs c ∧ (c.grows = true → g.grown = false)

abbrev Behaves (bufs : Nat) (p : Prog α) (g : Conduct) (post : α → Conduct → Prop) : Prop :=
  p.Obeys (Orderly bufs) contract g post

variable {α : Type} {bufs : Nat} {p : Prog α} {g : Conduct} {post : α → Conduct → Prop}
    {st t : Flat} {value : α}

theorem contract_admits (c : StorageCall) (st : Flat) (g : Conduct) (reply : c.Reply) (t : Flat)
    (answer : Flat.handle c st = some (reply, t)) : contract.admits c g reply := ⟨st, t, answer⟩

/-- A failed read shows in the result. -/
theorem lost_of_run (behaves : Behaves bufs p g post) (lost : g.lost = true)
    (run : Flat.run p st = some (value, t)) :
    ∃ g', g'.lost = true ∧ post value g' := by
  obtain ⟨g', lost', holds⟩ := behaves.ensures.sound (fun _ g => g.lost = true)
    (fun c s g reply t lost answer =>
    ⟨contract_admits c s g reply t answer, by simp [contract, lost]⟩) lost run
  exact ⟨g', lost', holds⟩

/-- Flat storage does not look at `scratch` unless something grows. -/
theorem handle_scratch {c : StorageCall} {reply : c.Reply} (quiet : c.grows = false)
    (answer : Flat.handle c st = some (reply, t)) (scratch : Page) :
    Flat.handle c { st with scratch := scratch } = some (reply, { t with scratch := scratch }) := by
  cases c with
  | allocPage => cases quiet
  | createFile => cases quiet
  | unPinPage =>
    cases answer
    rfl
  | flushFile =>
    cases answer
    rfl
  | openFile name =>
    simp only [Flat.handle] at answer ⊢
    split at answer <;> [skip; split at answer] <;> cases answer <;> simp_all [Flat.opened]
  | closeFile name =>
    simp only [Flat.handle] at answer ⊢
    split at answer <;> cases answer
    simp_all [Flat.closed]
  | destroyFile name =>
    simp only [Flat.handle] at answer ⊢
    split at answer <;> [skip; split at answer <;> [skip; split at answer]] <;> cases answer <;>
      simp_all
  | getFirstPage name =>
    obtain ⟨f, there, same⟩ := Option.map_eq_some_iff.mp answer
    cases same
    simp [Flat.handle, there]
  | readPage name n =>
    obtain ⟨f, there, same⟩ := Option.map_eq_some_iff.mp answer
    cases same
    simp [Flat.handle, there]
  | load name n =>
    obtain ⟨f, there, same⟩ := Option.map_eq_some_iff.mp answer
    cases same
    simp [Flat.handle, there]
  | store name n image =>
    obtain ⟨f, there, same⟩ := Option.map_eq_some_iff.mp answer
    cases same
    simp [Flat.handle, there, Flat.put]

/-- A call on a good path is one the service is ready for. -/
theorem ready_of_run {c : StorageCall} {k : c.Reply → Prog α} {reply : c.Reply}
    (behaves : Behaves bufs (.call c k) g post)
    (found : g.lost = false) (good : ∀ g', post value g' → g'.lost = false)
    (answer : Flat.handle c st = some (reply, t)) {final : Flat}
    (rest : Flat.run (k reply) t = some (value, final)) :
    (Flat.service bufs).ready c (st, g.ledger) ∧ (c.grows = true → g.grown = false) ∧
      (contract.next c g reply).lost = false := by
  obtain ⟨permitted, once⟩ := behaves.1.resolve_left (by simp [found])
  have known : (contract.next c g reply).lost = false := by
    by_contra lost
    have behaves' := behaves.2 reply (contract_admits c st g reply t answer)
    obtain ⟨g', lost', holds⟩ := lost_of_run behaves' (by simpa using lost) rest
    simp [good g' holds] at lost'
  refine ⟨⟨permitted, ?_⟩, once, known⟩
  cases c with
  | readPage name n =>
    obtain ⟨f, there, same⟩ := Option.map_eq_some_iff.mp answer
    obtain ⟨status, rfl⟩ := Prod.mk.inj same
    refine ⟨f, there, ?_⟩
    simp only [contract, found, Bool.false_or, failed, decide_eq_false_iff_not, not_not] at known
    rw [known] at status
    split at status
    · cases status
    · split at status
      · cases status
      · omega
  | _ => trivial

/-- Once something has grown the run is a single one. -/
theorem served_grown (behaves : Behaves bufs p g post) (grown : g.grown = true)
    (found : g.lost = false) (good : ∀ g', post value g' → g'.lost = false)
    (run : Flat.run p st = some (value, t)) :
    p.Served (Flat.service bufs) (st, g.ledger) fun v s => v = value ∧ s.1 = t ∧
      ∃ g', post value g' ∧ g'.ledger = s.2 := by
  induction p generalizing g st with
  | done v =>
    cases run
    exact ⟨rfl, rfl, g, behaves, rfl⟩
  | halt => cases run
  | call c k ih =>
    simp only [Flat.run, Program.run] at run
    split at run
    next reply u answer =>
      obtain ⟨ready, once, found'⟩ := ready_of_run behaves found good answer run
      have quiet : c.grows = false := by
        by_contra grows
        simp [once (by simpa using grows)] at grown
      refine ⟨ready, ?_⟩
      rintro reply' ⟨u', ledger'⟩ ⟨rfl, scratch, same, answer'⟩
      rw [same quiet] at answer'
      obtain ⟨rfl, rfl⟩ := Prod.mk.inj (Option.some.inj (answer.symm.trans answer'))
      exact ih reply (behaves.2 reply (contract_admits c st g reply u answer))
        (by simp [contract, grown]) found' run
    next => cases run

/-- A program that behaves, and that runs on flat storage whatever a new page
holds, is served with one of the results it has there. -/
theorem served (behaves : Behaves bufs p g post) (found : g.lost = false) {bad : α → Prop}
    (shown : ∀ v g', post v g' → g'.lost = true → bad v)
    (runs : ∀ scratch, ∃ v t, Flat.run p { st with scratch := scratch } = some (v, t) ∧ ¬ bad v) :
    p.Served (Flat.service bufs) (st, g.ledger) fun v s =>
      (∃ scratch, Flat.run p { st with scratch := scratch } = some (v, s.1)) ∧ ∃ g', post v g' ∧
        g'.ledger = s.2 := by
  induction p generalizing g st with
  | done v => exact ⟨⟨st.scratch, rfl⟩, g, behaves, rfl⟩
  | halt =>
    obtain ⟨_, _, run, _⟩ := runs st.scratch
    cases run
  | call c k ih =>
    have good : ∀ v, ¬ bad v → ∀ g', post v g' → g'.lost = false := fun v fine g' holds => by
      by_contra lost
      exact fine (shown v g' holds (by simpa using lost))
    -- the first call has an answer, whatever `scratch` is
    have split : ∀ scratch, ∃ reply u v t, Flat.handle c { st with scratch := scratch } =
      some (reply, u) ∧
        Flat.run (k reply) u = some (v, t) ∧ ¬ bad v := by
      intro scratch
      obtain ⟨v, t, run, fine⟩ := runs scratch
      simp only [Flat.run, Program.run] at run
      split at run
      next reply u answer => exact ⟨reply, u, v, t, answer, run, fine⟩
      next => cases run
    have step : ∀ scratch reply u, Flat.handle c { st with scratch := scratch } = some (reply, u) →
        Flat.run (.call c k) { st with scratch := scratch } = Flat.run (k reply) u := by
      intro scratch reply u answer
      simp only [Flat.run, Program.run, answer]
    obtain ⟨reply, u, v, t, answer, rest, fine⟩ := split st.scratch
    obtain ⟨ready, once, found'⟩ := ready_of_run behaves found (good v fine) answer rest
    refine ⟨ready, ?_⟩
    rintro reply' ⟨u', ledger'⟩ ⟨rfl, scratch, same, answer'⟩
    by_cases grows : c.grows = true
    · obtain ⟨reply'', u'', v', t', answer'', rest', fine'⟩ := split scratch
      obtain ⟨rfl, rfl⟩ := Prod.mk.inj (Option.some.inj (answer''.symm.trans answer'))
      have after := ready_of_run behaves found (good v' fine') answer' rest'
      refine (served_grown (behaves.2 _ (contract_admits c _ g _ _ answer'))
        (by simp [contract, grows]) after.2.2 (good v' fine') rest').mono ?_
      rintro w s ⟨rfl, rfl, holds⟩
      exact ⟨⟨scratch, (step scratch _ _ answer').trans rest'⟩, holds⟩
    · have quiet : c.grows = false := by simpa using grows
      rw [same quiet] at answer'
      obtain ⟨rfl, rfl⟩ := Prod.mk.inj (Option.some.inj (answer.symm.trans answer'))
      refine (ih reply (behaves.2 reply (contract_admits c _ g reply u answer)) found'
        fun scratch => ?_).mono ?_
      · obtain ⟨v', t', run, fine'⟩ := runs scratch
        rw [step scratch reply _ (handle_scratch quiet answer scratch)] at run
        exact ⟨v', t', run, fine'⟩
      · rintro w s ⟨⟨scratch, run⟩, holds⟩
        exact ⟨⟨scratch, (step scratch reply _ (handle_scratch quiet answer scratch)).trans run⟩, holds⟩

end Conduct
end Minirel
