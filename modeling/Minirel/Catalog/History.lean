import Minirel.Catalog.Dbcreate
import Minirel.Lib.Transition

/-! Any sequence of calls that create and destroy relations, starting from the
catalogs of `dbcreate`. Between the calls other clients open and close files. -/
namespace Minirel
open Transition

inductive RelCall
  | createRel (relation : Name) (attrList : List AttrInfo)
  | destroyRel (relation : Name)

namespace RelCall

def prog : RelCall → Nat → Prog Status
  | .createRel relation attrList, fuel => RelCatalog.createRel fuel relation attrList
  | .destroyRel relation, fuel => RelCatalog.destroyRel fuel relation

def apply (db : Database) : RelCall → Status × Database
  | .createRel relation attrList => db.createRel relation attrList
  | .destroyRel relation => db.destroyRel relation

/-- Names are C strings, and the number of attributes is an `int`. -/
def WellFormed : RelCall → Prop
  | .createRel relation attrList =>
    0 ∉ relation ∧ (∀ attr ∈ attrList, 0 ∉ attr.attrName) ∧ attrList.length < 2 ^ 31
  | .destroyRel relation => 0 ∉ relation

theorem refines {st : Flat} {db : Database} {call : RelCall} (real : Realizes st db)
    (wellFormed : call.WellFormed) :
    ∃ st', Program.Returns Flat.handle call.prog st ((call.apply db).1, st') ∧
      Realizes st' (call.apply db).2 := by
  cases call with
  | createRel relation attrList => exact createRel_refines real wellFormed.1 wellFormed.2.1
  | destroyRel relation => exact destroyRel_refines real wellFormed

end RelCall

abbrev History := List (RelCall × Status)

structure Recorded where
  storage : Flat
  history : History

namespace Recorded

inductive Event
  | call (call : RelCall) (status : Status)
  | other

inductive Step (allowed : Flat → RelCall → Prop) : Recorded → Event → Recorded → Prop
  | call (wellFormed : call.WellFormed) (admitted : allowed st call)
      (returns : Program.Returns Flat.handle call.prog st (status, st')) :
      Step allowed ⟨st, log⟩ (.call call status) ⟨st', (call, status) :: log⟩
  | other (openCnt : Name → Nat) : Step allowed ⟨st, log⟩ .other ⟨{ st with openCnt := openCnt }, log⟩

def Created (r : Recorded) : Prop := (∃ st, Flat.run dbcreate st = some (.ok, r.storage)) ∧
    r.history = []

def Realized (inv : Database → History → Prop) (r : Recorded) : Prop :=
  ∃ db, Realizes r.storage db ∧ inv db r.history

theorem realizes {allowed : Flat → RelCall → Prop} {r : Recorded} (inv : Database → History → Prop)
    (initial : ∀ st, inv (.initial st) [])
    (call : ∀ st db history c, Realizes st db → inv db history → c.WellFormed → allowed st c →
      inv (c.apply db).2 ((c, (c.apply db).1) :: history))
    (other : ∀ (db : Database) history openCnt, inv db history →
      inv { db with openCnt := openCnt } history)
    (reached : Reachable Created (Step allowed) r) : r.Realized inv := by
  refine reached.invariant ?_ ?_
  · rintro ⟨st, history⟩ ⟨⟨st₀, run⟩, rfl⟩
    exact ⟨_, dbcreate_realizes run, initial st⟩
  · rintro s event t ⟨db, real, holds⟩ step
    cases step with
    | call wellFormed admitted returns =>
      obtain ⟨st', returns', real'⟩ := RelCall.refines real wellFormed
      cases returns.unique returns'
      exact ⟨_, real', call _ _ _ _ real holds wellFormed admitted⟩
    | other openCnt =>
      exact ⟨{ db with openCnt := openCnt },
        ⟨real.catalogs.congr rfl rfl, real.directory.present, rfl, real.directory.creatable⟩,
        other db _ openCnt holds⟩

theorem exists_created : ∃ st, Created ⟨st, []⟩ ∧ Realizes st (.initial st) ∧
    ∀ name, UserName name → st.files name = none ∧ st.openCnt name = 0 ∧
      st.creatable name = true := by
  have vacant : Vacant .empty := ⟨⟨rfl, rfl⟩, ⟨rfl, rfl⟩, rfl, rfl⟩
  obtain ⟨st, run, real, beside⟩ := dbcreate_spec vacant
  refine ⟨st, ⟨⟨_, run⟩, rfl⟩, real, fun name user => ⟨beside.files name user, ?_, ?_⟩⟩
  · rw [beside.openCnt]
    rfl
  · rw [beside.creatable]
    rfl

theorem exists_createRel_run (relation : Name) (attrList : List AttrInfo) (user : UserName relation)
    (wellFormed : (RelCall.createRel relation attrList).WellFormed)
    (accepted : ∀ st, (Database.initial st).Acceptable relation attrList)
    (short : ∀ attr ∈ attrList, attr.Short) :
    ∃ st st', Created ⟨st, []⟩ ∧ Realizes st (.initial st) ∧
      (st.files relation = none ∧ st.openCnt relation = 0 ∧ st.creatable relation = true) ∧
      Program.Returns Flat.handle (RelCatalog.createRel · relation attrList) st (.ok, st') := by
  obtain ⟨st, created, real, empty⟩ := exists_created
  obtain ⟨absent, unopened, creatable⟩ := empty relation user
  obtain ⟨st', returns, _⟩ := RelCall.refines real wellFormed
  have ok := Database.createRel_ok (accepted st) short unopened (by simp [Database.initial, absent])
    creatable
  rw [RelCall.apply, ok] at returns
  exact ⟨st, st', created, real, ⟨absent, unopened, creatable⟩, returns⟩

theorem exists_createRel {allowed : Flat → RelCall → Prop} (relation : Name)
    (attrList : List AttrInfo) (user : UserName relation)
    (wellFormed : (RelCall.createRel relation attrList).WellFormed)
    (admitted : ∀ st, Realizes st (.initial st) → st.openCnt relation = 0 →
      st.files relation = none → st.creatable relation = true →
        allowed st (.createRel relation attrList))
    (accepted : ∀ st, (Database.initial st).Acceptable relation attrList)
    (short : ∀ attr ∈ attrList, attr.Short) :
    ∃ st, Reachable Created (Step allowed) ⟨st, [(.createRel relation attrList, .ok)]⟩ := by
  obtain ⟨st, st', created, real, ⟨absent, unopened, creatable⟩, returns⟩ :=
    exists_createRel_run relation attrList user wellFormed accepted short
  exact ⟨st', .next (.initial created)
    (.call wellFormed (admitted st real unopened absent creatable) returns)⟩

end Recorded
end Minirel
