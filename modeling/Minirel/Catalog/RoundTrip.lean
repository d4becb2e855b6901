import Minirel.Catalog.History

/-! Creating a relation and destroying it again leaves the catalogs as they
were, for whoever looks something up in them. -/
namespace Minirel
open Transition Function

def SameAnswer {α : Type} (lookup : Nat → Prog α) (st st' : Flat) : Prop :=
  ∃ answer, Program.Returns Flat.handle lookup st (answer, st) ∧
    Program.Returns Flat.handle lookup st' (answer, st')

section lookups
variable {st st' : Flat} {cat cat' : Catalog} {relation : Name}

theorem getInfo_same (rep : Represents st cat) (rep' : Represents st' cat')
    (terminated : 0 ∉ relation) (same : cat'.rel relation = cat.rel relation) :
    SameAnswer (RelCatalog.getInfo · relation) st st' := by
  by_cases named : relation = []
  · subst named
    exact ⟨_, .of_run rfl, .of_run rfl⟩
  · have after := RelCatalog.getInfo_spec rep' terminated named
    rw [same] at after
    exact ⟨_, RelCatalog.getInfo_spec rep terminated named, after⟩

theorem getRelInfo_same (rep : Represents st cat) (rep' : Represents st' cat')
    (terminated : 0 ∉ relation) (same : cat'.rows relation = cat.rows relation) :
    SameAnswer (AttrCatalog.getRelInfo · relation) st st' := by
  by_cases named : relation = []
  · subst named
    exact ⟨_, .of_run rfl, .of_run rfl⟩
  · have after := AttrCatalog.getRelInfo_spec rep' terminated named
    rw [same] at after
    exact ⟨_, AttrCatalog.getRelInfo_spec rep terminated named, after⟩

end lookups

namespace Database
variable {db : Database} {relation : Name} {attrList : List AttrInfo}

theorem createRel_destroyRel (created : (db.createRel relation attrList).1 = .ok)
    (destroyed : ((db.createRel relation attrList).2.destroyRel relation).1 = .ok) :
    ∃ db', (db.createRel relation attrList).2.destroyRel relation = (.ok, db') ∧ relation ≠ [] ∧
      relation.length < maxName ∧ db'.rel relation = none ∧ db'.rows relation = [] ∧
      db'.openCnt relation = 0 ∧ db'.present relation = false ∧ db'.creatable relation = true := by
  have outcome := db.createRel_cases relation attrList
  generalize db.createRel relation attrList = result at outcome created destroyed ⊢
  cases outcome with
  | refused refused =>
    rcases refusal_cases refused with rfl | rfl | ⟨rfl, _⟩ | ⟨rfl | rfl, _⟩ <;> cases created
  | stopped => cases created
  | known => cases created
  | uncreatable => cases created
  | created accepted short unopened absent creatable =>
    have outcome' := destroyRel_cases
      { db.entered relation attrList with present := update db.present relation true } relation
    generalize destroyRel _ relation = result at outcome' destroyed ⊢
    cases outcome' with
    | refused => cases destroyed
    | unknown => cases destroyed
    | stopped => cases destroyed
    | left _ _ _ _ cause =>
      rcases cause with ⟨rfl, _⟩ | ⟨rfl, _⟩ <;> cases destroyed
    | destroyed user described named unopened' there =>
      exact ⟨_, rfl, accepted.named, accepted.fits, update_self .., update_self .., unopened',
        update_self .., creatable⟩

end Database

namespace Recorded

/-- The checks of `createRel` on the attributes alone. -/
structure Storable (attrList : List AttrInfo) : Prop where
  nonempty : attrList ≠ []
  distinct : (attrList.map AttrInfo.attrName).Nodup
  short : ∀ attr ∈ attrList, attr.Short
  width : RelCatalog.tupleWidth attrList ≤ pageSize

/-- That both calls succeed says all that is needed of the relation and its
attributes: it was not listed, its file was not there, the names are not empty
and fit. -/
theorem create_destroy_identity {r : Recorded} {relation : Name} {attrList : List AttrInfo}
    {st₁ st₂ : Flat} (reached : Reachable Created (Step fun _ _ => True) r)
    (wellFormed : (RelCall.createRel relation attrList).WellFormed)
    (created : Program.Returns Flat.handle (RelCatalog.createRel · relation attrList) r.storage
      (.ok, st₁))
    (destroyed : Program.Returns Flat.handle (RelCatalog.destroyRel · relation) st₁ (.ok, st₂)) :
    (∀ other ≠ relation, 0 ∉ other → SameAnswer (RelCatalog.getInfo · other) r.storage st₂ ∧
      SameAnswer (AttrCatalog.getRelInfo · other) r.storage st₂) ∧
    Program.Returns Flat.handle (RelCatalog.getInfo · relation) st₂ (.error .relNotFound, st₂) ∧
    (∃ attrs, Table st₂ attrCatName AttrDesc.bytes attrs ∧ ∀ row ∈ attrs,
      row.2.relName ≠ relation) ∧
    ∀ attrList', (RelCall.createRel relation attrList').WellFormed → Storable attrList' →
      ∃ st₃, Program.Returns Flat.handle (RelCatalog.createRel · relation attrList') st₂
        (.ok, st₃) := by
  obtain ⟨db, real, _⟩ := realizes (fun _ _ => True) (fun _ => trivial) (fun _ _ _ _ _ _ _ _ => trivial)
    (fun _ _ _ _ => trivial) reached
  obtain ⟨_, returns₁, real₁⟩ := createRel_refines real wellFormed.1 wellFormed.2.1
  have same₁ := created.unique returns₁
  obtain ⟨ok₁, rfl⟩ := Prod.mk.inj same₁
  obtain ⟨_, returns₂, real₂⟩ := destroyRel_refines real₁ wellFormed.1
  obtain ⟨ok₂, rfl⟩ := Prod.mk.inj (destroyed.unique returns₂)
  obtain ⟨db', result, named, fits, unlisted, none, unopened, absent, creatable⟩ :=
    Database.createRel_destroyRel ok₁.symm ok₂.symm
  have others := fun (other : Name) (apart : other ≠ relation) =>
    (db.createRel relation attrList).2.destroyRel_others apart
  rw [result] at real₂ others
  refine ⟨fun other apart terminated => ?_, ?_, ?_, fun attrList' wellFormed' storable => ?_⟩
  · obtain ⟨rel, rows⟩ := others other apart
    obtain ⟨rel', rows'⟩ := db.createRel_others attrList apart
    exact ⟨getInfo_same real.catalogs real₂.catalogs terminated (rel.trans rel'),
      getRelInfo_same real.catalogs real₂.catalogs terminated (rows.trans rows')⟩
  · have info := RelCatalog.getInfo_spec real₂.catalogs wellFormed.1 named
    rwa [unlisted] at info
  · obtain ⟨attrs, table, _, listed⟩ := real₂.catalogs.attrs
    refine ⟨attrs, table, fun row member same => ?_⟩
    have kept : row ∈ ofRelation relation attrs := List.mem_filter.mpr ⟨member, decide_eq_true same⟩
    rw [List.map_eq_nil_iff.mp ((listed relation).trans none)] at kept
    cases kept
  · have accepted : db'.Acceptable relation attrList' :=
      ⟨named, storable.nonempty, fits, unlisted, storable.distinct, storable.width⟩
    obtain ⟨st₃, returns₃, _⟩ := createRel_refines real₂ wellFormed'.1 wellFormed'.2.1
    rw [Database.createRel_ok accepted storable.short unopened absent creatable] at returns₃
    exact ⟨st₃, returns₃⟩

/-- A relation is created, destroyed and created again. -/
theorem create_destroy_identity_fresh :
    let attrs : List AttrInfo := [⟨chars "r", chars "a", 1, 4, none⟩]
    ∃ st st₁ st₂ st₃, Created ⟨st, []⟩ ∧
      Program.Returns Flat.handle (RelCatalog.createRel · (chars "r") attrs) st (.ok, st₁) ∧
      Program.Returns Flat.handle (RelCatalog.destroyRel · (chars "r")) st₁ (.ok, st₂) ∧
      SameAnswer (AttrCatalog.getRelInfo · relCatName) st st₂ ∧
      Program.Returns Flat.handle (RelCatalog.createRel · (chars "r") attrs) st₂ (.ok, st₃) := by
  intro attrs
  obtain ⟨st, created, real, empty⟩ := exists_created
  obtain ⟨absent, unopened, creatable⟩ := empty (chars "r") (by decide)
  have wellFormed : (RelCall.createRel (chars "r") attrs).WellFormed :=
    ⟨by decide, by decide, by decide⟩
  have accepted : (Database.initial st).Acceptable (chars "r") attrs :=
    ⟨by decide, by decide, by decide, rfl, by decide, by decide⟩
  have rows : ((Database.initial st).entered (chars "r") attrs).rows (chars "r") =
      [⟨chars "r", chars "a", 0, 1, 4⟩] := by
    rw [Database.entered, Database.rows_enter, update_self]
    decide
  obtain ⟨db₁, ok, rows, unopened', there⟩ :
    ∃ db₁, (Database.initial st).createRel (chars "r") attrs = (.ok, db₁) ∧
      db₁.rows (chars "r") = [⟨chars "r", chars "a", 0, 1, 4⟩] ∧ db₁.openCnt (chars "r") = 0 ∧
      db₁.present (chars "r") = true :=
    ⟨_, Database.createRel_ok accepted (by decide) unopened (by simp [Database.initial, absent])
      creatable, rows, unopened, by simp⟩
  obtain ⟨st₁, returns₁, real₁⟩ := createRel_refines real wellFormed.1 wellFormed.2.1
  rw [ok] at returns₁ real₁
  obtain ⟨st₂, returns₂, _⟩ := destroyRel_refines real₁ wellFormed.1
  rw [Database.destroyRel_ok (by decide) (by decide) (by simp [rows]) (by rw [rows]; decide)
    unopened' there] at returns₂
  obtain ⟨others, _, _, again⟩ :=
    create_destroy_identity (.initial created) wellFormed returns₁ returns₂
  obtain ⟨st₃, returns₃⟩ := again attrs wellFormed ⟨by decide, by decide, by decide, by decide⟩
  exact ⟨st, st₁, st₂, st₃, created, returns₁, returns₂,
    (others relCatName (by decide) (by decide)).2, returns₃⟩

end Recorded
end Minirel
