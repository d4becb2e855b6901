import Minirel.Catalog.Refinement
import Minirel.HeapFile.Growth

/-! The calls on the catalogs return the same with any fuel, so that what is known
of them with enough fuel is known of each run. -/
namespace Minirel
open Program

namespace RelCatalog

theorem getInfo_steady (relation : Name) : Steady Flat.handle (getInfo · relation) := by
  intro fuel
  refine .ite (.refl _) (.bind (.refl _) fun found => ?_)
  cases found with
  | error status => exact .refl _
  | ok hfs => exact .bind (HeapFileScan.scanNext_steady hfs fuel) fun _ => .refl _

theorem removeInfo_steady (relation : Name) : Steady Flat.handle (removeInfo · relation) := by
  intro fuel
  refine .ite (.refl _) (.bind (.refl _) fun found => ?_)
  cases found with
  | error status => exact .refl _
  | ok hfs => exact .bind (HeapFileScan.scanNext_steady hfs fuel) fun _ => .refl _

end RelCatalog

namespace AttrCatalog

theorem search_steady (attrName : Name) (hfs : HeapFileScan) :
    Steady Flat.handle (search attrName · hfs) := by
  intro fuel
  induction fuel generalizing hfs with
  | zero => exact .halt _
  | succ fuel ih =>
    refine .bind (HeapFileScan.scanNext_steady hfs fuel) fun ⟨status, hfs⟩ => .ite (.refl _) ?_
    refine .bind (.refl _) fun found => ?_
    cases found with
    | error status => exact .refl _
    | ok rec => exact .ite (.refl _) (.ite (.refl _) (ih hfs))

theorem getInfo_steady (relation attrName : Name) :
    Steady Flat.handle (getInfo · relation attrName) := by
  intro fuel
  refine .ite (.refl _) (.bind (.refl _) fun found => ?_)
  cases found with
  | error status => exact .refl _
  | ok hfs => exact .bind (search_steady attrName hfs fuel) fun _ => .refl _

theorem removeInfo_steady (relation attrName : Name) :
    Steady Flat.handle (removeInfo · relation attrName) := by
  intro fuel
  refine .ite (.refl _) (.bind (.refl _) fun found => ?_)
  cases found with
  | error status => exact .refl _
  | ok hfs => exact .bind (search_steady attrName hfs fuel) fun _ => .refl _

theorem collect_steady (hfs : HeapFileScan) : Steady Flat.handle (collect · hfs) := by
  intro fuel
  induction fuel generalizing hfs with
  | zero => exact .halt _
  | succ fuel ih =>
    refine .bind (HeapFileScan.scanNext_steady hfs fuel) fun ⟨status, hfs⟩ => .ite (.refl _) ?_
    refine .bind (.refl _) fun found => ?_
    cases found with
    | error status => exact .refl _
    | ok rec => exact .ite (.refl _) (.bind (ih hfs) fun _ => .refl _)

theorem getRelInfo_steady (relation : Name) : Steady Flat.handle (getRelInfo · relation) := by
  intro fuel
  refine .ite (.refl _) (.bind (.refl _) fun found => ?_)
  cases found with
  | error status => exact .refl _
  | ok hfs => exact .bind (collect_steady hfs fuel) fun _ => .refl _

theorem removeAll_steady (relation : Name) (attrs : List AttrDesc) :
    Steady Flat.handle (removeAll · relation attrs) := by
  intro fuel
  induction attrs with
  | nil => exact .refl _
  | cons attr attrs ih =>
    exact .bind (removeInfo_steady relation attr.attrName fuel) fun _ => .ite (.refl _) ih

theorem dropRelation_steady (relation : Name) : Steady Flat.handle (dropRelation · relation) := by
  intro fuel
  refine .ite (.refl _) (.bind (getRelInfo_steady relation fuel) fun found => ?_)
  cases found with
  | error status => exact .refl _
  | ok attrs => exact removeAll_steady relation attrs fuel

end AttrCatalog

namespace RelCatalog

theorem createRel_steady (relation : Name) (attrList : List AttrInfo) :
    Steady Flat.handle (createRel · relation attrList) :=
  fun fuel => .ite (.refl _) (.ite (.refl _) (.bind (getInfo_steady relation fuel) fun _ => .refl _))

theorem destroyRel_steady (relation : Name) : Steady Flat.handle (destroyRel · relation) := by
  intro fuel
  refine .ite (.refl _)
    (.bind (AttrCatalog.dropRelation_steady relation fuel) fun _ => .ite (.refl _) ?_)
  exact .bind (removeInfo_steady relation fuel) fun _ => .refl _

end RelCatalog

/-! What a run returns. -/

variable {st st' : Flat} {cat : Catalog} {db : Database} {relation attrName : Name}
    {attrList : List AttrInfo} {fuel : Nat}

theorem RelCatalog.getInfo_run {found : Except Status RelDesc} (rep : Represents st cat)
    (terminated : 0 ∉ relation) (named : relation ≠ [])
    (returned : Flat.run (getInfo fuel relation) st = some (found, st')) :
    st' = st ∧ found = match cat.rel relation with
      | some n => .ok ⟨relation, n⟩
      | none => .error .relNotFound := by
  cases (getInfo_steady relation).unique returned (getInfo_spec rep terminated named)
  exact ⟨rfl, rfl⟩

theorem AttrCatalog.getRelInfo_run {found : Except Status (List AttrDesc)} (rep : Represents st cat)
    (terminated : 0 ∉ relation) (named : relation ≠ [])
    (returned : Flat.run (getRelInfo fuel relation) st = some (found, st')) :
    st' = st ∧ found = if cat.rows relation = [] then .error .relNotFound
      else .ok (cat.rows relation) := by
  cases (getRelInfo_steady relation).unique returned (getRelInfo_spec rep terminated named)
  exact ⟨rfl, rfl⟩

/-! An empty name is refused. -/

theorem RelCatalog.getInfo_found {found : Except Status RelDesc} (rep : Represents st cat)
    (terminated : 0 ∉ relation)
    (returned : Flat.run (getInfo fuel relation) st = some (found, st')) :
    st' = st ∧ ∀ rd, found = .ok rd → relation ≠ [] ∧ rd.relName = relation ∧
      cat.rel relation ≠ none := by
  by_cases empty : relation = []
  · rw [getInfo, if_pos empty] at returned
    cases returned
    exact ⟨rfl, fun _ ok => by cases ok⟩
  · obtain ⟨same, result⟩ := getInfo_run rep terminated empty returned
    refine ⟨same, fun rd ok => ⟨empty, ?_⟩⟩
    rw [result] at ok
    cases listed : cat.rel relation with
    | none =>
      rw [listed] at ok
      cases ok
    | some n =>
      rw [listed] at ok
      cases ok
      exact ⟨rfl, Option.some_ne_none n⟩

theorem AttrCatalog.getRelInfo_found {found : Except Status (List AttrDesc)}
    (rep : Represents st cat) (terminated : 0 ∉ relation)
    (returned : Flat.run (getRelInfo fuel relation) st = some (found, st')) :
    st' = st ∧ ∀ attrs, found = .ok attrs → attrs = cat.rows relation ∧ attrs ≠ [] := by
  by_cases empty : relation = []
  · rw [getRelInfo, if_pos empty] at returned
    cases returned
    exact ⟨rfl, fun _ ok => by cases ok⟩
  · obtain ⟨same, result⟩ := getRelInfo_run rep terminated empty returned
    refine ⟨same, fun attrs ok => ?_⟩
    rw [result] at ok
    split at ok
    · cases ok
    · cases ok
      exact ⟨rfl, ‹_›⟩

theorem AttrCatalog.getInfo_run {found : Except Status AttrDesc} (rep : Represents st cat)
    (terminated : 0 ∉ relation)
    (returned : Flat.run (getInfo fuel relation attrName) st = some (found, st')) :
    st' = st ∧ ∀ d, found = .ok d ↔ relation ≠ [] ∧ attrName ≠ [] ∧
      (cat.rows relation).find? (fun d => d.attrName = attrName) = some d := by
  by_cases empty : relation = [] ∨ attrName = []
  · rw [getInfo, if_pos empty] at returned
    cases returned
    refine ⟨rfl, fun d => ⟨fun ok => (by cases ok), fun named => ?_⟩⟩
    exact absurd empty (not_or.mpr ⟨named.1, named.2.1⟩)
  · obtain ⟨named, attrNamed⟩ := not_or.mp empty
    cases (getInfo_steady relation attrName).unique returned
      (getInfo_spec rep terminated named attrNamed)
    refine ⟨rfl, fun d => ?_⟩
    cases (cat.rows relation).find? (fun d => d.attrName = attrName) <;> simp [named, attrNamed]

theorem RelCatalog.createRel_run {status : Status} (real : Realizes st db)
    (terminated : 0 ∉ relation) (attrTerminated : ∀ attr ∈ attrList, 0 ∉ attr.attrName)
    (returned : Flat.run (createRel fuel relation attrList) st = some (status, st')) :
    status = (db.createRel relation attrList).1 ∧ Realizes st' (db.createRel relation attrList).2 ∧
      (UserName relation → OnlyFile relation st st') := by
  obtain ⟨t, returns, real', only⟩ := createRel_files real terminated attrTerminated
  cases (createRel_steady relation attrList).unique returned returns
  exact ⟨rfl, real', only⟩

theorem RelCatalog.destroyRel_run {status : Status} (real : Realizes st db)
    (terminated : 0 ∉ relation)
    (returned : Flat.run (destroyRel fuel relation) st = some (status, st')) :
    status = (db.destroyRel relation).1 ∧ Realizes st' (db.destroyRel relation).2 ∧
      (UserName relation → OnlyFile relation st st') := by
  obtain ⟨t, returns, real', only⟩ := destroyRel_files real terminated
  cases (destroyRel_steady relation).unique returned returns
  exact ⟨rfl, real', only⟩

end Minirel
