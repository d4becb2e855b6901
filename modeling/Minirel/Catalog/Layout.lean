import Mathlib.Algebra.Order.BigOperators.Group.List
import Minirel.Catalog.History

/-! The rows of a relation are listed in the order in which its attributes were
given, and their offsets are the sums of the lengths before them, over any
history of calls. -/
namespace Minirel
open Transition

def AttrDesc.info (d : AttrDesc) : AttrInfo := ⟨d.relName, d.attrName, d.attrType, d.attrLen, none⟩

def ownAttrs (name : Name) : Option (List AttrInfo × Status) :=
  if name = relCatName then some (relCatAttrs.map AttrDesc.info, .ok)
  else if name = attrCatName then some (attrCatAttrs.map AttrDesc.info, .ok)
  else none

/-- The attributes a relation was given last, with the answer of that call. A
call answered with RELEXISTS or BADCATPARM gives a relation nothing; one that
removes a relation takes them back. -/
def History.given : History → Name → Option (List AttrInfo × Status)
  | [], name => ownAttrs name
  | (.createRel relation attrList, status) :: history, name =>
    if name = relation ∧ status ≠ .relExists ∧ status ≠ .badCatParm then some (attrList, status)
    else given history name
  | (.destroyRel relation, status) :: history, name =>
    if name = relation ∧ status ≠ .relNotFound ∧ status ≠ .badCatParm then none else given history name

structure AttrDesc.Describes (d : AttrDesc) (attr : AttrInfo) : Prop where
  attrName : d.attrName = attr.attrName
  attrType : d.attrType = int attr.attrType
  attrLen : d.attrLen = int attr.attrLen

def Measured (attrList : List AttrInfo) : Prop :=
  (∀ attr ∈ attrList, 0 ≤ attr.attrLen) ∧ (attrList.map AttrInfo.attrLen).sum < 2 ^ 32

section describe
variable {relation : Name} {offset : Int} {attrs : List AttrInfo}

theorem describe_describes (relation : Name) (offset : Int) (attrs : List AttrInfo) :
    List.Forall₂ AttrDesc.Describes (describe relation offset attrs) attrs := by
  induction attrs generalizing offset with
  | nil => exact .nil
  | cons attr attrs ih => exact .cons ⟨rfl, rfl, rfl⟩ (ih _)

theorem describe_offset {front back : List AttrDesc} {d : AttrDesc} (fits : int offset = offset)
    (split : describe relation offset attrs = front ++ d :: back) :
    d.attrOffset = int (offset + (front.map AttrDesc.attrLen).sum) := by
  induction attrs generalizing offset front with
  | nil => simp [describe] at split
  | cons attr attrs ih =>
    cases front with
    | nil =>
      obtain ⟨rfl, _⟩ := List.cons.inj split
      simpa using fits.symm
    | cons first front =>
      obtain ⟨rfl, rest⟩ := List.cons.inj split
      rw [ih (int_int _) rest, List.map_cons, List.sum_cons, ← Int.add_assoc]
      exact Int.bmod_add_bmod ..

theorem describe_attrLen (relation : Name) (offset : Int) (attrs : List AttrInfo) :
    (describe relation offset attrs).map AttrDesc.attrLen = attrs.map fun attr =>
      int attr.attrLen := by
  induction attrs generalizing offset with
  | nil => rfl
  | cons attr attrs ih => exact congrArg _ (ih _)

theorem Measured.sum_le (measured : Measured attrs)
    (width : RelCatalog.tupleWidth attrs ≤ pageSize) :
    (attrs.map AttrInfo.attrLen).sum ≤ pageSize := by
  have nonneg : 0 ≤ (attrs.map AttrInfo.attrLen).sum := List.sum_nonneg (by simpa using measured.1)
  rwa [RelCatalog.tupleWidth, Int.emod_eq_of_lt nonneg measured.2] at width

theorem Measured.int_attrLen (measured : Measured attrs)
    (width : RelCatalog.tupleWidth attrs ≤ pageSize) :
    (attrs.map fun attr => int attr.attrLen) = attrs.map AttrInfo.attrLen := by
  apply List.map_congr_left
  intro attr member
  have low := measured.1 attr member
  have high : attr.attrLen ≤ (attrs.map AttrInfo.attrLen).sum :=
    List.single_le_sum (by simpa using measured.1) _ (List.mem_map_of_mem member)
  have total := measured.sum_le width
  exact int_of_fits (by omega) (by simp only [pageSize] at total; omega)

/-- No offset wraps where the lengths are measured. -/
theorem describe_offset_exact {front back : List AttrDesc} {d : AttrDesc}
    (measured : Measured attrs) (width : RelCatalog.tupleWidth attrs ≤ pageSize)
    (split : describe relation 0 (storable attrs) = front ++ d :: back) :
    d.attrOffset = (front.map AttrDesc.attrLen).sum := by
  have part : front.map AttrDesc.attrLen <+: attrs.map AttrInfo.attrLen := by
    have front_le : front.map AttrDesc.attrLen <+: (describe relation 0 (storable attrs)).map
        AttrDesc.attrLen := by
      rw [split, List.map_append]
      exact List.prefix_append ..
    rw [describe_attrLen] at front_le
    rw [← measured.int_attrLen width]
    exact front_le.trans ((storable_isInit _).map _)
  have nonneg : ∀ n ∈ attrs.map AttrInfo.attrLen, 0 ≤ n := by simpa using measured.1
  have low : 0 ≤ (front.map AttrDesc.attrLen).sum :=
    List.sum_nonneg fun n member => nonneg n (part.subset member)
  have high := part.sublist.sum_le_sum nonneg
  have total := measured.sum_le width
  rw [describe_offset (show int 0 = 0 from rfl) split, Int.zero_add]
  exact int_of_fits (by omega) (by simp only [pageSize] at total; omega)

end describe

/-- The rows of a relation, by what it was given: all of the attributes, or those
in front of one whose name is too long, or none of them if the call failed. -/
inductive Kept (relation : Name) : Option (List AttrInfo × Status) → List AttrDesc → Prop
  | none : Kept relation none []
  | refused (failed : status ≠ .ok) : Kept relation (some (attrs, status)) []
  | entered (distinct : (attrs.map AttrInfo.attrName).Nodup)
      (width : RelCatalog.tupleWidth attrs ≤ pageSize)
      (named : ∀ attr ∈ attrs, attr.attrName ≠ []) (whole : status = .ok → ∀ attr ∈ attrs, attr.Short) :
      Kept relation (some (attrs, status)) (describe relation 0 (storable attrs))

namespace Kept
variable {relation : Name} {given : Option (List AttrInfo × Status)} {rows : List AttrDesc}

theorem distinct (kept : Kept relation given rows) : (rows.map AttrDesc.attrName).Nodup := by
  cases kept with
  | none => exact List.nodup_nil
  | refused => exact List.nodup_nil
  | entered distinct width named whole =>
    rw [describe_names]
    exact distinct.sublist ((storable_isInit _).sublist.map _)

theorem rows_of_ok {attrs : List AttrInfo} (kept : Kept relation (some (attrs, .ok)) rows) :
    rows = describe relation 0 attrs := by
  cases kept with
  | refused failed => exact absurd rfl failed
  | entered distinct width named whole => rw [storable_of_short (whole rfl)]

theorem named (kept : Kept relation given rows) : ∀ d ∈ rows, d.attrName ≠ [] := by
  cases kept with
  | none => simp
  | refused => simp
  | entered distinct width named whole =>
    intro d member
    have name := List.mem_map_of_mem (f := AttrDesc.attrName) member
    rw [describe_names] at name
    obtain ⟨attr, member', same⟩ := List.mem_map.mp name
    rw [← same]
    exact named attr ((storable_isInit _).subset member')

end Kept

/-- The attributes in their order, all of them if the call succeeded, and each
behind the ones before it. -/
structure LaidOut (given : Option (List AttrInfo × Status)) (rows : List AttrDesc) : Prop where
  none : given = none → rows = []
  order : ∀ attrs status, given = some (attrs, status) →
    List.Forall₂ AttrDesc.Describes rows (attrs.take rows.length) ∧
      (status = .ok → rows.length = attrs.length)
  offset : ∀ front d back, rows = front ++ d :: back →
    d.attrOffset = int (front.map AttrDesc.attrLen).sum
  exact : (∀ attrs status, given = some (attrs, status) → Measured attrs) →
    ∀ front d back, rows = front ++ d :: back → d.attrOffset = (front.map AttrDesc.attrLen).sum

theorem Kept.laidOut {relation : Name} {given : Option (List AttrInfo × Status)}
    {rows : List AttrDesc} (kept : Kept relation given rows) : LaidOut given rows := by
  cases kept with
  | none => refine ⟨?_, ?_, ?_, ?_⟩ <;> simp
  | refused failed =>
    refine ⟨by simp, ?_, by simp, by simp⟩
    rintro attrs status ⟨⟩
    exact ⟨by simp, fun ok => absurd ok failed⟩
  | @entered attrs status distinct width named whole =>
    have length : (describe relation 0 (storable attrs)).length = (storable attrs).length :=
      (describe_describes ..).length_eq
    refine ⟨by simp, ?_, ?_, ?_⟩
    · rintro _ _ ⟨⟩
      constructor
      · rw [length, ← List.prefix_iff_eq_take.mp (storable_isInit attrs)]
        exact describe_describes ..
      · intro ok
        rw [length, storable_of_short (whole ok)]
    · intro front d back split
      simpa using describe_offset (show int 0 = 0 from rfl) split
    · intro measured front d back split
      exact describe_offset_exact (measured attrs status rfl) width split

/-! One call keeps it. -/

section step
variable {st : Flat} {db : Database} {history : History} {relation name : Name}
    {attrList : List AttrInfo}
  {status : Status}

theorem given_createRel (answer : status ≠ .relExists ∧ status ≠ .badCatParm) :
    History.given ((.createRel name attrList, status) :: history) name = some (attrList, status) :=
  if_pos ⟨rfl, answer⟩

theorem given_createRel_refused (answer : status = .relExists ∨ status = .badCatParm) :
    History.given ((.createRel name attrList, status) :: history) name = history.given name :=
  if_neg fun h => answer.elim h.2.1 h.2.2

theorem given_destroyRel (answer : status ≠ .relNotFound ∧ status ≠ .badCatParm) :
    History.given ((.destroyRel name, status) :: history) name = none :=
  if_pos ⟨rfl, answer⟩

theorem given_destroyRel_refused (answer : status = .relNotFound ∨ status = .badCatParm) :
    History.given ((.destroyRel name, status) :: history) name = history.given name :=
  if_neg fun h => answer.elim h.2.1 h.2.2

theorem kept_createRel (real : Realizes st db)
    (kept : ∀ name, Kept name (history.given name) (db.rows name))
    (named : ∀ attr ∈ attrList, attr.attrName ≠ []) (name : Name) :
    Kept name (History.given
      ((.createRel relation attrList, (db.createRel relation attrList).1) :: history) name)
        ((db.createRel relation attrList).2.rows name) := by
  by_cases same : name = relation
  swap
  · rw [(db.createRel_others attrList same).2]
    simpa only [History.given, same, false_and, if_false] using kept name
  subst same
  have outcome := db.createRel_cases name attrList
  generalize db.createRel name attrList = result at outcome
  -- the rows of an accepted relation, whatever becomes of its file
  have entered (status : Status) (accepted : db.Acceptable name attrList)
      (answer : status ≠ .relExists ∧ status ≠ .badCatParm)
      (whole : status = .ok → ∀ attr ∈ attrList, attr.Short) :
      Kept name (History.given ((.createRel name attrList, status) :: history) name)
        ((db.entered name attrList).rows name) := by
    rw [given_createRel answer, Database.entered, Database.rows_enter, Function.update_self]
    exact .entered accepted.distinct accepted.width named whole
  cases outcome with
  | refused refused =>
    have failed (status : Status) (answer : status ≠ .relExists ∧ status ≠ .badCatParm ∧ status ≠ .ok)
        (none : db.rows name = []) :
        Kept name (History.given ((.createRel name attrList, status) :: history) name)
          (db.rows name) := by
      rw [given_createRel ⟨answer.1, answer.2.1⟩, none]
      exact .refused answer.2.2
    rcases Database.refusal_cases refused with rfl | rfl | ⟨rfl, long⟩ | ⟨rfl | rfl, unlisted⟩
    · exact (given_createRel_refused (.inr rfl)).symm ▸ kept name
    · exact (given_createRel_refused (.inl rfl)).symm ▸ kept name
    · exact failed .nameTooLong (by decide) (real.catalogs.rows_eq_nil long)
    · exact failed .duplAttr (by decide) (db.described name unlisted)
    · exact failed .attrTooLong (by decide) (db.described name unlisted)
  | stopped accepted long => exact entered .nameTooLong accepted (by decide) (by simp)
  | known accepted short => exact entered .fileExists accepted (by decide) (by simp)
  | uncreatable accepted short => exact entered .unixErr accepted (by decide) (by simp)
  | created accepted short => exact entered .ok accepted (by decide) (fun _ => short)

theorem kept_destroyRel (kept : ∀ name, Kept name (history.given name) (db.rows name))
    (name : Name) :
    Kept name (History.given ((.destroyRel relation, (db.destroyRel relation).1) :: history) name)
      ((db.destroyRel relation).2.rows name) := by
  by_cases same : name = relation
  swap
  · rw [(db.destroyRel_others same).2]
    simpa only [History.given, same, false_and, if_false] using kept name
  subst same
  have outcome := db.destroyRel_cases name
  generalize db.destroyRel name = result at outcome
  have removed (status : Status) (user : UserName name)
    (answer : status ≠ .relNotFound ∧ status ≠ .badCatParm) :
      Kept name (History.given ((.destroyRel name, status) :: history) name)
        ((db.remove name user).rows name) := by
    rw [given_destroyRel answer, Database.rows_remove, Function.update_self]
    exact .none
  cases outcome with
  | refused own => exact (given_destroyRel_refused (.inr rfl)).symm ▸ kept name
  | unknown none => exact (given_destroyRel_refused (.inl rfl)).symm ▸ kept name
  | stopped _ user nameless =>
    obtain ⟨d, member, empty⟩ := nameless
    exact absurd empty ((kept name).named d member)
  | left _ user described named cause =>
    rcases cause with ⟨rfl, _⟩ | ⟨rfl, _⟩
    · exact removed .fileOpen user (by decide)
    · exact removed .unixErr user (by decide)
  | destroyed user described named unopened there => exact removed .ok user (by decide)

end step

theorem kept_initial (st : Flat) (name : Name) :
    Kept name (History.given [] name) ((Database.initial st).rows name) := by
  simp only [History.given, ownAttrs, Database.initial]
  split
  next same =>
    subst same
    have rows : relCatAttrs = describe relCatName 0 (storable (relCatAttrs.map AttrDesc.info)) :=
      by decide
    rw [rows]
    exact .entered (by decide) (by decide) (by decide) (fun _ => by decide)
  next =>
    split
    next same =>
      subst same
      have rows : attrCatAttrs =
        describe attrCatName 0 (storable (attrCatAttrs.map AttrDesc.info)) := by decide
      rw [rows]
      exact .entered (by decide) (by decide) (by decide) (fun _ => by decide)
    next => exact .none

theorem pairs_nodup {rows : List (RID × AttrDesc)}
    (distinct : ∀ relation, ((ofRelation relation rows).map fun r => r.2.attrName).Nodup) :
    (rows.map fun r => (r.2.relName, r.2.attrName)).Nodup := by
  rw [List.Nodup, List.pairwise_map, List.pairwise_iff_forall_sublist]
  intro a b sub same
  obtain ⟨relName, attrName⟩ := Prod.mk.inj same
  have kept : List.Sublist [a, b] (ofRelation a.2.relName rows) := by
    have both : ofRelation a.2.relName [a, b] = [a, b] := by simp [ofRelation, relName]
    rw [← both]
    exact sub.filter _
  have apart := (distinct a.2.relName).sublist (kept.map fun r => r.2.attrName)
  simp [attrName] at apart

def NamedAttrs (_ : Flat) : RelCall → Prop
  | .createRel _ attrList => ∀ attr ∈ attrList, attr.attrName ≠ []
  | .destroyRel _ => True

theorem kept_call {st : Flat} {db : Database} {history : History} {c : RelCall}
    (real : Realizes st db) (kept : ∀ name, Kept name (history.given name) (db.rows name))
    (named : NamedAttrs st c) (name : Name) :
    Kept name (History.given ((c, (c.apply db).1) :: history) name) ((c.apply db).2.rows name) := by
  cases c with
  | createRel relation attrList => exact kept_createRel real kept named name
  | destroyRel relation => exact kept_destroyRel kept name

namespace Recorded

/-- Over any history of calls the catalogs have one row per relation and one per
attribute, and list the attributes of every relation as it was given them. -/
theorem catalog_layout {r : Recorded} (reached : Reachable Created (Step NamedAttrs) r) :
    (∃ rows, Table r.storage relCatName RelDesc.bytes rows ∧
      (rows.map fun row => row.2.relName).Nodup) ∧
    (∃ rows, Table r.storage attrCatName AttrDesc.bytes rows ∧
      (rows.map fun row => (row.2.relName, row.2.attrName)).Nodup) ∧
    ∀ relation, 0 ∉ relation → relation ≠ [] → ∃ rows,
      Program.Returns Flat.handle (AttrCatalog.getRelInfo · relation) r.storage
        (if rows = [] then .error .relNotFound else .ok rows, r.storage) ∧
      LaidOut (r.history.given relation) rows := by
  obtain ⟨db, real, kept⟩ :=
    realizes (fun db history => ∀ name, Kept name (history.given name) (db.rows name))
    kept_initial (fun _ _ _ _ real kept _ => kept_call real kept) (fun _ _ _ kept => kept) reached
  refine ⟨?_, ?_, fun relation terminated named => ?_⟩
  · obtain ⟨rows, table, _, lists⟩ := real.catalogs.rels
    exact ⟨rows, table, by simpa only [List.map_map, Function.comp_def] using lists.distinct⟩
  · obtain ⟨rows, table, _, listed⟩ := real.catalogs.attrs
    refine ⟨rows, table, pairs_nodup fun relation => ?_⟩
    have distinct := (kept relation).distinct
    rwa [← listed relation, List.map_map] at distinct
  · exact ⟨db.rows relation, AttrCatalog.getRelInfo_spec real.catalogs terminated named,
      (kept relation).laidOut⟩

/-- The second of two attributes starts behind the first. -/
theorem catalog_layout_two :
    let attrs : List AttrInfo :=
      [⟨chars "r", chars "a", 1, 4, none⟩, ⟨chars "r", chars "b", 0, 8, none⟩]
    ∃ st rows, Reachable Created (Step NamedAttrs) ⟨st, [(.createRel (chars "r") attrs, .ok)]⟩ ∧
      Program.Returns Flat.handle (AttrCatalog.getRelInfo · (chars "r")) st (.ok rows, st) ∧
      rows.map (fun d => (d.attrName, d.attrOffset, d.attrLen)) =
        [(chars "a", 0, 4), (chars "b", 4, 8)] := by
  intro attrs
  have run : ∃ st, Reachable Created (Step NamedAttrs) ⟨st, [(.createRel (chars "r") attrs, .ok)]⟩ :=
    exists_createRel (chars "r") attrs (by decide) ⟨by decide, by decide, by decide⟩
      (fun _ _ _ _ _ => show ∀ attr ∈ attrs, attr.attrName ≠ [] by decide)
      (fun _ => ⟨by decide, by decide, by decide, rfl, by decide, by decide⟩) (by decide)
  obtain ⟨st, reached⟩ := run
  obtain ⟨_, _, layout⟩ := catalog_layout reached
  obtain ⟨rows, returns, laid⟩ := layout (chars "r") (by decide) (by decide)
  have given : History.given [(.createRel (chars "r") attrs, .ok)] (chars "r") =
    some (attrs, .ok) := rfl
  obtain ⟨order, whole⟩ := laid.order attrs .ok given
  have exact := laid.exact fun attrs' status' same => by
    cases given.symm.trans same
    exact ⟨by decide, by decide⟩
  rw [whole rfl] at order
  obtain ⟨first, second, rfl⟩ := List.length_eq_two.mp (whole rfl)
  obtain ⟨name₁, _, len₁⟩ : first.Describes ⟨chars "r", chars "a", 1, 4, none⟩ := by
    cases order; assumption
  obtain ⟨name₂, _, len₂⟩ : second.Describes ⟨chars "r", chars "b", 0, 8, none⟩ := by
    cases order with
    | cons _ rest => cases rest; assumption
  have offset₁ := exact [] first [second] rfl
  have offset₂ := exact [first] second [] rfl
  refine ⟨st, _, reached, returns, ?_⟩
  simp only [List.map_cons, List.map_nil, List.sum_cons, List.sum_nil, len₁] at offset₁ offset₂
  simp only [List.map_cons, List.map_nil, name₁, name₂, len₁, len₂, offset₁, offset₂]
  rfl

end Recorded
end Minirel
