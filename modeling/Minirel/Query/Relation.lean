import Mathlib.Data.List.Perm.Basic
import Minirel.Catalog.Calls
import Minirel.Lib.Pointwise
import Minirel.Query

/-! Relations as queries see them: attributes that the catalogs describe, and
records of the width that the attributes make up. -/
namespace Minirel

def AttrDesc.total (attrs : List AttrDesc) : Int := (attrs.map AttrDesc.attrLen).sum

structure Relation (st : Flat) (name : Name) (attrs : List AttrDesc) (records : List Entry) :
    Prop where
  named : name ≠ []
  terminated : 0 ∉ name
  described : ∃ cat, Represents st cat ∧ cat.rows name = attrs
  distinct : (attrs.map AttrDesc.attrName).Nodup
  placed : ∀ d ∈ attrs, 0 ≤ d.attrOffset ∧ 1 ≤ d.attrLen ∧
    d.attrOffset + d.attrLen ≤ AttrDesc.total attrs
  table : Table st name id records
  width : ∀ r ∈ records, (r.2.length : Int) = AttrDesc.total attrs

/-- The fields of some attributes of a record, one behind the other. -/
def projection (source : AttrDesc → List UInt8) (descs : List AttrDesc) : List UInt8 :=
  descs.flatMap fun d => d.field (source d)

variable {st st' : Flat} {name : Name} {attrs descs : List AttrDesc} {records : List Entry}
    {d : AttrDesc}
  {rec : List UInt8} {source : AttrDesc → List UInt8}

theorem Represents.relName {cat : Catalog} (rep : Represents st cat) (listed : d ∈ cat.rows name) :
    d.relName = name := by
  obtain ⟨rows, _, _, rowsOf⟩ := rep.attrs
  rw [← rowsOf, List.mem_map] at listed
  obtain ⟨r, member, rfl⟩ := listed
  exact of_decide_eq_true (List.mem_filter.mp member).2

namespace Relation

theorem relName (relation : Relation st name attrs records) (listed : d ∈ attrs) :
    d.relName = name := by
  obtain ⟨cat, rep, rfl⟩ := relation.described
  exact rep.relName listed

theorem inside (relation : Relation st name attrs records) (listed : d ∈ attrs) {r : Entry}
    (member : r ∈ records) :
    d.Inside r.2 := by
  obtain ⟨low, length, high⟩ := relation.placed d listed
  have width := relation.width r member
  exact ⟨low, by omega, by omega⟩

theorem eq_of_name (relation : Relation st name attrs records) {d' : AttrDesc} (listed : d ∈ attrs)
    (listed' : d' ∈ attrs) (same : d.attrName = d'.attrName) : d = d' :=
  List.inj_on_of_nodup_map relation.distinct listed listed' same

theorem filter_name (relation : Relation st name attrs records) (listed : d ∈ attrs) :
    attrs.filter (fun d' => d'.attrName = d.attrName) = [d] := by
  have same : ∀ d' ∈ attrs, decide (d'.attrName = d.attrName) = decide (d' = d) := fun d' listed' =>
    decide_eq_decide.mpr ⟨relation.eq_of_name listed' listed, fun eq => eq ▸ rfl⟩
  have count : attrs.count d = 1 := List.count_eq_one_of_mem relation.distinct.of_map listed
  rw [List.filter_congr same, List.filter_eq, count]
  rfl

end Relation

/-! Conditions. -/

/-- An attribute that a condition can be about: a string, or a number of four bytes. -/
structure AttrDesc.Comparable (d : AttrDesc) : Prop where
  offset : 0 ≤ d.attrOffset
  length : 1 ≤ d.attrLen
  type : d.attrType = 0 ∨ d.attrLen = 4

/-- A string, or a number of four bytes. -/
structure AttrDesc.Typed (d : AttrDesc) : Prop where
  comparable : d.Comparable
  known : 0 ≤ d.attrType ∧ d.attrType ≤ 2

/-- A column of one of the three types, of some length. -/
structure AttrDesc.Plain (attr : AttrDesc) : Prop where
  type : datatypeOf? attr.attrType = some (datatypeOf attr.attrType)
  length : 0 ≤ attr.attrLen

theorem AttrDesc.Typed.kind (typed : d.Typed) : d.attrType = 0 ∨ (d.attrType = 1 ∨ d.attrType = 2) ∧
    d.attrLen = 4 := by
  have known := typed.known
  have type := typed.comparable.type
  omega

theorem AttrDesc.Typed.plain (typed : d.Typed) : d.Plain := by
  refine ⟨?_, by have := typed.comparable.length; omega⟩
  rcases typed.kind with same | ⟨same | same, _⟩ <;> rw [same] <;> rfl

theorem AttrDesc.Comparable.accepted (comparable : d.Comparable) (value : List UInt8)
    (op : Operator) :
    (d.filter (datatypeOf d.attrType) value op).accepted = true := by
  obtain ⟨offset, length, type⟩ := comparable
  have kind : datatypeOf d.attrType = .string ∨ d.attrLen = 4 :=
    type.imp (fun zero => by simp [datatypeOf, zero]) id
  simp only [AttrDesc.filter, Filter.accepted]
  rcases kind with kind | four
  · simp [kind, not_lt.mpr offset, not_lt.mpr length]
  · simp [four, not_lt.mpr offset]

/-! Copying. -/

theorem AttrDesc.field_length (inside : d.Inside rec) :
    ((d.field rec).length : Int) = d.attrLen := by
  obtain ⟨low, length, high⟩ := inside
  rw [AttrDesc.field, List.length_take, List.length_drop]
  omega

theorem projection_length (inside : ∀ d ∈ descs, d.Inside (source d)) :
    ((projection source descs).length : Int) = AttrDesc.total descs := by
  induction descs with
  | nil => rfl
  | cons d descs ih =>
    rw [List.forall_mem_cons] at inside
    have first := AttrDesc.field_length inside.1
    have rest := ih inside.2
    simp only [projection, AttrDesc.total, List.flatMap_cons, List.length_append, List.map_cons,
      List.sum_cons] at rest ⊢
    omega

theorem projection_congr {source' : AttrDesc → List UInt8}
    (same : ∀ d ∈ descs, source d = source' d) :
    projection source descs = projection source' descs := by
  induction descs with
  | nil => rfl
  | cons d descs ih =>
    rw [List.forall_mem_cons] at same
    have rest := ih same.2
    simp only [projection, List.flatMap_cons] at rest ⊢
    rw [rest, same.1]

theorem copyAttrs_spec (st : Flat) (inside : ∀ d ∈ descs, d.Inside (source d)) :
    Flat.run (copyAttrs source (descs.map some)) st = some (projection source descs, st) := by
  induction descs with
  | nil => rfl
  | cons d descs ih =>
    rw [List.forall_mem_cons] at inside
    rw [List.map_cons, copyAttrs, if_pos inside.1, Flat.run, Program.run_bind_of _ _ (ih inside.2)]
    rfl

theorem output_eq {reclen : Int} (inside : ∀ d ∈ descs, d.Inside (source d))
    (total : reclen = AttrDesc.total descs) :
    (⟨projection source descs, reclen⟩ : Record) = .ofBytes (projection source descs) := by
  rw [Record.ofBytes, projection_length inside, total]

/-! What a query adds to its result. -/

theorem filter_map_contents (p : List UInt8 → Bool) (f : List UInt8 → List UInt8) :
    ((records.filter fun r => p r.2).map fun r => f r.2) = ((records.map Prod.snd).filter p).map
      f := by
  rw [List.filter_map, List.map_map]
  rfl

theorem flatMap_contents {others : List Entry} (p : List UInt8 → List UInt8 → Bool)
    (f : List UInt8 → List UInt8 → List UInt8) :
    (records.flatMap fun o => (others.filter fun i => p o.2 i.2).map fun i => f o.2 i.2) =
      (records.map Prod.snd).flatMap fun o => ((others.map Prod.snd).filter (p o)).map (f o) := by
  rw [List.flatMap_map]
  exact congrArg (records.flatMap ·) (funext fun o => filter_map_contents (p o.2) (f o.2))

/-- A record of each of these contents has joined the others. -/
def Gained (before after : List Entry) (bytes : List (List UInt8)) : Prop :=
  ∃ added : List Entry, after.Perm (before ++ added) ∧ added.map Prod.snd = bytes

namespace Gained
variable {before after last front back : List Entry} {bytes more : List (List UInt8)}

theorem refl (records : List Entry) : Gained records records [] := ⟨[], by simp, rfl⟩

theorem one (rid : RID) (b : List UInt8) : Gained (front ++ back) (front ++ (rid, b) :: back) [b] :=
  ⟨[(rid, b)], List.perm_middle.trans (List.perm_append_singleton ..).symm, rfl⟩

theorem contents (gained : Gained before after bytes) :
    (after.map Prod.snd).Perm (before.map Prod.snd ++ bytes) := by
  obtain ⟨added, perm, rfl⟩ := gained
  simpa using perm.map Prod.snd

theorem trans (first : Gained before after bytes) (second : Gained after last more) :
    Gained before last (bytes ++ more) := by
  obtain ⟨added, perm, rfl⟩ := first
  obtain ⟨added', perm', rfl⟩ := second
  refine ⟨added ++ added', perm'.trans ?_, List.map_append⟩
  rw [← List.append_assoc]
  exact perm.append_right added'

theorem single_unique {b b' : List UInt8} (first : Gained before after [b])
    (second : Gained before after [b']) : b = b' := by
  have same := first.contents.symm.trans second.contents
  rw [List.perm_append_left_iff, List.perm_singleton] at same
  exact List.singleton_inj.mp same

theorem of_perm (gained : Gained before after bytes) (perm : bytes.Perm more) :
    Gained before after more := by
  obtain ⟨added, all, list⟩ := gained
  have contents : List.Forall₂ (fun b (e : Entry) => b = e.2) bytes added := by
    rw [← List.forall₂_map_right_iff, List.forall₂_eq_eq_eq, list]
  obtain ⟨added', contents', perm'⟩ := List.perm_comp_forall₂ perm.symm contents
  rw [← List.forall₂_map_right_iff, List.forall₂_eq_eq_eq] at contents'
  exact ⟨added', all.trans (perm'.symm.append_left before), contents'.symm⟩

end Gained

/-- The output record is inserted into another file. -/
theorem insert_output {h : HeapFile} {result : Name} {results : List Entry} {reclen : Int}
    (inserter : Inserter h st result results) (inside : ∀ d ∈ descs, d.Inside (source d))
    (total : reclen = AttrDesc.total descs) (low : 1 ≤ reclen) (high : reclen ≤ 1000) :
    ∃ rid h' g results',
      Flat.run (InsertFileScan.insertRecord h ⟨projection source descs, reclen⟩) st =
        some ((.ok rid, h'), st.put result g) ∧
      Inserter h' (st.put result g) result results' ∧
        Gained results results' [projection source descs] := by
  have length := projection_length inside
  have nonempty : 0 < (projection source descs).length := by omega
  obtain ⟨rid, h', g, front, back, run, rfl, inserter'⟩ := inserter.insert nonempty (by omega)
  rw [← output_eq inside total] at run
  exact ⟨rid, h', g, _, run, inserter', .one rid _⟩

end Minirel
