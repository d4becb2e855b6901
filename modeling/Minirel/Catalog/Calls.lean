import Minirel.Catalog.Rows
import Minirel.HeapFile.Table
import Minirel.Lib.Listing

/-! What the calls on the catalogs do, in terms of the two maps the catalogs
stand for: the number of attributes of a relation, and its attributes in the
order of the file. -/
namespace Minirel
open Program

structure Catalog where
  rel : Name → Option Int
  rows : Name → List AttrDesc

def Catalog.setRel (cat : Catalog) (relation : Name) (attrCnt : Option Int) : Catalog :=
  { cat with rel := Function.update cat.rel relation attrCnt }

def Catalog.setRows (cat : Catalog) (relation : Name) (rows : List AttrDesc) : Catalog :=
  { cat with rows := Function.update cat.rows relation rows }

@[simp] theorem Catalog.rows_setRows (cat : Catalog) (relation : Name) (rows : List AttrDesc) :
    (cat.setRows relation rows).rows relation = rows := Function.update_self ..

theorem Catalog.rows_setRows_of_ne {cat : Catalog} {relation other : Name} {rows : List AttrDesc}
    (apart : other ≠ relation) : (cat.setRows relation rows).rows other = cat.rows other :=
  Function.update_of_ne apart ..

theorem Catalog.setRows_self {cat : Catalog} {relation : Name} {rows : List AttrDesc}
    (same : cat.rows relation = rows) : cat.setRows relation rows = cat := by
  rw [Catalog.setRows, ← same, Function.update_eq_self]

@[simp] theorem Catalog.setRows_setRows (cat : Catalog) (relation : Name)
    (rows rows' : List AttrDesc) :
    (cat.setRows relation rows).setRows relation rows' = cat.setRows relation rows' := by
  simp [Catalog.setRows]

def ofRelation (relation : Name) (rows : List (RID × AttrDesc)) : List (RID × AttrDesc) :=
  rows.filter fun r => r.2.relName = relation

@[simp] theorem ofRelation_append (relation : Name) (front back : List (RID × AttrDesc)) :
    ofRelation relation (front ++ back) = ofRelation relation front ++ ofRelation relation back :=
  List.filter_append ..

theorem ofRelation_middle_ne {relation : Name} {front back : List (RID × AttrDesc)}
    {r : RID × AttrDesc} (apart : r.2.relName ≠ relation) :
    ofRelation relation (front ++ r :: back) = ofRelation relation (front ++ back) := by
  simp [ofRelation, apart]

/-- The catalog files hold valid descriptors and stand for the two maps; no
relation has two rows in `relcat`. -/
structure Represents (st : Flat) (cat : Catalog) : Prop where
  rels : ∃ rows, Table st relCatName RelDesc.bytes rows ∧ (∀ r ∈ rows, r.2.Valid) ∧
    Enumerates (rows.map fun r => (r.2.relName, r.2.attrCnt)) cat.rel
  attrs : ∃ rows, Table st attrCatName AttrDesc.bytes rows ∧ (∀ r ∈ rows, r.2.Valid) ∧
    ∀ relation, (ofRelation relation rows).map Prod.snd = cat.rows relation

variable {st st' : Flat} {cat : Catalog} {relation : Name}

theorem Represents.congr (rep : Represents st cat)
    (rels : st'.files relCatName = st.files relCatName)
    (attrs : st'.files attrCatName = st.files attrCatName) : Represents st' cat := by
  obtain ⟨⟨rows, table, rest⟩, rows', table', rest'⟩ := rep
  exact ⟨⟨rows, table.congr rels, rest⟩, rows', table'.congr attrs, rest'⟩

theorem relCatName_named : relCatName ≠ [] := by decide

theorem attrCatName_named : attrCatName ≠ [] := by decide

theorem catNames_ne : relCatName ≠ attrCatName := by decide

section lookup
variable {α : Type} {enc : α → List UInt8} {file : Name} {rows : List (RID × α)}

/-- The scan returns the rows of the relation. -/
theorem openLookup_spec (key : α → Name) (table : Table st file enc rows) (named : file ≠ [])
    (hit : ∀ r ∈ rows, (byRelation relation).matchRec (enc r.2) = decide (key r.2 = relation)) :
    ∃ s, Flat.run (openLookup file relation) st = some (.ok s, st.opened file) ∧
      Cursor s (st.opened file) file enc rows (rows.filter fun r => key r.2 = relation) := by
  have accepted : (byRelation relation).accepted = true := by
    simp [byRelation, Filter.accepted]
  obtain ⟨s, new, fresh, cursor⟩ := table.open named
  obtain ⟨t, start, cursor'⟩ := cursor.startScan fresh accepted
  rw [List.filter_congr hit] at cursor'
  refine ⟨t, ?_, cursor'⟩
  rw [openLookup, Flat.run, run_bind_of _ _ new]
  simp only [start]
  rfl

theorem addRecord_spec {front back : List (RID × α)} {a : α}
    (table : TableAt st file enc front back) (named : file ≠ []) (nonempty : 0 < (enc a).length)
    (small : (enc a).length ≤ 1000) :
    ∃ rid g mid rest, Flat.run (addRecord file (enc a)) st = some (.ok, st.put file g) ∧
      back = mid ++ rest ∧ TableAt (st.put file g) file enc (front ++ mid ++ [(rid, a)]) rest := by
  obtain ⟨h, rid, h', g, new, insert, close, mid, rest, split, table'⟩ :=
    table.insert named nonempty small
  refine ⟨rid, g, mid, rest, ?_, split, table'⟩
  rw [addRecord, Flat.run, run_bind_of _ _ new]
  simp only
  rw [run_bind_of _ _ insert]
  simp only
  rw [run_bind_of _ _ close]
  rfl

end lookup

section rels
variable {rows : List (RID × RelDesc)}

theorem rel_lookup (lists : Enumerates (rows.map fun r => (r.2.relName, r.2.attrCnt)) cat.rel) :
    (rows.filter (fun r => r.2.relName = relation) = [] ∧ cat.rel relation = none) ∨
    ∃ rid n, (rid, RelDesc.mk relation n) ∈ rows ∧
      rows.filter (fun r => r.2.relName = relation) = [(rid, ⟨relation, n⟩)] ∧
        cat.rel relation = some n := by
  have distinct : (rows.map fun r => r.2.relName).Nodup := by
    simpa only [List.map_map, Function.comp_def] using lists.distinct
  have named : ∀ r ∈ rows.filter (fun r => r.2.relName = relation), r ∈ rows ∧
      r.2.relName = relation := by
    intro r member
    simpa using List.mem_filter.mp member
  cases split : rows.filter (fun r => r.2.relName = relation) with
  | nil =>
    refine Or.inl ⟨rfl, lists.eq_none_iff.mpr fun listed => ?_⟩
    rw [List.map_map] at listed
    obtain ⟨r, member, name⟩ := List.mem_map.mp listed
    have kept : r ∈ rows.filter (fun r => r.2.relName = relation) :=
      List.mem_filter.mpr ⟨member, decide_eq_true name⟩
    rw [split] at kept
    cases kept
  | cons r rest =>
    rw [split] at named
    obtain ⟨member, name⟩ := named r List.mem_cons_self
    have sub := distinct.sublist ((List.filter_sublist (p := fun r => r.2.relName = relation)).map _)
    rw [split, List.map_cons, List.nodup_cons] at sub
    cases rest with
    | nil =>
      obtain ⟨rid, ⟨_, n⟩⟩ := r
      cases name
      exact Or.inr ⟨rid, n, member, rfl, (lists.mem_iff _ n).mpr (List.mem_map.mpr ⟨_, member, rfl⟩)⟩
    | cons r' rest =>
      have name' := (named r' (List.mem_cons_of_mem _ List.mem_cons_self)).2
      exact absurd (List.mem_map.mpr ⟨r', List.mem_cons_self, name'.trans name.symm⟩) sub.1

end rels

namespace RelCatalog

theorem getInfo_spec (rep : Represents st cat) (terminated : 0 ∉ relation) (named : relation ≠ []) :
    Returns Flat.handle (getInfo · relation) st
      ((match cat.rel relation with
        | some n => .ok ⟨relation, n⟩
        | none => .error .relNotFound), st) := by
  obtain ⟨rows, table, valid, lists⟩ := rep.rels
  obtain ⟨s, start, cursor⟩ := openLookup_spec RelDesc.relName table relCatName_named
    (fun r member => byRelation_matchRec (valid r member).relName terminated _)
  simp only [getInfo, named, if_false]
  refine .after start ?_
  rcases rel_lookup lists with ⟨none, missing⟩ | ⟨rid, n, listed, one, found⟩
  · rw [none] at cursor
    obtain ⟨t, next, cursor'⟩ := cursor.eof
    obtain ⟨u, ended, closed⟩ := cursor'.end_delete
    rw [missing]
    exact .bind next (.after ended (.after closed (.of_run rfl)))
  · rw [one] at cursor
    obtain ⟨t, next, on⟩ := cursor.next
    obtain ⟨u, ended, closed⟩ := on.cursor.end_delete
    have size := (valid _ listed).bytes_length
    refine .bind next (.after on.getRecord ?_)
    simp only [size, ne_eq, not_true_eq_false, if_false, found]
    refine .after ended (.after closed (.of_run ?_))
    simp only [(valid _ listed).ofBytes_bytes]
    rfl

/-- A row for a relation that has none. -/
theorem addInfo_spec {d : RelDesc} (rep : Represents st cat) (valid : d.Valid)
    (new : cat.rel d.relName = none) :
    ∃ g, Flat.run (addInfo d) st = some (.ok, st.put relCatName g) ∧
      Represents (st.put relCatName g) (cat.setRel d.relName (some d.attrCnt)) := by
  obtain ⟨⟨rows, table, valids, lists⟩, attrs⟩ := rep
  have size : d.bytes.length = 36 := valid.bytes_length
  obtain ⟨rid, g, mid, rest, run, rfl, table'⟩ :=
    addRecord_spec (a := d) table.at relCatName_named (by omega) (by omega)
  refine ⟨g, run, ⟨_, table'.table, ?_, ?_⟩, ?_⟩
  · intro r member
    simp only [List.nil_append, List.append_assoc, List.mem_append, List.mem_cons, List.not_mem_nil,
      or_false] at member
    rcases member with h | rfl | h
    · exact valids r (by simp [h])
    · exact valid
    · exact valids r (by simp [h])
  · rw [List.map_append] at lists
    have joined := lists.insert (b := d.attrCnt)
      (Enumerates.distinct_middle.mpr ⟨lists.eq_none_iff.mp new, lists.distinct⟩)
    simpa [Catalog.setRel] using joined
  · obtain ⟨rows', table'', rest'⟩ := attrs
    exact ⟨rows', table''.congr (Flat.files_put_of_ne _ catNames_ne.symm), rest'⟩

theorem removeInfo_some (rep : Represents st cat) (terminated : 0 ∉ relation)
    (named : relation ≠ []) (present : cat.rel relation ≠ none) :
    ∃ g, Returns Flat.handle (removeInfo · relation) st (.ok, st.put relCatName g) ∧
      Represents (st.put relCatName g) (cat.setRel relation none) := by
  obtain ⟨⟨rows, table, valid, lists⟩, attrs⟩ := rep
  obtain ⟨s, start, cursor⟩ := openLookup_spec RelDesc.relName table relCatName_named
    (fun r member => byRelation_matchRec (valid r member).relName terminated _)
  simp only [removeInfo, named, if_false]
  rcases rel_lookup lists with ⟨_, missing⟩ | ⟨rid, n, listed, one, found⟩
  · exact absurd missing present
  · rw [one] at cursor
    obtain ⟨t, next, on⟩ := cursor.next
    obtain ⟨u, g, front, back, removed, rfl, cursor'⟩ := on.deleteRecord listed
    rw [← Flat.opened_put] at removed cursor'
    refine ⟨g, .after start (.bind next (.after removed (.after cursor'.delete (.of_run rfl)))),
      ⟨front ++ back, ?_, ?_, ?_⟩, ?_⟩
    · exact cursor'.table.congr rfl
    · intro r member
      exact valid r (by simp only [List.mem_append, List.mem_cons] at member ⊢; tauto)
    · rw [List.map_append, List.map_cons] at lists
      rw [List.map_append]
      exact lists.remove
    · obtain ⟨rows', table'', rest'⟩ := attrs
      exact ⟨rows', table''.congr (Flat.files_put_of_ne _ catNames_ne.symm), rest'⟩

end RelCatalog

namespace AttrCatalog
variable {s : HeapFileScan} {file attrName : Name} {rows todo front back : List (RID × AttrDesc)}
  {r : RID × AttrDesc}

theorem collect_spec (cursor : Cursor s st file AttrDesc.bytes rows todo)
    (valid : ∀ r ∈ todo, r.2.Valid) :
    ∃ t, Returns Flat.handle (collect · s) st (.ok (.fileEof, todo.map Prod.snd, t), st) ∧
      Cursor t st file AttrDesc.bytes rows [] := by
  induction todo generalizing s with
  | nil =>
    obtain ⟨t, next, cursor'⟩ := cursor.eof
    exact ⟨t, .round (.bind next (.of_run rfl)) (fun _ => rfl), cursor'⟩
  | cons r todo ih =>
    obtain ⟨validR, validRest⟩ := List.forall_mem_cons.mp valid
    obtain ⟨t, next, on⟩ := cursor.next
    obtain ⟨u, rest, cursor'⟩ := ih on.cursor validRest
    refine ⟨u, .round (.bind next (.after on.getRecord ?_)) (fun _ => rfl), cursor'⟩
    simp only [validR.bytes_length, ne_eq, not_true_eq_false, if_false]
    refine .bind rest (.of_run ?_)
    rw [validR.ofBytes_bytes]
    rfl

theorem search_round (attrName : Name) (cursor : Cursor s st file AttrDesc.bytes rows (r :: todo))
    (valid : r.2.Valid) :
    ∃ t, CursorOn t st file AttrDesc.bytes rows r todo ∧ ∀ result,
      Returns Flat.handle (fun fuel => if r.2.attrName = attrName then pure (.found r.2 t)
        else search attrName fuel t) st result →
      Returns Flat.handle (search attrName · s) st result := by
  obtain ⟨t, next, on⟩ := cursor.next
  refine ⟨t, on, fun result rest => .round (.bind next (.after on.getRecord ?_)) (fun _ => rfl)⟩
  simp only [valid.bytes_length, ne_eq, not_true_eq_false, if_false, valid.ofBytes_bytes]
  exact rest

theorem search_none (cursor : Cursor s st file AttrDesc.bytes rows todo)
    (valid : ∀ r ∈ todo, r.2.Valid) (apart : ∀ r ∈ todo, r.2.attrName ≠ attrName) :
    ∃ t, Returns Flat.handle (search attrName · s) st (.ended .fileEof t, st) ∧
      Cursor t st file AttrDesc.bytes rows [] := by
  induction todo generalizing s with
  | nil =>
    obtain ⟨t, next, cursor'⟩ := cursor.eof
    exact ⟨t, .round (.bind next (.of_run rfl)) (fun _ => rfl), cursor'⟩
  | cons r todo ih =>
    obtain ⟨validR, validRest⟩ := List.forall_mem_cons.mp valid
    obtain ⟨apartR, apartRest⟩ := List.forall_mem_cons.mp apart
    obtain ⟨t, on, round⟩ := search_round attrName cursor validR
    obtain ⟨u, run, cursor'⟩ := ih on.cursor validRest apartRest
    refine ⟨u, round _ ?_, cursor'⟩
    simp only [apartR, if_false]
    exact run

theorem search_found (cursor : Cursor s st file AttrDesc.bytes rows (front ++ r :: todo))
    (valid : ∀ q ∈ front ++ r :: todo, q.2.Valid) (apart : ∀ q ∈ front, q.2.attrName ≠ attrName)
    (same : r.2.attrName = attrName) :
    ∃ t, Returns Flat.handle (search attrName · s) st (.found r.2 t, st) ∧
      CursorOn t st file AttrDesc.bytes rows r todo := by
  induction front generalizing s with
  | nil =>
    obtain ⟨t, on, round⟩ := search_round attrName cursor (valid r List.mem_cons_self)
    refine ⟨t, round _ ?_, on⟩
    simp only [same, if_true]
    exact .of_run rfl
  | cons q front ih =>
    rw [List.cons_append, List.forall_mem_cons] at valid
    obtain ⟨validQ, validRest⟩ := valid
    obtain ⟨apartQ, apartRest⟩ := List.forall_mem_cons.mp apart
    obtain ⟨t, on, round⟩ := search_round attrName cursor validQ
    obtain ⟨u, run, on'⟩ := ih on.cursor validRest apartRest
    refine ⟨u, round _ ?_, on'⟩
    simp only [apartQ, if_false]
    exact run

theorem openLookup_attrs (table : Table st attrCatName AttrDesc.bytes rows)
    (valid : ∀ r ∈ rows, r.2.Valid) (terminated : 0 ∉ relation) :
    ∃ s, Flat.run (openLookup attrCatName relation) st = some (.ok s, st.opened attrCatName) ∧
      Cursor s (st.opened attrCatName) attrCatName AttrDesc.bytes rows (ofRelation relation rows) :=
  openLookup_spec AttrDesc.relName table attrCatName_named
    (fun r member => byRelation_matchRec (valid r member).relName terminated _)

theorem valid_ofRelation (valid : ∀ r ∈ rows, r.2.Valid) : ∀ r ∈ ofRelation relation rows,
    r.2.Valid :=
  fun r member => valid r (List.mem_of_mem_filter member)

/-- The rows of a relation in the order of the file. -/
theorem getRelInfo_spec (rep : Represents st cat) (terminated : 0 ∉ relation)
    (named : relation ≠ []) :
    Returns Flat.handle (getRelInfo · relation) st
      (if cat.rows relation = [] then .error .relNotFound else .ok (cat.rows relation), st) := by
  obtain ⟨rows, table, valid, listed⟩ := rep.attrs
  obtain ⟨s, start, cursor⟩ := openLookup_attrs table valid terminated
  obtain ⟨t, collected, cursor'⟩ := collect_spec cursor (valid_ofRelation valid)
  obtain ⟨u, ended, closed⟩ := cursor'.end_delete
  simp only [getRelInfo, named, if_false]
  refine .after start (.bind collected (.after ended (.after closed (.of_run ?_))))
  simp only [ne_eq, not_true_eq_false, if_false, listed]
  split <;> rfl

theorem getInfo_spec (rep : Represents st cat) (terminated : 0 ∉ relation) (named : relation ≠ [])
    (attrNamed : attrName ≠ []) :
    Returns Flat.handle (getInfo · relation attrName) st
      ((match (cat.rows relation).find? (fun d => d.attrName = attrName) with
        | some d => .ok d
        | none => .error .attrNotFound), st) := by
  obtain ⟨rows, table, valid, listed⟩ := rep.attrs
  obtain ⟨s, start, cursor⟩ := openLookup_attrs table valid terminated
  have valids : ∀ r ∈ ofRelation relation rows, r.2.Valid := valid_ofRelation valid
  simp only [getInfo, named, attrNamed, or_self, if_false]
  refine .after start ?_
  cases sought : (cat.rows relation).find? (fun d => d.attrName = attrName) with
  | none =>
    rw [← listed, List.find?_eq_none, List.forall_mem_map] at sought
    obtain ⟨t, ended, cursor'⟩ :=
      search_none cursor valids (fun r member => by simpa using sought r member)
    obtain ⟨u, endScan, closed⟩ := cursor'.end_delete
    exact .bind ended (.after endScan (.after closed (.of_run rfl)))
  | some d =>
    obtain ⟨same, before, after, split, apart⟩ := List.find?_eq_some_iff_append.mp sought
    rw [← listed] at split
    obtain ⟨front, rest, parts, rfl, tail⟩ := List.map_eq_append_iff.mp split
    obtain ⟨r, back, rfl, rfl, rfl⟩ := List.map_eq_cons_iff.mp tail
    rw [parts] at cursor valids
    obtain ⟨t, found, on⟩ := search_found cursor valids
      (fun q member => by simpa using apart q.2 (List.mem_map_of_mem member)) (by simpa using same)
    obtain ⟨u, endScan, closed⟩ := on.cursor.end_delete
    exact .bind found (.after endScan (.after closed (.of_run rfl)))

theorem removeInfo_nameless (st : Flat) (relation : Name) :
    Returns Flat.handle (removeInfo · relation []) st (.badCatParm, st) :=
  ⟨0, fun _ _ => by simp only [removeInfo, or_true, if_true]; rfl⟩

/-- The first row of that attribute goes, and the others stay in order. -/
theorem removeInfo_spec {d : AttrDesc} {before after : List AttrDesc} (rep : Represents st cat)
    (terminated : 0 ∉ relation) (named : relation ≠ []) (attrNamed : d.attrName ≠ [])
    (split : cat.rows relation = before ++ d :: after)
    (apart : ∀ a ∈ before, a.attrName ≠ d.attrName) :
    ∃ g, Returns Flat.handle (removeInfo · relation d.attrName) st (.ok, st.put attrCatName g) ∧
      Represents (st.put attrCatName g) (cat.setRows relation (before ++ after)) := by
  obtain ⟨rels, rows, table, valid, listed⟩ := rep
  obtain ⟨s, start, cursor⟩ := openLookup_attrs table valid terminated
  have rowsOf := listed relation
  rw [split] at rowsOf
  obtain ⟨front, rest, parts, rfl, tail⟩ := List.map_eq_append_iff.mp rowsOf
  obtain ⟨r, back, rfl, rfl, rfl⟩ := List.map_eq_cons_iff.mp tail
  rw [parts] at cursor
  have valids : ∀ q ∈ ofRelation relation rows, q.2.Valid := valid_ofRelation valid
  rw [parts] at valids
  obtain ⟨t, found, on⟩ := search_found cursor valids
    (fun q member => apart q.2 (List.mem_map_of_mem member)) rfl
  have kept : r ∈ ofRelation relation rows := by rw [parts]; simp
  obtain ⟨member, ofName⟩ := List.mem_filter.mp kept
  obtain ⟨u, g, front', back', removed, rfl, cursor'⟩ := on.deleteRecord member
  rw [← Flat.opened_put] at removed cursor'
  obtain ⟨v, ended, closed⟩ := cursor'.end_delete
  simp only [removeInfo, named, attrNamed, or_self, if_false]
  refine ⟨g, .after start
    (.bind found (.after removed (.after ended (.after closed (.of_run rfl))))), ?_, ?_⟩
  · obtain ⟨rows', table', rest'⟩ := rels
    exact ⟨rows', table'.congr (Flat.files_put_of_ne _ catNames_ne), rest'⟩
  · refine ⟨front' ++ back', cursor'.table.congr rfl, ?_, ?_⟩
    · intro q member
      exact valid q (by simp only [List.mem_append, List.mem_cons] at member ⊢; tauto)
    · intro other
      by_cases same : other = relation
      · subst same
        obtain ⟨eqFront, eqBack⟩ := List.filter_split table.distinct.of_map parts
        simp [ofRelation, eqFront, eqBack]
      · have others : r.2.relName ≠ other := fun h => same (h.symm.trans (of_decide_eq_true ofName))
        rw [Catalog.rows_setRows_of_ne same, ← listed other, ofRelation_middle_ne others]

end AttrCatalog
end Minirel
