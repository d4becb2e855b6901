import Minirel.Query.Condition
import Minirel.Query.Select

/-! Deletion and selection: whether they agree on what a condition means. -/
namespace Minirel
open Program ByteMemory

section delete
variable {st : Flat} {name : Name} {attrs : List AttrDesc} {records rows todo : List Entry}
    {s : HeapFileScan}
  {d : AttrDesc} {op : Operator} {type : Datatype} {text : Name}

/-- Every tuple ahead is deleted. -/
theorem deleteWhile_spec (cursor : Cursor s st name id rows todo) (listed : ∀ r ∈ todo, r ∈ rows)
    (distinct : todo.Nodup) :
    ∃ s' g, Returns Flat.handle (deleteWhile · .ok s) st (s', st.put name g) ∧
      Cursor s' (st.put name g) name id (rows.filter (· ∉ todo)) [] := by
  induction todo generalizing s st rows with
  | nil =>
    obtain ⟨t, next, cursor'⟩ := cursor.eof
    obtain ⟨f, _, _, there, _⟩ := id cursor
    refine ⟨t, f, ?_, ?_⟩
    · rw [Flat.put_self there]
      exact .round (.bind next (.of_run rfl)) (fun _ => rfl)
    · simpa [Flat.put_self there] using cursor'
  | cons r todo ih =>
    rw [List.forall_mem_cons] at listed
    rw [List.nodup_cons] at distinct
    obtain ⟨t, next, on⟩ := cursor.next
    obtain ⟨u, g, front, back, delete, rfl, cursor'⟩ := on.deleteRecord listed.1
    have kept : ∀ r' ∈ todo, r' ∈ front ++ back := by
      intro r' member
      have apart : r' ≠ r := fun same => distinct.1 (same ▸ member)
      simpa [apart] using listed.2 r' member
    obtain ⟨s', g', rest, ended⟩ := ih cursor' kept distinct.2
    rw [Flat.put_put] at rest ended
    refine ⟨s', g', .round (.bind next (.after delete rest)) (fun _ => rfl), ?_⟩
    have once : r ∉ front ++ back := by
      have nodup := cursor.table.distinct.of_map
      rw [List.nodup_middle, List.nodup_cons] at nodup
      exact nodup.1
    have same : ∀ r' ∈ front ++ back, decide (r' ∉ todo) = decide (r' ∉ r :: todo) :=
      fun r' member => by
      have apart : r' ≠ r := fun same => once (same ▸ member)
      simp [apart]
    rw [List.filter_append, List.filter_cons_of_neg (by simp), ← List.filter_append,
      ← List.filter_congr same]
    exact ended

/-- From the scan on. If the scan is refused, it meets every record. -/
theorem deleteScan_spec (table : Table st name id records) {φ : Filter} (named : name ≠ []) :
    ∃ s g, Flat.run (HeapFileScan.new name) st = some (.ok s, st.opened name) ∧
      Returns Flat.handle (deleteScan · s (some φ)) (st.opened name) (.ok, st.put name g) ∧
      Table (st.put name g) name id (records.filter fun r => φ.accepted && !φ.matchRec r.2) := by
  obtain ⟨s, new, fresh, cursor⟩ := table.open named
  obtain ⟨t, start, cursor'⟩ : ∃ t, (s.startScan (some φ)).2 = t ∧
      Cursor t (st.opened name) name id records
        (records.filter fun r => !φ.accepted || φ.matchRec r.2) := by
    cases accepted : φ.accepted with
    | true =>
      obtain ⟨t, start, cursor'⟩ := cursor.startScan fresh accepted
      exact ⟨t, by rw [start], by simpa using cursor'⟩
    | false => exact ⟨s, by simp [HeapFileScan.startScan, accepted], by simpa using cursor⟩
  have distinct := table.distinct.of_map.filter fun r => !φ.accepted || φ.matchRec r.2
  obtain ⟨t', g, loop, ended⟩ :=
    deleteWhile_spec cursor' (fun r member => List.mem_of_mem_filter member) distinct
  rw [← Flat.opened_put] at loop ended
  refine ⟨s, g, new, ?_, ?_⟩
  · simp only [deleteScanBy, monadLift_self, start]
    exact .bind loop (.after ended.delete (.of_run rfl))
  · have same : ∀ r ∈ records, decide (r ∉ records.filter fun r => !φ.accepted || φ.matchRec r.2) =
        (φ.accepted && !φ.matchRec r.2) := by
      intro r member
      cases φ.accepted <;> simp [List.mem_filter, member]
    rw [← List.filter_congr same]
    exact ended.table.congr rfl

/-- The literal is converted by the type that the statement gives. -/
theorem quDelete_spec (atof : Name → Nat) (op : Operator) (type : Datatype) (text : Name)
    (relation : Relation st name attrs records) (user : UserName name) (listed : d ∈ attrs)
    (attrNamed : d.attrName ≠ []) :
    ∃ g, Returns Flat.handle (quDelete atof · name d.attrName op type text) st
      (.ok, st.put name g) ∧
        Table (st.put name g) name id
          (records.filter fun r => (d.filter type (literal atof type text) op).accepted &&
        !(d.filter type (literal atof type text) op).matchRec r.2) := by
  obtain ⟨cat, rep, rows⟩ := relation.described
  obtain ⟨s, g, new, scan, table⟩ :=
    deleteScan_spec relation.table (φ := d.filter type (literal atof type text) op) relation.named
  refine ⟨g, ?_, table⟩
  have opened : Relation (st.opened name) name attrs records :=
    relation.congr ⟨cat, rep.congr rfl rfl, rows⟩ rfl
  have found : Found (st.opened name) ⟨name, d.attrName, 0, 0, none⟩ d :=
    opened.found listed rfl rfl attrNamed
  have allowed : ¬ (name = [] ∨ name = relCatName ∨ name = attrCatName) := by
    simp [relation.named, user.1, user.2]
  simp only [quDeleteBy, monadLift_self, allowed, if_false]
  refine .after new ?_
  simp only [attrNamed, if_false]
  exact .bind found scan

end delete

/-- `QU_Select` with a condition returns these records: for every projection list
and result it adds their projections. -/
def Selects (atof : Name → Nat) (st : Flat) (name : Name) (attrs : List AttrDesc) (attrName : Name)
    (op : Operator) (text : Name) (selected : List Entry) : Prop :=
  ∀ (attr : AttrInfo) (projNames : List AttrInfo) (descs : List AttrDesc) (result : Name)
    (results : List Entry),
    attr.attrName = attrName → 0 ≤ attr.attrType ∧ attr.attrType ≤ 2 → Projects attrs projNames descs →
    (∀ proj ∈ projNames, proj.relName = name) → 1 ≤ AttrDesc.total descs → AttrDesc.total descs ≤ 1000 →
    Table st result id results → result ≠ [] → name ≠ result →
    ∃ g results', Returns Flat.handle (quSelect atof · result projNames (some attr) op (some text)) st
        (.ok, st.put result g) ∧
      Table (st.put result g) result id results' ∧
      Gained results results' (selected.map fun r => projection (fun _ => r.2) descs)

/-- On every relation `QU_Delete` removes the records that `QU_Select` returns for
the same condition on an attribute of this type and length. If its scan cannot be
started, it removes none and fails. -/
def DeleteAgrees (atof : Name → Nat) (attrType attrLen : Int) (op : Operator) (lit : Literal) :
    Prop :=
  ∀ (st : Flat) (name : Name) (attrs : List AttrDesc) (records : List Entry) (d : AttrDesc),
    Relation st name attrs records → UserName name → d ∈ attrs → d.attrName ≠ [] →
      d.attrType = attrType →
    d.attrLen = attrLen →
    if (d.filter lit.type (literal atof lit.type lit.text) op).accepted then
      ∃ selected g, selected.Sublist records ∧
        Selects atof st name attrs d.attrName op lit.text selected ∧
        Returns Flat.handle (quDelete atof · name d.attrName op lit.type lit.text) st
          (.ok, st.put name g) ∧
        Table (st.put name g) name id (records.filter (· ∉ selected))
    else ∃ status, status ≠ .ok ∧
      Returns Flat.handle (quDelete atof · name d.attrName op lit.type lit.text) st (status, st)

/-- The literal is of the attribute's type, or an equality with a single field of
four bytes is asked for that is the same by both types. -/
def Literal.Fits (atof : Name → Nat) (attrType attrLen : Int) (op : Operator) (lit : Literal) :
    Prop :=
  lit.type = datatypeOf attrType ∨ attrLen = 4 ∧ (op = .eq ∨ op = .ne) ∧
    ∃ f, fieldOf atof (datatypeOf attrType) lit.text = some f ∧ fieldOf atof lit.type lit.text = some f

section agree
variable {atof : Name → Nat} {st : Flat} {name : Name} {attrs : List AttrDesc}
    {records : List Entry} {d : AttrDesc}
  {op : Operator} {lit : Literal} {text : Name}

theorem Relation.selects (relation : Relation st name attrs records) (atof : Name → Nat)
    (op : Operator) (text : Name) (listed : d ∈ attrs)
    (kind : d.attrType = 0 ∨ d.attrType = 1 ∧ d.attrLen = 4) :
    Selects atof st name attrs d.attrName op text
      (records.filter fun r => (condition atof d op text).matchRec r.2) := by
  intro attr projNames descs result results same type projects source low high table resultNamed apart
  exact quSelect_spec atof relation projects source low high
    (.compare text listed same.symm type kind) table resultNamed
    apart

theorem Literal.Fits.same (fits : lit.Fits atof d.attrType d.attrLen op)
    (kind : d.attrType = 0 ∨ d.attrType = 1) {rec : List UInt8} (inside : d.Inside rec) :
    (d.filter lit.type (literal atof lit.type lit.text) op).matchRec rec =
    (condition atof d op lit.text).matchRec rec := by
  rcases fits with same | ⟨four, equality, one⟩
  · rw [condition, same]
  · by_cases same : lit.type = datatypeOf d.attrType
    · rw [condition, same]
    · have length : (d.field rec).length = 4 := by
        have := AttrDesc.field_length inside
        omega
      have numeric : datatypeOf d.attrType ≠ .float := by
        rcases kind with kind | kind <;> simp [datatypeOf, kind]
      have agree := (verdict_eq_iff lit numeric (Ne.symm same)).mpr ⟨equality, one⟩ _ length
      rw [condition, AttrDesc.filter_matchRec inside, AttrDesc.filter_matchRec inside, four]
      exact agree.symm

theorem Literal.Fits.accepted (fits : lit.Fits atof d.attrType d.attrLen op)
    (comparable : d.Comparable) :
    (d.filter lit.type (literal atof lit.type lit.text) op).accepted = true := by
  rcases fits with same | ⟨four, _⟩
  · rw [same]
    exact comparable.accepted _ op
  · simp [Filter.accepted, AttrDesc.filter, four, comparable.offset]

theorem DeleteAgrees.of_fits {attrType attrLen : Int} (fits : lit.Fits atof attrType attrLen op)
    (kind : attrType = 0 ∨ attrType = 1 ∧ attrLen = 4) :
    DeleteAgrees atof attrType attrLen op lit := by
  rintro st name attrs records d relation user listed attrNamed rfl rfl
  obtain ⟨offset, length, _⟩ := relation.placed d listed
  have accepted := fits.accepted ⟨offset, length, kind.imp_right And.right⟩
  obtain ⟨g, returns, table⟩ := quDelete_spec atof op lit.type lit.text relation user listed attrNamed
  rw [if_pos accepted]
  refine ⟨_, g, List.filter_sublist, relation.selects atof op lit.text listed kind, returns, ?_⟩
  have same : ∀ r ∈ records, ((d.filter lit.type (literal atof lit.type lit.text) op).accepted &&
      !(d.filter lit.type (literal atof lit.type lit.text) op).matchRec r.2) =
      decide (r ∉ records.filter fun r => (condition atof d op lit.text).matchRec r.2) := by
    intro r member
    rw [accepted, fits.same (kind.imp_right And.left) (relation.inside listed member)]
    simp [List.mem_filter, member]
  rw [← List.filter_congr same]
  exact table

theorem Selects.length_eq {attrName result : Name} {selected selected' results : List Entry}
    (first : Selects atof st name attrs attrName op text selected)
    (second : Selects atof st name attrs attrName op text selected') (named : d ∈ attrs)
    (low : 1 ≤ d.attrLen) (high : d.attrLen ≤ 1000) (table : Table st result id results)
    (resultNamed : result ≠ []) (apart : name ≠ result) :
    selected.length = selected'.length := by
  have projects : Projects attrs [⟨name, d.attrName, 0, 0, none⟩] [d] := .cons ⟨named, rfl⟩ .nil
  have total : AttrDesc.total [d] = d.attrLen := by simp [AttrDesc.total]
  have run {chosen : List Entry} (selects : Selects atof st name attrs attrName op text chosen) :=
    selects ⟨name, attrName, 0, 0, none⟩ _ _ result results rfl ⟨le_refl _, by simp⟩ projects
      (by simp) (by omega) (by omega)
      table resultNamed apart
  obtain ⟨g, results₁, returns, table₁, gained⟩ := run first
  obtain ⟨g', results₂, returns', table₂, gained'⟩ := run second
  rw [← (Prod.mk.inj (returns.unique returns')).2] at table₂
  rw [table₁.unique table₂] at gained
  have lengths := gained.contents.length_eq.symm.trans gained'.contents.length_eq
  simpa using lengths

theorem exists_single {attrType : Int} (attrLen : Int) (type : attrType = 0 ∨ attrType = 1)
    (low : 1 ≤ attrLen) (high : attrLen < 2 ^ 31) (contents : List (List UInt8))
    (sized : ∀ b ∈ contents, (b.length : Int) = attrLen ∧ b.length ≤ 1000) :
    ∃ st records results, Relation st (chars "r") [⟨chars "r", chars "a", 0, attrType, attrLen⟩]
      records ∧ records.map Prod.snd = contents ∧ Table st (chars "t") id results := by
  let r : Setup := ⟨chars "r", [⟨chars "r", chars "a", attrType, attrLen, none⟩], contents⟩
  let t : Setup := ⟨chars "t", [⟨chars "t", chars "c", 0, 4, none⟩], []⟩
  have declared : Declared r.attrList :=
    ⟨by simp [r], by simp [r], by simp [r]; decide, by simpa [r] using low, by simpa [r] using high⟩
  have name : CName (chars "r") ∧ chars "r" ≠ [] ∧ UserName (chars "r") := by decide
  have sound : r.Sound := ⟨name.1, name.2.1, name.2.2, declared, by simpa [r] using sized⟩
  obtain ⟨st, holds⟩ := exists_database [r, t] (List.forall_mem_cons.mpr ⟨sound, by decide⟩)
    (by simp [r, t]; decide)
  obtain ⟨records, relation, same⟩ := holds r (by simp)
  obtain ⟨results, relation', _⟩ := holds t (by simp)
  have attrs : r.attrs = [⟨chars "r", chars "a", 0, attrType, attrLen⟩] := by
    have length : int attrLen = attrLen := int_of_fits (by omega) high
    have kind : int attrType = attrType := int_of_fits (by omega) (by omega)
    simp only [Setup.attrs, describe, r, length, kind]
  rw [attrs] at relation
  exact ⟨st, records, results, relation, same, relation'.table⟩

/-- A number that is compared with a string of another length stops the scan. -/
theorem DeleteAgrees.length_four {attrType attrLen : Int}
    (agrees : DeleteAgrees atof attrType attrLen op lit)
    (differ : lit.type ≠ datatypeOf attrType) (kind : attrType = 0 ∨ attrType = 1 ∧ attrLen = 4)
    (low : 1 ≤ attrLen) (high : attrLen < 2 ^ 31) : attrLen = 4 := by
  by_contra other
  obtain rfl : attrType = 0 := by omega
  obtain ⟨st, records, _, relation, _⟩ := exists_single attrLen (.inl rfl) low high [] (by simp)
  have refused : ¬ (AttrDesc.filter ⟨chars "r", chars "a", 0, 0, attrLen⟩ lit.type
      (literal atof lit.type lit.text) op).accepted = true := by
    cases type : lit.type with
    | string => exact absurd type differ
    | integer => simp [Filter.accepted, AttrDesc.filter, other]
    | float => simp [Filter.accepted, AttrDesc.filter, other]
  have attrNamed : chars "a" ≠ [] := by decide
  have result := agrees st _ _ records _ relation (by decide) List.mem_cons_self attrNamed rfl rfl
  rw [if_neg refused] at result
  obtain ⟨status, failed, returns⟩ := result
  obtain ⟨g, returns', _⟩ :=
    quDelete_spec atof op lit.type lit.text relation (by decide) List.mem_cons_self attrNamed
  exact failed (Prod.mk.inj (returns.unique returns')).1

theorem DeleteAgrees.verdict_eq {attrType : Int} (agrees : DeleteAgrees atof attrType 4 op lit)
    (kind : attrType = 0 ∨ attrType = 1) (field : List UInt8) (length : field.length = 4) :
    verdict atof (datatypeOf attrType) op lit.text field = verdict atof lit.type op lit.text
      field := by
  obtain ⟨st, records, results, relation, contents, table⟩ :=
    exists_single 4 kind (by decide) (by decide) [field] (by simp [length])
  obtain ⟨e, rfl, rfl⟩ := List.map_eq_singleton_iff.mp contents
  obtain ⟨d, eq⟩ : ∃ d : AttrDesc, d = ⟨chars "r", chars "a", 0, attrType, 4⟩ := ⟨_, rfl⟩
  rw [← eq] at relation
  have listed : d ∈ [d] := List.mem_cons_self
  have attrNamed : d.attrName ≠ [] := by
    rw [eq]
    show chars "a" ≠ []
    decide
  have type : d.attrType = attrType := by rw [eq]
  have four : d.attrLen = 4 := by rw [eq]
  have accepted : (d.filter lit.type (literal atof lit.type lit.text) op).accepted = true := by
    simp [Filter.accepted, AttrDesc.filter, eq]
  have result := agrees st _ _ _ d relation (by decide) listed attrNamed type four
  rw [if_pos accepted] at result
  obtain ⟨selected, g, sub, selects, returns, table'⟩ := result
  obtain ⟨g', returns', table''⟩ :=
    quDelete_spec atof op lit.type lit.text relation (by decide) listed attrNamed
  rw [← (Prod.mk.inj (returns.unique returns')).2] at table''
  have rest := table'.unique table''
  have count := selects.length_eq (relation.selects atof op lit.text listed (by omega)) listed
    (by omega) (by omega) table (by decide)
    (by decide)
  have inside := relation.inside listed (List.mem_cons_self (a := e))
  have field : d.field e.2 = e.2 := by simp [AttrDesc.field, eq, length]
  have chosen : (condition atof d op lit.text).matchRec e.2 = verdict atof (datatypeOf attrType) op
      lit.text e.2 := by
    rw [condition, AttrDesc.filter_matchRec inside, four, field, type, verdict]
  have removed : (d.filter lit.type (literal atof lit.type lit.text) op).matchRec e.2 =
      verdict atof lit.type op lit.text e.2 := by
    rw [AttrDesc.filter_matchRec inside, four, field, verdict]
  simp only [List.filter_singleton, chosen] at count
  simp only [List.filter_singleton, accepted, removed] at rest
  rcases List.sublist_singleton.mp sub with rfl | rfl
  · cases chosen' : verdict atof (datatypeOf attrType) op lit.text e.2 <;>
      cases removed' : verdict atof lit.type op lit.text e.2 <;> simp [chosen', removed'] at count rest
    rfl
  · cases chosen' : verdict atof (datatypeOf attrType) op lit.text e.2 <;>
      cases removed' : verdict atof lit.type op lit.text e.2 <;> simp [chosen', removed'] at count rest
    rfl

/-- `QU_Delete` and `QU_Select` agree on a condition for all contents of relations
exactly if the literal fits the attribute. -/
theorem quDelete_agrees_iff (atof : Name → Nat) {attrType attrLen : Int} (op : Operator)
    (lit : Literal) (kind : attrType = 0 ∧ 1 ≤ attrLen ∨ attrType = 1 ∧ attrLen = 4)
    (small : attrLen < 2 ^ 31) :
    DeleteAgrees atof attrType attrLen op lit ↔ lit.Fits atof attrType attrLen op := by
  refine ⟨fun agrees => ?_, fun fits => .of_fits fits (by omega)⟩
  by_cases same : lit.type = datatypeOf attrType
  · exact .inl same
  · have four : attrLen = 4 := agrees.length_four same (by omega) (by omega) small
    subst four
    have numeric : datatypeOf attrType ≠ .float := by
      rcases kind with ⟨rfl, _⟩ | ⟨rfl, _⟩ <;> decide
    have agree := (verdict_eq_iff lit numeric (Ne.symm same)).mp (agrees.verdict_eq (by omega))
    exact .inr ⟨rfl, agree⟩

/-- Strings less than `abc`. -/
theorem quDelete_agrees_iff_string :
    DeleteAgrees (fun _ => 0) 0 4 .lt ⟨.string, chars "abc", by decide, fun other => by
      cases other⟩ :=
  (quDelete_agrees_iff _ _ _ (by decide) (by decide)).mpr (.inl rfl)

/-- `delete r where r.a = 5`, where `a` is a string of two characters: the record
that no selection returns is removed, and the status is `OK`. -/
theorem quDelete_number_empties :
    let five : Literal := ⟨.integer, chars "5", by decide, fun other => by cases other⟩
    let attrs : List AttrDesc := [⟨chars "r", chars "a", 0, 0, 2⟩]
    (∃ st records g, Relation st (chars "r") attrs records ∧ records.map Prod.snd = [[120, 121]] ∧
      Selects (fun _ => 0) st (chars "r") attrs (chars "a") .eq five.text [] ∧
      Returns Flat.handle (quDelete (fun _ => 0) · (chars "r") (chars "a") .eq five.type five.text) st
        (.ok, st.put (chars "r") g) ∧
      Table (st.put (chars "r") g) (chars "r") id []) ∧ ¬ DeleteAgrees (fun _ => 0) 0 2 .eq five := by
  intro five attrs
  refine ⟨?_, fun agrees =>
    absurd (agrees.length_four (by decide) (by decide) (by decide) (by decide)) (by decide)⟩
  obtain ⟨st, records, _, relation, contents, _⟩ :=
    exists_single 2 (.inl rfl) (by decide) (by decide) [[120, 121]] (by decide)
  obtain ⟨e, rfl, bytes⟩ := List.map_eq_singleton_iff.mp contents
  have selects := relation.selects (fun _ => 0) .eq five.text List.mem_cons_self (.inl rfl)
  obtain ⟨g, returns, table⟩ := quDelete_spec (fun _ => 0) .eq .integer five.text relation (by decide)
    List.mem_cons_self (by decide)
  simp only [List.filter_singleton, bytes] at selects table
  exact ⟨st, [e], g, relation, contents, selects, returns, table⟩

end agree
end Minirel
