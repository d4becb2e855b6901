import Minirel.Query.Populate

/-! The nested loops join is the theta join. -/
namespace Minirel
open Program

/-! Comparisons, seen from the other side. -/

theorem strncmp_swap (n : Nat) (s t : List UInt8) : strncmp n s t = (strncmp n t s).swap := by
  induction n generalizing s t with
  | zero => rfl
  | succ n ih =>
    rw [strncmp, strncmp]
    by_cases same : s.headD 0 = t.headD 0
    · simp only [same, ne_eq, not_true_eq_false, if_false]
      split
      · rfl
      · exact ih ..
    · simp only [ne_eq, same, Ne.symm same, not_false_eq_true, if_true]
      exact Nat.compare_swap .. |>.symm

/-- No more than the first characters count. -/
theorem strncmp_take (n : Nat) (s t : List UInt8) :
    strncmp n (s.take n) (t.take n) = strncmp n s t := by
  induction n generalizing s t with
  | zero => rfl
  | succ n ih =>
    have head (s : List UInt8) : (s.take (n + 1)).headD 0 = s.headD 0 := by cases s <;> rfl
    have tail (s : List UInt8) : (s.take (n + 1)).tail = s.tail.take n := by cases s <;> simp
    rw [strncmp, strncmp, head, head, tail, tail, ih]

theorem Filter.diff_take (type : Datatype) (length : Int) (field value : List UInt8) :
    Filter.diff type length (field.take length.toNat) value =
      Filter.diff type length field value := by
  cases type with
  | integer => simp [Filter.diff, List.take_take]
  | float => simp [Filter.diff, List.take_take]
  | string =>
    simp only [Filter.diff]
    rw [← strncmp_take, List.take_take, Nat.min_self, strncmp_take]

theorem Filter.diff_take_value (type : Datatype) (length : Int) (field value : List UInt8) :
    Filter.diff type length field (value.take length.toNat) =
      Filter.diff type length field value := by
  cases type with
  | integer => simp [Filter.diff, List.take_take]
  | float => simp [Filter.diff, List.take_take]
  | string =>
    simp only [Filter.diff]
    rw [← strncmp_take, List.take_take, Nat.min_self, strncmp_take]

theorem AttrDesc.filter_matchRec {d : AttrDesc} {rec : List UInt8} (inside : d.Inside rec)
    (type : Datatype) (value : List UInt8) (op : Operator) :
    (d.filter type value op).matchRec rec =
      op.holds (Filter.diff type d.attrLen (d.field rec) value) := by
  obtain ⟨low, length, high⟩ := inside
  have within : ¬ d.attrOffset + d.attrLen - 1 ≥ rec.length := by omega
  simp only [AttrDesc.filter, Filter.matchRec, within, if_false, AttrDesc.field, Filter.diff_take]

theorem Operator.flip_holds (op : Operator) (diff : Ordering) :
    op.flip.holds (some diff.swap) = op.holds (some diff) := by
  cases op <;> cases diff <;> rfl

/-! Lookups. -/

section lookup
variable {st : Flat} {name : Name} {attrs descs : List AttrDesc} {records : List Entry}
    {projNames : List AttrInfo}
  {proj : AttrInfo} {d : AttrDesc}

/-- The catalog has this description of an attribute. -/
def Found (st : Flat) (proj : AttrInfo) (d : AttrDesc) : Prop :=
  Returns Flat.handle (AttrCatalog.getInfo · proj.relName proj.attrName) st (.ok d, st)

theorem Relation.found (relation : Relation st name attrs records) (listed : d ∈ attrs)
    (of : proj.relName = name) (same : d.attrName = proj.attrName)
    (attrNamed : proj.attrName ≠ []) : Found st proj d := by
  obtain ⟨cat, rep, rows⟩ := relation.described
  have info := AttrCatalog.getInfo_spec rep relation.terminated relation.named attrNamed
  have sought : attrs.find? (fun d' => d'.attrName = proj.attrName) = some d := by
    rw [← List.head?_filter, ← same, relation.filter_name listed, List.head?_cons]
  rw [rows, sought] at info
  rw [Found, of]
  exact info

theorem lookupAttrs_spec (found : List.Forall₂ (Found st) projNames descs) :
    Returns Flat.handle (lookupAttrs · projNames) st (.ok descs, st) := by
  induction found with
  | nil => exact .of_run rfl
  | cons first _ ih => exact .bind first (.bind ih (.of_run rfl))

/-- An attribute is described, or it is not found. -/
theorem Relation.lookup (relation : Relation st name attrs records) (proj : AttrInfo)
    (of : proj.relName = name) (attrNamed : proj.attrName ≠ []) :
    (∃ d ∈ attrs, d.attrName = proj.attrName ∧ Found st proj d) ∨
    (∀ d ∈ attrs, d.attrName ≠ proj.attrName) ∧
      Returns Flat.handle (AttrCatalog.getInfo · proj.relName proj.attrName) st
        (.error .attrNotFound, st) := by
  by_cases described : ∃ d ∈ attrs, d.attrName = proj.attrName
  · obtain ⟨d, listed, same⟩ := described
    exact .inl ⟨d, listed, same, relation.found listed of same attrNamed⟩
  · push Not at described
    obtain ⟨cat, rep, rows⟩ := relation.described
    have info := AttrCatalog.getInfo_spec rep relation.terminated relation.named attrNamed
    have sought : attrs.find? (fun d => d.attrName = proj.attrName) = none := by simpa using described
    rw [rows, sought] at info
    rw [of]
    exact .inr ⟨described, info⟩

theorem lookupAttrs_cases (relation : Relation st name attrs records)
    (of : ∀ proj ∈ projNames, proj.relName = name ∧ proj.attrName ≠ []) :
    (∃ descs, List.Forall₂ (Found st) projNames descs ∧ ∀ d ∈ descs, d ∈ attrs) ∨
      Returns Flat.handle (lookupAttrs · projNames) st (.error .attrNotFound, st) := by
  induction projNames with
  | nil => exact .inl ⟨[], .nil, by simp⟩
  | cons proj projNames ih =>
    rw [List.forall_mem_cons] at of
    rcases relation.lookup proj of.1.1 of.1.2 with ⟨d, listed, _, found⟩ | ⟨_, missing⟩
    · rcases ih of.2 with ⟨descs, found', listed'⟩ | missing
      · exact .inl ⟨d :: descs, .cons found found', List.forall_mem_cons.mpr ⟨listed, listed'⟩⟩
      · exact .inr (.bind found (.bind missing (.of_run rfl)))
    · exact .inr (.bind missing (.of_run rfl))

end lookup

section scan
variable {st : Flat} {outer inner result : Name} {descs : List AttrDesc}
    {records others todo results : List Entry}
  {reclen : Int} {s : HeapFileScan} {h : HeapFile} {attrDesc1 attrDesc2 : AttrDesc} {op : Operator}

/-- The filter of the inner scan: `attr2` against a value of the outer record. -/
def joinFilter (attrDesc1 attrDesc2 : AttrDesc) (op : Operator) (outerRec : List UInt8) : Filter :=
  attrDesc2.filter (datatypeOf attrDesc2.attrType) (outerRec.drop attrDesc1.attrOffset.toNat) op.flip

theorem startInner_eq (type : 0 ≤ attrDesc2.attrType ∧ attrDesc2.attrType ≤ 2)
    (outerRec : List UInt8) :
    startInner attrDesc1 attrDesc2 op.flip outerRec s =
      s.startScan (some (joinFilter attrDesc1 attrDesc2 op outerRec)) := by
  obtain zero | one | two : attrDesc2.attrType = 0 ∨ attrDesc2.attrType = 1 ∨
    attrDesc2.attrType = 2 := by omega
  · simp [startInner, joinFilter, datatypeOf?, datatypeOf, zero]
  · simp [startInner, joinFilter, datatypeOf?, datatypeOf, one]
  · simp [startInner, joinFilter, datatypeOf?, datatypeOf, two]

/-- By induction on the inner tuples that are left. -/
theorem innerLoop_spec (outer : Name) {outerRec : List UInt8}
    (cursor : Cursor s st inner id records todo) (inserter : Inserter h st result results)
    (apart : inner ≠ result)
    (inside : ∀ r ∈ todo, ∀ d ∈ descs, d.Inside (joinSource outer outerRec r.2 d))
    (total : reclen = AttrDesc.total descs) (low : 1 ≤ reclen) (high : reclen ≤ 1000) :
    ∃ s' h' g results', Returns Flat.handle (innerLoop descs reclen outer outerRec · s h) st
        ((s', h'), st.put result g) ∧
      Cursor s' (st.put result g) inner id records [] ∧
        Inserter h' (st.put result g) result results' ∧
      Gained results results'
        (todo.map fun r => projection (joinSource outer outerRec r.2) descs) := by
  induction todo generalizing st s h results with
  | nil =>
    obtain ⟨t, next, cursor'⟩ := cursor.eof
    obtain ⟨f, _, _, there, _⟩ := id inserter
    refine ⟨t, h, f, results, ?_, ?_, ?_, .refl _⟩
    · rw [Flat.put_self there]
      exact .round (.bind next (.of_run rfl)) (fun _ => rfl)
    · rwa [Flat.put_self there]
    · rwa [Flat.put_self there]
  | cons r todo ih =>
    rw [List.forall_mem_cons] at inside
    obtain ⟨t, next, on⟩ := cursor.next
    obtain ⟨rid, h', g, results', insert, inserter', gained⟩ :=
      insert_output inserter inside.1 total low high
    obtain ⟨s', h'', g', results'', rest, ended, inserter'', gained'⟩ :=
      ih (on.cursor.congr (Flat.files_put_of_ne g apart)) inserter' inside.2
    rw [Flat.put_put] at rest ended inserter''
    refine ⟨s', h'', g', results'', ?_, ended, inserter'', gained.trans gained'⟩
    have copy := copyAttrs_spec st inside.1
    exact .round (.bind next (.after on.getRecord (.after copy (.after insert rest)))) (fun _ => rfl)

/-- The matches of the records of one relation in another, as output. -/
def joined (outer : Name) (descs : List AttrDesc) (attrDesc1 attrDesc2 : AttrDesc) (op : Operator)
    (records others : List Entry) : List (List UInt8) :=
  records.flatMap fun o =>
    (others.filter fun i => (joinFilter attrDesc1 attrDesc2 op o.2).matchRec i.2).map
    fun i => projection (joinSource outer o.2 i.2) descs

/-- If there are no matches, then the result may be one of the relations, and its
tuples may be too long for a page. -/
theorem outerLoop_spec (cursor : Cursor s st outer id records todo)
    (inserter : Inserter h st result results) (table : Table st inner id others)
    (named : inner ≠ []) (first : attrDesc1.relName = outer) (second : attrDesc2.relName = inner)
    (type : 0 ≤ attrDesc2.attrType ∧ attrDesc2.attrType ≤ 2)
    (accepted : ∀ o, (joinFilter attrDesc1 attrDesc2 op o).accepted = true)
    (inside : ∀ o ∈ todo, ∀ i ∈ others, ∀ d ∈ descs, d.Inside (joinSource outer o.2 i.2 d))
    (total : reclen = AttrDesc.total descs) (low : 1 ≤ reclen)
    (room : joined outer descs attrDesc1 attrDesc2 op todo others ≠ [] → outer ≠ result ∧
      inner ≠ result ∧ reclen ≤ 1000) :
    ∃ s' h' g results', Returns Flat.handle
      (outerLoop descs reclen attrDesc1 attrDesc2 op.flip · s h) st
        ((.ok, s', h'), st.put result g) ∧
      Cursor s' (st.put result g) outer id records [] ∧
        Inserter h' (st.put result g) result results' ∧
      Gained results results' (joined outer descs attrDesc1 attrDesc2 op todo others) := by
  induction todo generalizing st s h results with
  | nil =>
    obtain ⟨t, next, cursor'⟩ := cursor.eof
    obtain ⟨f, _, _, there, _⟩ := id inserter
    refine ⟨t, h, f, results, ?_, ?_, ?_, .refl _⟩
    · rw [Flat.put_self there]
      exact .round (.bind next (.of_run rfl)) (fun _ => rfl)
    · rwa [Flat.put_self there]
    · rwa [Flat.put_self there]
  | cons o todo ih =>
    rw [List.forall_mem_cons] at inside
    obtain ⟨t, next, on⟩ := cursor.next
    obtain ⟨i, newInner, fresh, inners⟩ := table.open named
    obtain ⟨j, start, matching⟩ := inners.startScan fresh (accepted o.2)
    have inserter' : Inserter h (st.opened inner) result results := inserter.congr rfl
    have round {j' : HeapFileScan} {h' : HeapFile} {st₁ : Flat}
      {r : (Status × HeapFileScan × HeapFile) × Flat}
        (loop : Returns Flat.handle (innerLoop descs reclen outer o.2 · j h) (st.opened inner)
          ((j', h'), st₁.opened inner))
        (ended : Cursor j' (st₁.opened inner) inner id others [])
        (rest : Returns Flat.handle (outerLoop descs reclen attrDesc1 attrDesc2 op.flip · t h') st₁ r) :
        Returns Flat.handle (outerLoop descs reclen attrDesc1 attrDesc2 op.flip · s h) st r := by
      refine .round (.bind next (.after on.getRecord ?_)) (fun _ => rfl)
      simp only [second]
      refine .after newInner ?_
      simp only [startInner_eq type, id_eq, start, ne_eq, not_true_eq_false, if_false, first]
      exact .bind loop (.after ended.delete rest)
    by_cases none : (others.filter fun i => (joinFilter attrDesc1 attrDesc2 op o.2).matchRec i.2) = []
    · -- the storage is as before
      have same : joined outer descs attrDesc1 attrDesc2 op (o :: todo) others =
          joined outer descs attrDesc1 attrDesc2 op todo others := by simp [joined, none]
      simp only [id_eq, none] at matching
      obtain ⟨j', next', ended⟩ := matching.eof
      rw [same] at room ⊢
      obtain ⟨s', h', g, results', rest, ended', inserter'', gained⟩ :=
        ih on.cursor inserter table inside.2 room
      exact ⟨s', h', g, results', round (.round (.bind next' (.of_run rfl)) fun _ => rfl) ended
        rest, ended', inserter'', gained⟩
    · obtain ⟨apart, apart', high⟩ := room (by simp [joined, none])
      obtain ⟨j', h', g, results', loop, ended, inserter'', gained⟩ :=
        innerLoop_spec outer matching inserter' apart'
        (fun i member => inside.1 i (List.mem_of_mem_filter member)) total low high
      rw [← Flat.opened_put] at loop ended inserter''
      have inserter₂ : Inserter h' (st.put result g) result results' := inserter''.congr rfl
      obtain ⟨s', h'', g', results'', rest, ended', inserter₃, gained'⟩ := ih
        (on.cursor.congr (Flat.files_put_of_ne g apart)) inserter₂
          (table.congr (Flat.files_put_of_ne g apart')) inside.2
        fun _ => ⟨apart, apart', high⟩
      rw [Flat.put_put] at rest ended' inserter₃
      exact ⟨s', h'', g', results'', round loop ended rest, ended', inserter₃, gained.trans gained'⟩

theorem Relation.attrs_eq {name : Name} {attrs attrs' : List AttrDesc}
    (relation : Relation st name attrs records) (relation' : Relation st name attrs' others) :
    attrs = attrs' := by
  obtain ⟨cat, rep, rfl⟩ := relation.described
  obtain ⟨cat', rep', rfl⟩ := relation'.described
  rw [rep.unique rep']

variable {attrs attrs' : List AttrDesc} {d : AttrDesc}

theorem joinSource_inside (relation : Relation st outer attrs records)
    (relation' : Relation st inner attrs' others) {o i : Entry} (first : o ∈ records)
    (second : i ∈ others) (listed : d ∈ attrs ∨ d ∈ attrs') :
    d.Inside (joinSource outer o.2 i.2 d) := by
  rw [joinSource]
  split
  next same =>
    rcases listed with listed | listed
    · exact relation.inside listed first
    · obtain rfl : inner = outer := (relation'.relName listed).symm.trans same
      rw [← relation.attrs_eq relation'] at listed
      exact relation.inside listed first
  next other =>
    rcases listed with listed | listed
    · exact absurd (relation.relName listed) other
    · exact relation'.inside listed second

/-- The inner relation is read again for each outer tuple. -/
theorem joinScan_spec (relation : Relation st outer attrs records)
    (relation' : Relation st inner attrs' others)
    (listed₁ : attrDesc1 ∈ attrs) (listed₂ : attrDesc2 ∈ attrs')
    (type : 0 ≤ attrDesc2.attrType ∧ attrDesc2.attrType ≤ 2)
    (accepted : ∀ o, (joinFilter attrDesc1 attrDesc2 op o).accepted = true)
    (table : Table st result id results) (resultNamed : result ≠ [])
    (listed : ∀ d ∈ descs, d ∈ attrs ∨ d ∈ attrs') (low : 1 ≤ AttrDesc.total descs)
    (high : AttrDesc.total descs < 2 ^ 31)
    (room : joined outer descs attrDesc1 attrDesc2 op records others ≠ [] →
      outer ≠ result ∧ inner ≠ result ∧ AttrDesc.total descs ≤ 1000) :
    ∃ g results', Returns Flat.handle (joinScan · result descs attrDesc1 op attrDesc2) st
      (.ok, st.put result g) ∧ Table (st.put result g) result id results' ∧
      Gained results results' (joined outer descs attrDesc1 attrDesc2 op records others) := by
  have first : attrDesc1.relName = outer := relation.relName listed₁
  have width : int (descs.map AttrDesc.attrLen).sum = AttrDesc.total descs := by
    rw [AttrDesc.total] at low high ⊢
    exact int_of_fits (by omega) (by omega)
  obtain ⟨h, newResult, inserter⟩ := table.openInserter resultNamed
  have table' : Table (st.opened result) outer id records := relation.table.congr rfl
  obtain ⟨s, newScan, fresh, cursor⟩ := table'.open relation.named
  have inserter' : Inserter h ((st.opened result).opened outer) result results := inserter.congr rfl
  obtain ⟨s', h', g, results', loop, ended, inserter'', gained⟩ :=
    outerLoop_spec cursor inserter' (relation'.table.congr rfl) relation'.named first
      (relation'.relName listed₂) type accepted
      (fun o member i member' d of =>
        joinSource_inside relation relation' member member' (listed d of)) rfl low room
  rw [← Flat.opened_put] at loop ended inserter''
  have closing : Inserter h' ((st.put result g).opened result) result results' := inserter''.congr rfl
  refine ⟨g, results', ?_, closing.table.congr rfl, gained⟩
  refine .after newResult ?_
  simp only [first]
  refine .after newScan ?_
  simp only [Cursor.startScan_none fresh, width]
  exact .bind loop (.after ended.delete (.after closing.delete (.of_run rfl)))

theorem quNLJoin_spec {projNames : List AttrInfo} {attr1 attr2 : AttrInfo}
    (relation : Relation st outer attrs records)
    (relation' : Relation st inner attrs' others)
    (declared : attr1.attrType = attr2.attrType ∧ attr1.attrLen = attr2.attrLen)
    (found : List.Forall₂ (Found st) projNames descs) (found₁ : Found st attr1 attrDesc1)
    (found₂ : Found st attr2 attrDesc2) (listed₁ : attrDesc1 ∈ attrs) (listed₂ : attrDesc2 ∈ attrs')
    (type : 0 ≤ attrDesc2.attrType ∧ attrDesc2.attrType ≤ 2)
    (accepted : ∀ o, (joinFilter attrDesc1 attrDesc2 op o).accepted = true)
    (table : Table st result id results) (resultNamed : result ≠ []) (apart : outer ≠ result)
    (apart' : inner ≠ result) (listed : ∀ d ∈ descs, d ∈ attrs ∨ d ∈ attrs')
    (low : 1 ≤ AttrDesc.total descs) (high : AttrDesc.total descs ≤ 1000) :
    ∃ g results', Returns Flat.handle (quNLJoin · result projNames attr1 op attr2) st
      (.ok, st.put result g) ∧ Table (st.put result g) result id results' ∧
      Gained results results' (joined outer descs attrDesc1 attrDesc2 op records others) := by
  obtain ⟨g, results', scan, table', gained⟩ :=
    joinScan_spec relation relation' listed₁ listed₂ type accepted table
    resultNamed listed low (by omega) fun _ => ⟨apart, apart', high⟩
  refine ⟨g, results', ?_, table', gained⟩
  simp only [quNLJoinBy, monadLift_self, declared, ne_eq, not_true_eq_false, or_self, if_false]
  exact .bind (lookupAttrs_spec found) (.bind found₁ (.bind found₂ scan))

theorem joinFilter_string {o i : List UInt8} (inside : attrDesc2.Inside i)
    (type : attrDesc2.attrType = 0) (length : attrDesc1.attrLen = attrDesc2.attrLen) :
    (joinFilter attrDesc1 attrDesc2 op o).matchRec i =
    op.holds (some (strncmp attrDesc1.attrLen.toNat (attrDesc1.field o)
      (attrDesc2.field i))) := by
  obtain ⟨low, _, high⟩ := inside
  have within : ¬ attrDesc2.attrOffset + attrDesc2.attrLen - 1 ≥ i.length := by omega
  rw [AttrDesc.field, AttrDesc.field, length, strncmp_take, strncmp_swap, ← Operator.flip_holds,
    Ordering.swap_swap]
  simp only [joinFilter, AttrDesc.filter, Filter.matchRec, within, if_false, datatypeOf, type,
    if_true, Filter.diff]

/-- An attribute expression names this attribute of a relation. -/
structure AttrInfo.Names (proj : AttrInfo) (name : Name) (attrs : List AttrDesc) (d : AttrDesc) :
    Prop where
  relation : proj.relName = name
  listed : d ∈ attrs
  same : d.attrName = proj.attrName
  named : proj.attrName ≠ []

/-- A join of two relations adds a record to the result for each pair that the
inner scan accepts: the fields in the order of the projection list, each from the
record of its relation. For strings these are the pairs that `op` holds for. -/
theorem quNLJoin_theta_join {projNames : List AttrInfo} {attr1 attr2 : AttrInfo} (op : Operator)
    (relation : Relation st outer attrs records) (relation' : Relation st inner attrs' others)
    (distinct : outer ≠ inner) (names₁ : attr1.Names outer attrs attrDesc1)
    (names₂ : attr2.Names inner attrs' attrDesc2)
    (declared : attr1.attrType = attr2.attrType ∧ attr1.attrLen = attr2.attrLen)
    (types : attrDesc1.attrType = attrDesc2.attrType)
    (lengths : attrDesc1.attrLen = attrDesc2.attrLen)
    (type : attrDesc1.attrType = 0 ∨ attrDesc1.attrType = 1 ∧ attrDesc1.attrLen = 4)
    (projects : List.Forall₂ (fun proj d => proj.Names outer attrs d ∨ proj.Names inner attrs' d)
      projNames descs)
    (low : 1 ≤ AttrDesc.total descs) (high : AttrDesc.total descs ≤ 1000)
    (table : Table st result id results) (resultNamed : result ≠ []) (apart : outer ≠ result)
    (apart' : inner ≠ result) :
    ∃ g results', Returns Flat.handle (quNLJoin · result projNames attr1 op attr2) st
      (.ok, st.put result g) ∧ Table (st.put result g) result id results' ∧
      Gained results results' (records.flatMap fun o =>
        (others.filter fun i => (joinFilter attrDesc1 attrDesc2 op o.2).matchRec i.2).map
          fun i => projection (fun d => if d ∈ attrs then o.2 else i.2) descs) ∧
      (attrDesc1.attrType = 0 → ∀ o ∈ records, ∀ i ∈ others,
        (joinFilter attrDesc1 attrDesc2 op o.2).matchRec i.2 =
        op.holds (some (strncmp attrDesc1.attrLen.toNat (attrDesc1.field o.2)
          (attrDesc2.field i.2)))) := by
  have listed : ∀ d ∈ descs, d ∈ attrs ∨ d ∈ attrs' :=
    Pointwise.forall_right projects fun _ _ names =>
      names.imp AttrInfo.Names.listed AttrInfo.Names.listed
  have found : List.Forall₂ (Found st) projNames descs := projects.imp fun proj d names =>
    names.elim (fun names => relation.found names.listed names.relation names.same names.named)
      fun names => relation'.found names.listed names.relation names.same names.named
  have found₁ := relation.found names₁.listed names₁.relation names₁.same names₁.named
  have found₂ := relation'.found names₂.listed names₂.relation names₂.same names₂.named
  obtain ⟨offset, length, _⟩ := relation'.placed _ names₂.listed
  have comparable : attrDesc2.Comparable := ⟨offset, length, by omega⟩
  obtain ⟨g, results', returns, table', gained⟩ :=
    quNLJoin_spec relation relation' declared found found₁ found₂
    names₁.listed names₂.listed (by omega) (fun o => comparable.accepted _ op.flip) table
      resultNamed apart apart' listed low high
  refine ⟨g, results', returns, table', ?_, fun string o member i member' =>
    joinFilter_string (relation'.inside names₂.listed member') (types ▸ string) lengths⟩
  have source (o i : Entry) (d : AttrDesc) (member : d ∈ descs) :
      joinSource outer o.2 i.2 d = if d ∈ attrs then o.2 else i.2 := by
    have same : d.relName = outer ↔ d ∈ attrs := by
      refine ⟨fun same => (listed d member).resolve_right fun other => ?_, relation.relName⟩
      exact distinct (same.symm.trans (relation'.relName other))
    simp only [joinSource, same]
  simp only [joined, projection_congr (source _ _)] at gained
  exact gained

/-- `select into t (r.a, s.b) where r.a < s.b`. -/
theorem quNLJoin_theta_join_smaller :
    let r : Setup := ⟨chars "r", [⟨chars "r", chars "a", 0, 1, none⟩], [[98]]⟩
    let s : Setup := ⟨chars "s", [⟨chars "s", chars "b", 0, 1, none⟩], [[97], [99]]⟩
    let a : AttrInfo := ⟨chars "r", chars "a", 0, 1, none⟩
    let b : AttrInfo := ⟨chars "s", chars "b", 0, 1, none⟩
    ∃ st g results', r.Holds st ∧ s.Holds st ∧
      Returns Flat.handle (quNLJoin · (chars "t") [a, b] a .lt b) st (.ok, st.put (chars "t") g) ∧
      Table (st.put (chars "t") g) (chars "t") id results' ∧ results'.map Prod.snd = [[98, 99]] := by
  intro r s a b
  let t : Setup := ⟨chars "t", [⟨chars "t", chars "c", 0, 2, none⟩], []⟩
  let a' : AttrDesc := ⟨chars "r", chars "a", 0, 0, 1⟩
  let b' : AttrDesc := ⟨chars "s", chars "b", 0, 0, 1⟩
  obtain ⟨st, holds⟩ := exists_database [r, s, t] (by decide) (by decide)
  obtain ⟨records, relation, contents⟩ := holds r (by simp)
  obtain ⟨others, relation', contents'⟩ := holds s (by simp)
  obtain ⟨results, table, empty⟩ := holds t (by simp)
  have names₁ : a.Names (chars "r") r.attrs a' := ⟨rfl, by decide, rfl, by decide⟩
  have names₂ : b.Names (chars "s") s.attrs b' := ⟨rfl, by decide, rfl, by decide⟩
  obtain ⟨g, results', returns, table', gained, _⟩ :=
    quNLJoin_theta_join .lt relation relation' (by decide)
    names₁ names₂ ⟨rfl, rfl⟩ rfl rfl (.inl rfl) (.cons (.inl names₁) (.cons (.inr names₂) .nil))
      (by decide) (by decide) table.table
    (by decide) (by decide) (by decide)
  refine ⟨st, g, results', ⟨records, relation, contents⟩, ⟨others, relation', contents'⟩, returns,
    table', ?_⟩
  have output : (r.contents.flatMap fun o =>
    (s.contents.filter fun i => (joinFilter a' b' .lt o).matchRec i).map
      fun i => projection (fun d => if d ∈ r.attrs then o else i) [a', b']) = [[98, 99]] := by decide
  have gained' : Gained results results' [[98, 99]] := by
    rw [← output, ← contents, ← contents', ← flatMap_contents]
    exact gained
  have perm := gained'.contents
  rw [empty] at perm
  exact List.perm_singleton.mp perm

end scan
end Minirel
