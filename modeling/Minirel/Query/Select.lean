import Mathlib.Algebra.BigOperators.Group.List.Basic
import Minirel.Query.Populate

/-! Selection is filter, then project. -/
namespace Minirel
open Program

/-! The descriptors of the projection list. -/

section place
variable {projNames : List AttrInfo} {attrs descs : List AttrDesc} {given : List (Option AttrDesc)}
    {attr : AttrDesc}
  {reclen : Int}

/-- The number of positions that name the attribute. -/
def mentions (projNames : List AttrInfo) (attr : AttrDesc) : Nat :=
  projNames.countP fun proj => attr.attrName = proj.attrName

theorem placeAttr_fst (attr : AttrDesc) (projNames : List AttrInfo) (given : List (Option AttrDesc))
    (reclen : Int) :
    (placeAttr attr projNames given reclen).1 =
      List.zipWith (fun proj desc => if attr.attrName = proj.attrName then some attr else desc)
        projNames given := by
  induction projNames generalizing given reclen with
  | nil => rfl
  | cons proj projNames ih =>
    cases given with
    | nil => rfl
    | cons desc given =>
      rw [placeAttr, List.zipWith_cons_cons]
      split
      · simp only [ih]
      · simp only [ih]

theorem mentions_cons_hit {proj : AttrInfo} (hit : attr.attrName = proj.attrName) :
    mentions (proj :: projNames) attr = mentions projNames attr + 1 := by
  simp [mentions, hit]

theorem mentions_cons_miss {proj : AttrInfo} (miss : attr.attrName ≠ proj.attrName) :
    mentions (proj :: projNames) attr = mentions projNames attr := by
  simp [mentions, miss]

theorem int_int_add (x y : Int) : int (int x + y) = int (x + y) := Int.bmod_add_bmod ..

theorem placeAttr_snd (attr : AttrDesc) (same : projNames.length = given.length)
    (fits : int reclen = reclen) :
    (placeAttr attr projNames given reclen).2 =
      int (reclen + attr.attrLen * mentions projNames attr) := by
  induction projNames generalizing given reclen with
  | nil => simp [placeAttr, mentions, fits]
  | cons proj projNames ih =>
    cases given with
    | nil => cases same
    | cons desc given =>
      rw [placeAttr]
      by_cases hit : attr.attrName = proj.attrName
      · rw [if_pos hit, mentions_cons_hit hit]
        simp only [ih (Nat.succ.inj same) (int_int _), int_int_add, Nat.cast_add, Nat.cast_one,
          mul_add, mul_one]
        congr 1
        omega
      · rw [if_neg hit, mentions_cons_miss hit]
        exact ih (Nat.succ.inj same) fits

theorem placeAttrs_snd (same : projNames.length = given.length) (fits : int reclen = reclen) :
    (placeAttrs projNames attrs given reclen).2 =
      int (reclen + (attrs.map fun attr => attr.attrLen * mentions projNames attr).sum) := by
  induction attrs generalizing given reclen with
  | nil => simp [placeAttrs, fits]
  | cons attr attrs ih =>
    have length : projNames.length = (placeAttr attr projNames given reclen).1.length := by
      rw [placeAttr_fst, List.length_zipWith, same, Nat.min_self]
    have sum := placeAttr_snd attr same fits
    rw [placeAttrs]
    simp only
    rw [ih length (by rw [sum, int_int]), sum, int_int_add, List.map_cons, List.sum_cons, add_assoc]

/-- The list names these attributes of the relation, position by position. -/
def Projects (attrs : List AttrDesc) : List AttrInfo → List AttrDesc → Prop :=
  List.Forall₂ fun proj d => d ∈ attrs ∧ d.attrName = proj.attrName

theorem Projects.listed (projects : Projects attrs projNames descs) : ∀ d ∈ descs, d ∈ attrs :=
  Pointwise.forall_right projects fun _ _ named => named.1

/-- Each attribute is named once in the relation, so the lengths add up to the
sum over the list. -/
theorem sum_mentions (distinct : (attrs.map AttrDesc.attrName).Nodup)
    (projects : Projects attrs projNames descs) :
    (attrs.map fun attr => attr.attrLen * (mentions projNames attr : Int)).sum =
      AttrDesc.total descs := by
  induction projects with
  | nil => simp [mentions, AttrDesc.total]
  | @cons proj d projNames descs named _ ih =>
    obtain ⟨listed, name⟩ := named
    have split : ∀ attr ∈ attrs, attr.attrLen * (mentions (proj :: projNames) attr : Int) =
        (if attr = d then d.attrLen else 0) + attr.attrLen * (mentions projNames attr : Int) := by
      intro attr member
      by_cases same : attr = d
      · rw [mentions_cons_hit (same ▸ name), if_pos same, same, Nat.cast_add, Nat.cast_one, mul_add,
          mul_one, add_comm]
      · have miss : attr.attrName ≠ proj.attrName := fun hit =>
          same (List.inj_on_of_nodup_map distinct member listed (hit.trans name.symm))
        rw [mentions_cons_miss miss, if_neg same, zero_add]
    have once : (attrs.map fun attr => if attr = d then d.attrLen else 0).sum = d.attrLen := by
      have count : attrs.count d = 1 := List.count_eq_one_of_mem distinct.of_map listed
      rw [List.sum_map_ite_eq attrs (fun _ => d.attrLen) (fun _ => 0) d, count]
      simp
    rw [List.map_congr_left split, List.sum_map_add, ih, once, AttrDesc.total, AttrDesc.total,
      List.map_cons, List.sum_cons]

def lastNamed (name : Name) (desc : Option AttrDesc) (attrs : List AttrDesc) : Option AttrDesc :=
  attrs.foldl (fun desc attr => if attr.attrName = name then some attr else desc) desc

theorem lastNamed_cons {name : Name} {desc : Option AttrDesc} :
    lastNamed name desc (attr :: attrs) =
    lastNamed name (if attr.attrName = name then some attr else desc) attrs := rfl

theorem lastNamed_of_forall_ne {name : Name} (desc : Option AttrDesc)
    (apart : ∀ attr ∈ attrs, attr.attrName ≠ name) :
    lastNamed name desc attrs = desc := by
  induction attrs generalizing desc with
  | nil => rfl
  | cons attr attrs ih =>
    rw [List.forall_mem_cons] at apart
    rw [lastNamed_cons, if_neg apart.1, ih desc apart.2]

theorem lastNamed_of_mem {d : AttrDesc} (desc : Option AttrDesc)
    (distinct : (attrs.map AttrDesc.attrName).Nodup) (listed : d ∈ attrs) :
    lastNamed d.attrName desc attrs = some d := by
  induction attrs generalizing desc with
  | nil => cases listed
  | cons attr attrs ih =>
    rw [List.map_cons, List.nodup_cons] at distinct
    rw [lastNamed_cons]
    rcases List.mem_cons.mp listed with rfl | listed
    · rw [if_pos rfl]
      exact lastNamed_of_forall_ne _ fun attr member same =>
        distinct.1 (same ▸ List.mem_map_of_mem member)
    · exact ih _ distinct.2 listed

theorem placeAttrs_fst (same : projNames.length = given.length) :
    (placeAttrs projNames attrs given reclen).1 =
    List.zipWith (fun proj desc => lastNamed proj.attrName desc attrs) projNames given := by
  induction attrs generalizing given reclen with
  | nil =>
    rw [placeAttrs]
    exact List.ext_getElem (by simp [same]) fun i _ _ => by simp [lastNamed]
  | cons attr attrs ih =>
    have length : projNames.length = (placeAttr attr projNames given reclen).1.length := by
      rw [placeAttr_fst, List.length_zipWith, same, Nat.min_self]
    rw [placeAttrs]
    simp only
    rw [ih length, placeAttr_fst]
    exact List.ext_getElem (by simp) fun i _ _ => by simp [lastNamed_cons]

theorem zipWith_lastNamed (distinct : (attrs.map AttrDesc.attrName).Nodup)
    (projects : Projects attrs projNames descs) :
    List.zipWith (fun proj desc => lastNamed proj.attrName desc attrs) projNames
      (projNames.map fun _ => none) = descs.map some := by
  induction projects with
  | nil => rfl
  | cons named _ ih =>
    rw [List.map_cons, List.zipWith_cons_cons, ih, ← named.2, lastNamed_of_mem _ distinct named.1,
      List.map_cons]

/-- Each position gets its descriptor, and the length adds up. -/
theorem placeAttrs_spec (distinct : (attrs.map AttrDesc.attrName).Nodup)
    (projects : Projects attrs projNames descs) :
    placeAttrs projNames attrs (projNames.map fun _ => none) 0 =
      (descs.map some, int (AttrDesc.total descs)) := by
  have same : projNames.length = (projNames.map fun _ => (none : Option AttrDesc)).length := by simp
  refine Prod.ext ?_ ?_
  · rw [placeAttrs_fst same, zipWith_lastNamed distinct projects]
  · rw [placeAttrs_snd same rfl, zero_add, sum_mentions distinct projects]

end place

section scan
variable {st : Flat} {name result : Name} {descs : List AttrDesc}
    {records todo results : List Entry} {reclen : Int}
  {s : HeapFileScan} {h : HeapFile}

/-- If there is nothing to select, then the result may be the relation itself, and
its tuples may be too long for a page. -/
theorem selectLoop_spec (cursor : Cursor s st name id records todo)
    (inserter : Inserter h st result results) (inside : ∀ r ∈ todo, ∀ d ∈ descs, d.Inside r.2)
    (total : reclen = AttrDesc.total descs) (low : 1 ≤ reclen)
    (room : todo ≠ [] → name ≠ result ∧ reclen ≤ 1000) :
    ∃ s' h' g results', Returns Flat.handle (selectLoop (descs.map some) reclen · s h) st
        ((.ok, s', h'), st.put result g) ∧
      Cursor s' (st.put result g) name id records [] ∧
        Inserter h' (st.put result g) result results' ∧
      Gained results results' (todo.map fun r => projection (fun _ => r.2) descs) := by
  induction todo generalizing st s h results with
  | nil =>
    obtain ⟨t, next, cursor'⟩ := cursor.eof
    obtain ⟨f, _, _, there, _⟩ := id inserter
    refine ⟨t, h, f, results, ?_, ?_, ?_, .refl _⟩
    · rw [Flat.put_self there]
      exact .round (.bind next (.of_run rfl)) (fun _ => rfl)
    · rwa [Flat.put_self there]
    · rwa [Flat.put_self there]
  | cons r todo ih =>
    rw [List.forall_mem_cons] at inside
    have room := room (List.cons_ne_nil r todo)
    obtain ⟨t, next, on⟩ := cursor.next
    obtain ⟨rid, h', g, results', insert, inserter', gained⟩ :=
      insert_output inserter inside.1 total low room.2
    obtain ⟨s', h'', g', results'', rest, ended, inserter'', gained'⟩ :=
      ih (on.cursor.congr (Flat.files_put_of_ne g room.1)) inserter' inside.2 fun _ => room
    rw [Flat.put_put] at rest ended inserter''
    refine ⟨s', h'', g', results'', ?_, ended, inserter'', gained.trans gained'⟩
    have copy := copyAttrs_spec st inside.1
    exact .round (.bind next (.after on.getRecord (.after copy (.after insert rest)))) (fun _ => rfl)

/-- The result gains the projection of every record that matches. -/
theorem scanSelect_spec {attrs : List AttrDesc} {filter : Option Filter}
    (relation : Relation st name attrs records) (table : Table st result id results)
    (resultNamed : result ≠ []) (listed : ∀ d ∈ descs, d ∈ attrs) (low : 1 ≤ AttrDesc.total descs)
    (accepted : ∀ φ, filter = some φ → φ.accepted = true)
    (room : (records.filter fun r => filter.all (·.matchRec r.2)) ≠ [] → name ≠ result ∧
      AttrDesc.total descs ≤ 1000) :
    ∃ g results', Returns Flat.handle
      (scanSelect · result (descs.map some) filter (AttrDesc.total descs)) st
        (.ok, st.put result g) ∧
      Table (st.put result g) result id results' ∧
      Gained results results'
        ((records.filter fun r => filter.all (·.matchRec r.2)).map fun r =>
          projection (fun _ => r.2) descs) := by
  cases descs with
  | nil => exact absurd low (by decide)
  | cons first descs =>
    have source : first.relName = name := relation.relName (listed first List.mem_cons_self)
    obtain ⟨h, newResult, inserter⟩ := table.openInserter resultNamed
    have table' : Table (st.opened result) name id records := relation.table.congr rfl
    obtain ⟨s, newScan, fresh, cursor⟩ := table'.open relation.named
    obtain ⟨t, start, _, cursor'⟩ := cursor.start fresh accepted
    have inserter' : Inserter h ((st.opened result).opened name) result results := inserter.congr rfl
    obtain ⟨s', h', g, results', loop, ended, inserter'', gained⟩ :=
      selectLoop_spec cursor' inserter'
        (fun r member d of => relation.inside (listed d of) (List.mem_of_mem_filter member)) rfl
          low room
    rw [← Flat.opened_put] at loop ended inserter''
    have closing : Inserter h' ((st.put result g).opened result) result results' := inserter''.congr rfl
    refine ⟨g, results', ?_, closing.table.congr rfl, gained⟩
    refine .after newResult ?_
    simp only [List.map_cons, source]
    refine .after newScan ?_
    simp only [start, ne_eq, not_true_eq_false, if_false]
    exact .bind loop (.after ended.delete (.after closing.delete (.of_run rfl)))

/-- The condition of a selection, on the attribute as the catalog describes it. -/
def condition (atof : Name → Nat) (d : AttrDesc) (op : Operator) (text : Name) : Filter :=
  d.filter (datatypeOf d.attrType) (literal atof (datatypeOf d.attrType) text) op

end scan

/-- The filter that a condition on a relation stands for, if any. -/
inductive Where (atof : Name → Nat) (attrs : List AttrDesc) (op : Operator) :
    Option AttrInfo → Option Name → Option Filter → Prop
  | always (attrValue : Option Name) : Where atof attrs op none attrValue none
  | compare {d : AttrDesc} {attr : AttrInfo} (text : Name) (listed : d ∈ attrs)
      (name : d.attrName = attr.attrName)
      (literalType : 0 ≤ attr.attrType ∧ attr.attrType ≤ 2)
      (type : d.attrType = 0 ∨ d.attrType = 1 ∧ d.attrLen = 4) :
      Where atof attrs op (some attr) (some text) (some (condition atof d op text))

theorem quSelect_spec {st : Flat} {name result : Name} {attrs descs : List AttrDesc}
    {records results : List Entry} {projNames : List AttrInfo} {attr : Option AttrInfo}
    {attrValue : Option Name} {filter : Option Filter} {op : Operator} (atof : Name → Nat)
    (relation : Relation st name attrs records) (projects : Projects attrs projNames descs)
    (source : ∀ proj ∈ projNames, proj.relName = name) (low : 1 ≤ AttrDesc.total descs)
    (high : AttrDesc.total descs ≤ 1000) (condition : Where atof attrs op attr attrValue filter)
    (table : Table st result id results) (resultNamed : result ≠ []) (apart : name ≠ result) :
    ∃ g results', Returns Flat.handle (quSelect atof · result projNames attr op attrValue) st
      (.ok, st.put result g) ∧ Table (st.put result g) result id results' ∧
      Gained results results'
        ((records.filter fun r => filter.all (·.matchRec r.2)).map fun r =>
          projection (fun _ => r.2) descs) := by
  obtain ⟨cat, rep, rows⟩ := relation.described
  have listed := projects.listed
  have width : int (AttrDesc.total descs) = AttrDesc.total descs := int_of_fits (by omega) (by omega)
  have accepted : ∀ φ, filter = some φ → φ.accepted = true := by
    rintro φ rfl
    cases condition with
    | compare text listed' name type kind =>
      obtain ⟨offset, length, _⟩ := relation.placed _ listed'
      exact AttrDesc.Comparable.accepted ⟨offset, length, kind.imp_right And.right⟩ _ op
  obtain ⟨g, results', scan, table', gained⟩ :=
    scanSelect_spec relation table resultNamed listed low accepted fun _ => ⟨apart, high⟩
  refine ⟨g, results', ?_, table', gained⟩
  have info := AttrCatalog.getRelInfo_spec rep relation.terminated relation.named
  cases projects with
  | nil => exact absurd low (by decide)
  | @cons first d projNames descs named rest =>
    have described : cat.rows name ≠ [] := by
      rw [rows]
      exact List.ne_nil_of_mem named.1
    rw [if_neg described, rows] at info
    have placed := placeAttrs_spec relation.distinct (.cons named rest)
    rw [width] at placed
    have head : first.relName = name := source first List.mem_cons_self
    cases condition with
    | always attrValue =>
      simp only [quSelect, Option.any_none, Bool.false_eq_true, if_false, head]
      refine .bind info ?_
      simp only [placed]
      exact scan
    | @compare d' attr text listed' name' type kind =>
      have sane : ¬ (attr.attrType < 0 || attr.attrType > 2) = true := by simp; omega
      have found := relation.filter_name listed'
      rw [name'] at found
      simp only [quSelect, Option.any_some, sane, head]
      refine .bind info ?_
      simp only [placed, found]
      exact scan

/-- `QU_Select` adds a record to the result for each record of the relation that
meets the condition: its fields in the order of the projection list. -/
theorem quSelect_filters_projects {st : Flat} {name result : Name} {attrs descs : List AttrDesc}
    {records results : List Entry} {projNames : List AttrInfo} {attr : Option AttrInfo}
    {attrValue : Option Name} {filter : Option Filter} {op : Operator} (atof : Name → Nat)
    (relation : Relation st name attrs records) (projects : Projects attrs projNames descs)
    (source : ∀ proj ∈ projNames, proj.relName = name) (low : 1 ≤ AttrDesc.total descs)
    (high : AttrDesc.total descs ≤ 1000) (condition : Where atof attrs op attr attrValue filter)
    (table : Table st result id results) (resultNamed : result ≠ []) (apart : name ≠ result) :
    ∃ g results', Returns Flat.handle (quSelect atof · result projNames attr op attrValue) st
      (.ok, st.put result g) ∧ (st.put result g).files name = st.files name ∧
        Table (st.put result g) result id results' ∧
      Gained results results'
        ((records.filter fun r => filter.all (·.matchRec r.2)).map fun r =>
          projection (fun _ => r.2) descs) ∧
      ∀ r ∈ records, ((projection (fun _ => r.2) descs).length : Int) = AttrDesc.total descs := by
  obtain ⟨g, results', returns, table', gained⟩ :=
    quSelect_spec atof relation projects source low high condition table resultNamed apart
  exact ⟨g, results', returns, Flat.files_put_of_ne g apart, table', gained,
    fun r member => projection_length fun d of => relation.inside (projects.listed d of) member⟩

/-- `select into t (r.b, r.a, r.b) where r.a < 2` on two records. -/
theorem quSelect_filters_projects_smaller :
    let r : Setup := ⟨chars "r",
      [⟨chars "r", chars "a", 1, 4, none⟩, ⟨chars "r", chars "b", 0, 2, none⟩],
        [[1, 0, 0, 0, 120, 121], [2, 0, 0, 0, 122, 122]]⟩
    let a : AttrInfo := ⟨chars "r", chars "a", 1, 4, none⟩
    let b : AttrInfo := ⟨chars "r", chars "b", 0, 2, none⟩
    ∃ st g results', r.Holds st ∧
      Returns Flat.handle (quSelect (fun _ => 0) · (chars "t") [b, a, b] (some a) .lt
        (some (chars "2")))
        st (.ok, st.put (chars "t") g) ∧
      Table (st.put (chars "t") g) (chars "t") id results' ∧
      results'.map Prod.snd = [[120, 121, 1, 0, 0, 0, 120, 121]] := by
  intro r a b
  let t : Setup := ⟨chars "t", [⟨chars "t", chars "c", 0, 8, none⟩], []⟩
  let a' : AttrDesc := ⟨chars "r", chars "a", 0, 1, 4⟩
  let b' : AttrDesc := ⟨chars "r", chars "b", 4, 0, 2⟩
  obtain ⟨st, holds⟩ := exists_database [r, t] (by decide) (by decide)
  obtain ⟨records, relation, contents⟩ := holds r (by simp)
  obtain ⟨results, relation', contents'⟩ := holds t (by simp)
  have listed : a' ∈ r.attrs ∧ b' ∈ r.attrs := by decide
  have projects : Projects r.attrs [b, a, b] [b', a', b'] :=
    .cons ⟨listed.2, rfl⟩ (.cons ⟨listed.1, rfl⟩ (.cons ⟨listed.2, rfl⟩ .nil))
  have compare : Where (fun _ => 0) r.attrs .lt (some a) (some (chars "2"))
      (some (condition (fun _ => 0) a' .lt (chars "2"))) :=
    .compare (chars "2") listed.1 rfl (by decide) (by decide)
  obtain ⟨g, results', returns, _, table, gained, _⟩ :=
    quSelect_filters_projects (fun _ => 0) relation projects
    (by decide) (by decide) (by decide) compare relation'.table (by decide) (by decide)
  have output : (r.contents.filter fun bytes =>
    (condition (fun _ => 0) a' .lt (chars "2")).matchRec bytes).map
      (fun bytes => projection (fun _ => bytes) [b', a', b']) = [[120, 121, 1, 0, 0, 0, 120, 121]] := by
    decide
  have gained' : Gained results results' [[120, 121, 1, 0, 0, 0, 120, 121]] := by
    rw [← output, ← contents, ← filter_map_contents]
    exact gained
  have perm := gained'.contents
  rw [contents'] at perm
  exact ⟨st, g, results', ⟨records, relation, contents⟩, returns, table, List.perm_singleton.mp perm⟩

end Minirel
