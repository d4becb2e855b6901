import Minirel.Query.Endless
import Minirel.Query.Select
import Minirel.Query.Source

/-! Queries into a relation that exists, from the interpreter on. They end with the
records they should add unless they read the relation they insert into, or its
tuples are too long for a page. -/
namespace Minirel
open Program

/-- What a query reads: a relation, those of its tuples that meet a condition, or
the pairs of tuples of two relations that do. -/
inductive Reads
  | all (source : Source)
  | only (source : Source) (d : AttrDesc) (op : Operator) (value : Value)
  | pairs (left right : Source) (x : AttrDesc) (op : Operator) (y : AttrDesc)

def AttrDesc.qualified (d : AttrDesc) : QualAttr := ⟨d.relName, d.attrName⟩

namespace Reads

def sources : Reads → List Source
  | .all source => [source]
  | .only source .. => [source]
  | .pairs left right .. => [left, right]

def qual : Reads → Option Qual
  | .all _ => none
  | .only _ d op value => some (.select d.qualified op value)
  | .pairs _ _ x op y => some (.join x.qualified op y.qualified)

/-- The attributes of the condition exist, its value is not too long, and a join is
one by nested loops. -/
def Sound (joinMethod : JoinType) : Reads → Prop
  | .all _ => True
  | .only source d _ value => d ∈ source.attrs ∧ value.fits = true
  | .pairs left right x op y =>
    x ∈ left.attrs ∧ y ∈ right.attrs ∧ (joinMethod = .nlJoin ∨ joinMethod = .hashJoin ∧ op ≠ .eq)

end Reads

/-- `select items into T from ... where ...` that passes the check of the types. A
relation that occurs twice has the same attributes. -/
structure IntoQuery where
  target : Source
  joinMethod : JoinType
  reading : Reads
  items : List AttrDesc
  sound : reading.Sound joinMethod
  known : ∀ s ∈ reading.sources, ∀ s' ∈ target :: reading.sources, s.relation = s'.relation → s = s'
  listed : ∀ d ∈ items, ∃ s ∈ reading.sources, d ∈ s.attrs
  checked : List.Forall₂ (fun d t => d.attrType = t.attrType ∧ d.attrLen = t.attrLen) items target.attrs
  room : items.length < maxAttrs

namespace IntoQuery

def node (q : IntoQuery) : QueryNode :=
  ⟨some q.target.relation, q.items.map AttrDesc.qualified, q.reading.qual⟩

/-- The records to be added, by the contents of the relations. -/
def records (q : IntoQuery) (atof : Name → Nat) (contents : Name → List Entry) :
    List (List UInt8) :=
  match q.reading with
  | .all source => (contents source.relation).map fun r => projection (fun _ => r.2) q.items
  | .only source d op value => ((contents source.relation).filter fun r =>
      (condition atof d op value.text).matchRec r.2).map fun r => projection (fun _ => r.2) q.items
  | .pairs left right x op y =>
    joined left.relation q.items x y op (contents left.relation) (contents right.relation)

/-- The state has the relations that the query reads with these contents. -/
def Holds (q : IntoQuery) (st : Flat) (contents : Name → List Entry) : Prop :=
  ∀ s ∈ q.reading.sources, Relation st s.relation s.attrs (contents s.relation)

/-- In every state the query ends, and the relation has gained the records that the
contents at its start determine. -/
def Completes (q : IntoQuery) (atof : Name → Nat) : Prop :=
  ∀ (st : Flat) (counter : Nat) (contents : Name → List Entry) (results : List Entry),
    q.Holds st contents → Relation st q.target.relation q.target.attrs results →
    ∃ g results', Returns Flat.handle (runQuery atof q.joinMethod · q.node counter) st
        ((.ok .ok, counter), st.put q.target.relation g) ∧
      Table (st.put q.target.relation g) q.target.relation id results' ∧
        Gained results results' (q.records atof contents)

/-- Nothing is ever added: a relation that is read has tuples that are too long for
a page, so that it has none, or no tuple meets the condition. -/
def Barren (q : IntoQuery) (atof : Name → Nat) : Prop :=
  (∃ s ∈ q.reading.sources, 1000 < AttrDesc.total s.attrs) ∨
    ∃ source d op value, q.reading = .only source d op value ∧
      ∀ o, source.Tuple o → (condition atof d op value.text).matchRec o = false

/-- The query does not read the relation it inserts into, and the tuples of that
relation fit on a page; or nothing is ever added. -/
def Confined (q : IntoQuery) (atof : Name → Nat) : Prop :=
  (∀ s ∈ q.reading.sources, s.relation ≠ q.target.relation) ∧ AttrDesc.total q.target.attrs ≤ 1000 ∨
    q.Barren atof

/-! Up to the loops. -/

def scan (q : IntoQuery) (atof : Name → Nat) (fuel : Nat) : Prog Status :=
  match q.reading with
  | .all _ => scanSelect fuel q.target.relation (q.items.map some) none (AttrDesc.total q.items)
  | .only _ d op value =>
    scanSelect fuel q.target.relation (q.items.map some) (some (condition atof d op value.text))
      (AttrDesc.total q.items)
  | .pairs _ _ x op y => joinScan fuel q.target.relation q.items x op y

end IntoQuery

theorem mkAttrnames_eq {name : Name} (relname : Option Name) {list : List QualAttr} {room : Nat}
    (fits : list.length < room) (given : ∀ n, relname = some n → n = name)
    (of : ∀ attr ∈ list, attr.relname = name) :
    ∃ relname', mkAttrnames room relname list = .ok (list.map QualAttr.attrname, relname') ∧
      (list ≠ [] ∨ relname ≠ none → relname' = some name) := by
  induction list generalizing room relname with
  | nil =>
    cases room with
    | zero => cases fits
    | succ room =>
      refine ⟨relname, rfl, fun known => ?_⟩
      obtain ⟨n, same⟩ := Option.ne_none_iff_exists'.mp (known.resolve_left (absurd rfl))
      rw [same, given n same]
  | cons attr list ih =>
    cases room with
    | zero => cases fits
    | succ room =>
      rw [List.forall_mem_cons] at of
      have first : relname.getD attr.relname = name := by
        cases relname with
        | none => exact of.1
        | some n => exact given n rfl
      have agree : ¬ (relname.any fun n => n ≠ attr.relname) = true := by
        cases relname with
        | none => simp
        | some n => simp [given n rfl, of.1]
      obtain ⟨relname', rest, known⟩ :=
        ih (some (relname.getD attr.relname)) (Nat.lt_of_succ_lt_succ fits)
        (fun n same => (Option.some.inj same).symm.trans first) of.2
      refine ⟨relname', ?_, fun _ => known (.inr (by simp))⟩
      rw [mkAttrnames, if_neg agree, rest]
      rfl

theorem mkQualAttrs_eq {name name' : Name} {list : List QualAttr} {room : Nat}
    (fits : list.length < room) (of : ∀ attr ∈ list, attr.relname = name ∨ attr.relname = name') :
    mkQualAttrs name name' room list = .ok list := by
  induction list generalizing room with
  | nil =>
    cases room with
    | zero => cases fits
    | succ room => rfl
  | cons attr list ih =>
    cases room with
    | zero => cases fits
    | succ room =>
      rw [List.forall_mem_cons] at of
      have known : ¬ (attr.relname ≠ name ∧ attr.relname ≠ name') := by tauto
      rw [mkQualAttrs, if_neg known, ih (by simpa using fits) of.2]

namespace IntoQuery
variable {q : IntoQuery} {st st' : Flat} {contents : Name → List Entry} {results : List Entry}

theorem listed_single {source : Source} (sources : q.reading.sources = [source]) :
    ∀ d ∈ q.items, d ∈ source.attrs := by
  intro d member
  obtain ⟨s, read, listed⟩ := q.listed d member
  rw [sources, List.mem_singleton] at read
  exact read ▸ listed

theorem listed_pair {left right : Source} (sources : q.reading.sources = [left, right]) :
    ∀ d ∈ q.items, d ∈ left.attrs ∨ d ∈ right.attrs := by
  intro d member
  obtain ⟨s, read, listed⟩ := q.listed d member
  rw [sources, List.mem_pair] at read
  rcases read with rfl | rfl
  · exact .inl listed
  · exact .inr listed

theorem found (holds : q.Holds st contents) {s : Source} {d : AttrDesc}
    (read : s ∈ q.reading.sources) (listed : d ∈ s.attrs) :
    Found st d.qualified.info d := by
  rw [AttrDesc.qualified, Source.relName listed]
  exact Source.found (holds s read) listed

theorem found_items (holds : q.Holds st contents) : ∀ d ∈ q.items, Found st d.qualified.info d := by
  intro d member
  obtain ⟨s, read, listed⟩ := q.listed d member
  exact found holds read listed

theorem findResult_spec (relation : Relation st q.target.relation q.target.attrs results) :
    Returns Flat.handle (findResult · (some q.target.relation)) st
      (.ok (some q.target.attrs), st) := by
  obtain ⟨cat, rep, rows⟩ := relation.described
  have info := AttrCatalog.getRelInfo_spec rep relation.terminated relation.named
  rw [rows, if_neg q.target.attrs_ne_nil] at info
  exact .bind info (.of_run rfl)

theorem checkAttrs_spec {items attrs : List AttrDesc}
    (found : ∀ d ∈ items, Found st d.qualified.info d)
    (checked : List.Forall₂ (fun d t : AttrDesc => d.attrType = t.attrType ∧ d.attrLen = t.attrLen)
      items attrs) :
    Returns Flat.handle (checkAttrs · (items.map fun d => d.qualified.info) attrs) st
      (.ok, st) := by
  induction checked with
  | nil => exact .of_run rfl
  | @cons d t items attrs same _ ih =>
    rw [List.forall_mem_cons] at found
    refine .bind found.1 ?_
    simp only [same, ne_eq, not_true_eq_false, or_self, if_false]
    exact ih found.2

def projNames (q : IntoQuery) : List AttrInfo := q.items.map fun d => d.qualified.info

def call (q : IntoQuery) (atof : Name → Nat) (fuel : Nat) : Prog Status :=
  match q.reading with
  | .all _ => quSelect atof fuel q.target.relation q.projNames none .lt none
  | .only source d op value => quSelect atof fuel q.target.relation q.projNames
      (some ⟨source.relation, d.attrName, value.type.code, -1, some value.text⟩) op (some value.text)
  | .pairs _ _ x op y =>
    quNLJoin fuel q.target.relation q.projNames x.qualified.info op y.qualified.info

theorem items_ne_nil (q : IntoQuery) : q.items ≠ [] := by
  intro empty
  have length := q.checked.length_eq
  rw [empty] at length
  exact q.target.attrs_ne_nil (List.length_eq_zero_iff.mp length.symm)

theorem plan_eq (q : IntoQuery) (atof : Name → Nat) :
    ∃ rename, plan atof q.joinMethod q.target.relation q.node =
    .ok ⟨q.projNames, rename, q.call atof⟩ := by
  have sound := q.sound
  have fits : (q.items.map AttrDesc.qualified).length < maxAttrs := by
    rw [List.length_map]; exact q.room
  have nonempty : q.items.map AttrDesc.qualified ≠ [] := by simpa using q.items_ne_nil
  have single (source : Source) (only : ∀ d ∈ q.items, d ∈ source.attrs) :
      (q.items.map AttrDesc.qualified).map
        (fun attr => QualAttr.info ⟨source.relation, attr.attrname⟩) = q.projNames := by
    rw [projNames, List.map_map]
    refine List.map_congr_left fun d member => ?_
    rw [Function.comp_apply, AttrDesc.qualified, Source.relName (only d member)]
  have named (source : Source) (only : ∀ d ∈ q.items, d ∈ source.attrs) :
      ∀ attr ∈ q.items.map AttrDesc.qualified, attr.relname = source.relation :=
    List.forall_mem_map.mpr fun d member => Source.relName (only d member)
  rw [plan, node]
  cases reading : q.reading with
  | all source =>
    have only := listed_single (q := q) (by rw [reading]; rfl)
    have call : q.call atof = fun fuel =>
        quSelect atof fuel q.target.relation q.projNames none .lt none :=
      funext fun fuel => by rw [call, reading]
    obtain ⟨relname, made, known⟩ := mkAttrnames_eq none fits (by simp) (named source only)
    refine ⟨false, ?_⟩
    rw [call, ← single source only, List.map_map]
    simp only [Reads.qual, made, known (.inl nonempty), Option.getD_some, List.map_map]
    rfl
  | only source d op value =>
    have only := listed_single (q := q) (by rw [reading]; rfl)
    have call : q.call atof = fun fuel => quSelect atof fuel q.target.relation q.projNames
        (some ⟨source.relation, d.attrName, value.type.code, -1, some value.text⟩) op
          (some value.text) :=
      funext fun fuel => by rw [call, reading]
    rw [reading] at sound
    obtain ⟨relname, made, known⟩ := mkAttrnames_eq (some source.relation) fits (by simp)
      (named source only)
    refine ⟨false, ?_⟩
    have relName : d.qualified.relname = source.relation := Source.relName sound.1
    rw [call, ← single source only, List.map_map]
    simp only [Reads.qual, relName, made, known (.inl nonempty), Option.getD_some, List.map_map]
    rfl
  | pairs left right x op y =>
    have call : q.call atof = fun fuel =>
        quNLJoin fuel q.target.relation q.projNames x.qualified.info op y.qualified.info :=
      funext fun fuel => by rw [call, reading]
    rw [reading] at sound
    obtain ⟨first, second, method⟩ := sound
    have of : ∀ attr ∈ q.items.map AttrDesc.qualified,
        attr.relname = x.qualified.relname ∨ attr.relname = y.qualified.relname := by
      rw [List.forall_mem_map]
      intro d member
      have listed := listed_pair (q := q) (by rw [reading]; rfl) d member
      simp only [AttrDesc.qualified, Source.relName first, Source.relName second]
      exact listed.imp Source.relName Source.relName
    refine ⟨true, ?_⟩
    simp only [Reads.qual, mkQualAttrs_eq fits of, List.map_map, call, quJoin, method, if_true]
    rfl

theorem namesFit_eq (q : IntoQuery) : namesFit q.target.relation q.node = true := by
  have short {s : Source} {d : AttrDesc} (listed : d ∈ s.attrs) :
      (d.qualified.relname.length < maxName) ∧ (d.qualified.attrname.length < maxName) :=
        Source.short listed
  have items : ∀ attr ∈ q.items.map AttrDesc.qualified,
      attr.relname.length < maxName ∧ attr.attrname.length < maxName := by
    rw [List.forall_mem_map]
    intro d member
    obtain ⟨s, _, listed⟩ := q.listed d member
    exact short listed
  have target := q.target.name.fits
  have sound := q.sound
  cases reading : q.reading with
  | all source => simpa [namesFit, node, reading, Reads.qual, target] using items
  | only source d op value =>
    rw [reading] at sound
    simpa [namesFit, node, reading, Reads.qual, target, short sound.1, sound.2] using items
  | pairs left right x op y =>
    rw [reading] at sound
    simpa [namesFit, node, reading, Reads.qual, target, short sound.1, short sound.2.1] using items

/-- The statement returns what its call returns. -/
theorem runQuery_iff (atof : Name → Nat) (counter : Nat) (holds : q.Holds st contents)
    (relation : Relation st q.target.relation q.target.attrs results) :
    Returns Flat.handle (runQuery atof q.joinMethod · q.node counter) st ((.ok .ok, counter), st') ↔
      Returns Flat.handle (q.call atof) st (.ok, st') := by
  obtain ⟨rename, planned⟩ := q.plan_eq atof
  have length := q.checked.length_eq
  have check : Returns Flat.handle (checkAttrs · q.projNames q.target.attrs) st (.ok, st) :=
    checkAttrs_spec (found_items holds) q.checked
  have prepare : Returns Flat.handle
    (prepareResult · q.target.relation (some q.target.attrs) ⟨q.projNames, rename, q.call atof⟩
      counter) st ((.ok, counter), st) := by
    have same : ¬ q.projNames.length ≠ q.target.attrs.length := by
      rw [projNames, List.length_map, length]; exact absurd rfl
    simp only [prepareResult, same, if_false]
    exact .bind check (.of_run rfl)
  have inj : Function.Injective fun status => ((.ok status, counter) : Except Message Status × Nat) :=
    fun a b same => by simpa using same
  rw [← Returns.wrap_iff inj]
  refine (Returns.bind_iff (findResult_spec relation)).trans ?_
  simp only [node, Option.getD_some]
  change Returns Flat.handle
    (fun fuel => performQuery atof q.joinMethod fuel q.target.relation (some q.target.attrs)
    q.node counter) st _ ↔ _
  simp only [performQuery, q.namesFit_eq, planned]
  refine (Returns.bind_iff prepare).trans ?_
  exact Iff.rfl

theorem total_items (q : IntoQuery) : AttrDesc.total q.items = AttrDesc.total q.target.attrs := by
  have checked := q.checked
  rw [AttrDesc.total, AttrDesc.total]
  generalize q.items = items, q.target.attrs = attrs at checked
  induction checked with
  | nil => rfl
  | cons same _ ih => rw [List.map_cons, List.map_cons, List.sum_cons, List.sum_cons, ih, same.2]

theorem total_bounds (q : IntoQuery) : 1 ≤ AttrDesc.total q.items ∧
    AttrDesc.total q.items < 2 ^ 31 := by
  rw [q.total_items]
  obtain ⟨t, listed⟩ := List.exists_mem_of_ne_nil _ q.target.attrs_ne_nil
  obtain ⟨low, length, high⟩ := Source.placed listed
  refine ⟨by omega, ?_⟩
  rw [Source.total]
  exact q.target.declared.width

theorem projects {source : Source} (only : ∀ d ∈ q.items, d ∈ source.attrs) :
    Projects source.attrs q.projNames q.items := by
  rw [Projects, projNames, List.forall₂_map_left_iff, List.forall₂_same]
  exact fun d member => ⟨only d member, rfl⟩

theorem quSelect_iff {source : Source} {records : List Entry} {attr : Option AttrInfo}
    {op : Operator} {text : Option Name}
    {filter : Option Filter} {r : Status × Flat} (atof : Name → Nat)
    (relation : Relation st source.relation source.attrs records)
    (only : ∀ d ∈ q.items, d ∈ source.attrs)
    (condition : attr = none ∧ filter = none ∨ ∃ d ∈ source.attrs, ∃ info value,
      attr = some info ∧ text = some value ∧ info.attrName = d.attrName ∧ 0 ≤ info.attrType ∧
        info.attrType ≤ 2 ∧ filter = some (condition atof d op value)) :
    Returns Flat.handle (quSelect atof · q.target.relation q.projNames attr op text) st r ↔
      Returns Flat.handle (scanSelect · q.target.relation (q.items.map some) filter
        (AttrDesc.total q.items)) st r := by
  obtain ⟨cat, rep, rows⟩ := relation.described
  obtain ⟨low, high⟩ := q.total_bounds
  have info := AttrCatalog.getRelInfo_spec rep relation.terminated relation.named
  rw [rows, if_neg source.attrs_ne_nil] at info
  have placed := placeAttrs_spec relation.distinct (projects only)
  rw [int_of_fits (by omega) (by omega)] at placed
  obtain ⟨first, rest, items⟩ := List.exists_cons_of_ne_nil q.items_ne_nil
  have head : first.qualified.info.relName = source.relation :=
    Source.relName (only first (items ▸ List.mem_cons_self))
  have names : q.projNames = first.qualified.info :: rest.map fun d => d.qualified.info := by
    rw [projNames, items]; rfl
  rw [names] at placed
  rw [names]
  rcases condition with ⟨rfl, rfl⟩ | ⟨d, listed, attr, value, rfl, rfl, same, low', high', rfl⟩
  · simp only [quSelect, Option.any_none, Bool.false_eq_true, if_false, head]
    refine (Returns.bind_iff info).trans ?_
    simp only [placed]
  · have sane : ¬ (attr.attrType < 0 || attr.attrType > 2) = true := by simp; omega
    have found := relation.filter_name listed
    rw [← same] at found
    simp only [quSelect, Option.any_some, sane, head]
    refine (Returns.bind_iff info).trans ?_
    simp only [placed, found]
    exact Iff.rfl

theorem quNLJoin_iff {left right : Source} {x y : AttrDesc} {op : Operator} {r : Status × Flat}
    (holds : q.Holds st contents) (first : left ∈ q.reading.sources)
    (second : right ∈ q.reading.sources) (listed : x ∈ left.attrs) (listed' : y ∈ right.attrs) :
    Returns Flat.handle (quNLJoin · q.target.relation q.projNames x.qualified.info op
      y.qualified.info) st r ↔
        Returns Flat.handle (joinScan · q.target.relation q.items x op y) st r := by
  have lookups : List.Forall₂ (Found st) q.projNames q.items := by
    rw [projNames, List.forall₂_map_left_iff, List.forall₂_same]
    exact found_items holds
  have untyped : ¬ (x.qualified.info.attrType ≠ y.qualified.info.attrType ∨
    x.qualified.info.attrLen ≠ y.qualified.info.attrLen) := by
    simp [QualAttr.info]
  simp only [quNLJoinBy, monadLift_self, untyped, if_false]
  exact (Returns.bind_iff (lookupAttrs_spec lookups)).trans
    ((Returns.bind_iff (found holds first listed)).trans
      (Returns.bind_iff (found holds second listed')))

/-- The lookups find what the statement names, so that only the scans count. -/
theorem call_iff (atof : Name → Nat) (holds : q.Holds st contents) {r : Status × Flat} :
    Returns Flat.handle (q.call atof) st r ↔ Returns Flat.handle (q.scan atof) st r := by
  have sound := q.sound
  change Returns Flat.handle (fun fuel => q.call atof fuel) st r ↔
    Returns Flat.handle (fun fuel => q.scan atof fuel) st r
  simp only [call, scan]
  cases reading : q.reading with
  | all source =>
    have only := listed_single (q := q) (by rw [reading]; rfl)
    exact quSelect_iff atof (holds source (by simp [reading, Reads.sources])) only (.inl ⟨rfl, rfl⟩)
  | only source d op value =>
    have only := listed_single (q := q) (by rw [reading]; rfl)
    rw [reading] at sound
    have code : 0 ≤ value.type.code ∧ value.type.code ≤ 2 := by cases value.type <;> decide
    exact quSelect_iff atof (holds source (by simp [reading, Reads.sources])) only
      (.inr ⟨d, sound.1, _, value.text, rfl, rfl, rfl, code.1, code.2, rfl⟩)
  | pairs left right x op y =>
    rw [reading] at sound
    exact quNLJoin_iff holds (by simp [reading, Reads.sources]) (by simp [reading, Reads.sources])
      sound.1 sound.2.1

/-- Beyond the checks of interp, completion is a property of the scans. -/
theorem completes_iff (q : IntoQuery) (atof : Name → Nat) : q.Completes atof ↔
    ∀ (st : Flat) (contents : Name → List Entry) (results : List Entry), q.Holds st contents →
      Relation st q.target.relation q.target.attrs results →
      ∃ g results', Returns Flat.handle (q.scan atof) st (.ok, st.put q.target.relation g) ∧
        Table (st.put q.target.relation g) q.target.relation id results' ∧
        Gained results results' (q.records atof contents) := by
  constructor
  · intro completes st contents results holds relation
    obtain ⟨g, results', returns, rest⟩ := completes st 0 contents results holds relation
    exact ⟨g, results', (call_iff atof holds).mp ((runQuery_iff atof 0 holds relation).mp returns),
      rest⟩
  · intro loops st counter contents results holds relation
    obtain ⟨g, results', returns, rest⟩ := loops st contents results holds relation
    exact ⟨g, results', (runQuery_iff atof counter holds relation).mpr
      ((call_iff atof holds).mpr returns), rest⟩

theorem sources_pairs {left right : Source} {x y : AttrDesc} {op : Operator}
    (reading : q.reading = .pairs left right x op y) : q.reading.sources = [left, right] := by
  rw [reading]
  rfl

/-! Queries that end. -/

theorem accepted {source : Source} {d : AttrDesc} (atof : Name → Nat) (listed : d ∈ source.attrs)
    (op : Operator) (text : Name) :
    ∀ φ, some (condition atof d op text) = some φ → φ.accepted = true := by
  rintro φ ⟨⟩
  exact (Source.attr_typed listed).comparable.accepted _ op

/-- A query that adds something has to have room for it. -/
theorem completes_of_room {atof : Name → Nat}
    (room : ∀ st contents, q.Holds st contents → q.records atof contents ≠ [] →
      (∀ s ∈ q.reading.sources, s.relation ≠ q.target.relation) ∧
        AttrDesc.total q.target.attrs ≤ 1000) :
    q.Completes atof := by
  rw [completes_iff]
  intro st contents results holds relation
  have sound := q.sound
  obtain ⟨low, high⟩ := q.total_bounds
  have room := room st contents holds
  rw [← q.total_items] at room
  change ∃ g results', Returns Flat.handle (fun fuel => q.scan atof fuel) st _ ∧ _
  simp only [scan, records] at room ⊢
  cases reading : q.reading with
  | all source =>
    have read : source ∈ q.reading.sources := by rw [reading]; exact List.mem_cons_self
    have unfiltered : ∀ φ : Filter, none = some φ → φ.accepted = true := by simp
    simp only [reading] at room
    simpa using scanSelect_spec (holds source read) relation.table relation.named
      (listed_single (by rw [reading]; rfl)) low unfiltered
      fun some => (room (by simpa using some)).imp_left fun apart =>
        apart source (by simp [Reads.sources])
  | only source d op value =>
    have read : source ∈ q.reading.sources := by rw [reading]; exact List.mem_cons_self
    rw [reading] at sound
    simp only [reading] at room
    simpa using scanSelect_spec (holds source read) relation.table relation.named
      (listed_single (by rw [reading]; rfl)) low (accepted atof sound.1 op value.text)
      fun some => (room (by simpa using some)).imp_left fun apart =>
        apart source (by simp [Reads.sources])
  | pairs left right x op y =>
    have first : left ∈ q.reading.sources := by simp [sources_pairs reading]
    have second : right ∈ q.reading.sources := by simp [sources_pairs reading]
    rw [reading] at sound
    have type := (Source.attr_typed sound.2.1).kind
    refine joinScan_spec (holds left first) (holds right second) sound.1 sound.2.1 (by omega)
      (fun o => (Source.attr_typed sound.2.1).comparable.accepted _ _) relation.table relation.named
      (listed_pair (by rw [reading]; rfl)) low high fun some => ?_
    simp only [reading] at room
    obtain ⟨apart, fits⟩ := room some
    exact ⟨apart left (by simp [Reads.sources]), apart right (by simp [Reads.sources]), fits⟩

/-- A page holds no tuple of more than 1000 bytes. -/
theorem Barren.records_eq_nil {atof : Name → Nat} (barren : q.Barren atof)
    (holds : q.Holds st contents) :
    q.records atof contents = [] := by
  rcases barren with ⟨s, read, wide⟩ | ⟨source, d, op, value, reading, never⟩
  · have empty : contents s.relation = [] := by
      refine List.eq_nil_iff_forall_not_mem.mpr fun r member => ?_
      have width := (holds s read).width r member
      have small := ((holds s read).table.sized r member).2
      omega
    rw [records]
    cases reading : q.reading with
    | all source | only source =>
      obtain rfl : s = source := by simpa [reading, Reads.sources] using read
      simp [empty]
    | pairs left right x op y =>
      obtain rfl | rfl : s = left ∨ s = right := by simpa [reading, Reads.sources] using read
      · simp [joined, empty]
      · simp [joined, empty]
  · have read : source ∈ q.reading.sources := by rw [reading]; exact List.mem_cons_self
    simp only [records, reading, List.map_eq_nil_iff, List.filter_eq_nil_iff]
    intro r member
    rw [never r.2 ((holds source read).width r member)]
    exact Bool.false_ne_true

theorem Confined.completes {atof : Name → Nat} (confined : q.Confined atof) : q.Completes atof :=
  completes_of_room fun _ _ holds some => confined.resolve_right fun barren =>
    some (barren.records_eq_nil holds)

/-! Databases that hold given tuples. -/

theorem known_all (q : IntoQuery) : ∀ s ∈ q.target :: q.reading.sources,
    ∀ s' ∈ q.target :: q.reading.sources, s.relation = s'.relation → s = s' := by
  intro s member s' member' same
  rcases List.mem_cons.mp member with rfl | read
  · rcases List.mem_cons.mp member' with rfl | read'
    · rfl
    · exact (q.known s' read' q.target List.mem_cons_self same.symm).symm
  · exact q.known s read s' member' same

def givenFor (given : List (Source × List UInt8)) (name : Name) : List (List UInt8) :=
  (given.filter fun p => p.1.relation = name).map Prod.snd

theorem exists_state (user : ∀ s ∈ q.target :: q.reading.sources, UserName s.relation)
    (given : List (Source × List UInt8))
    (sized : ∀ p ∈ given, p.1 ∈ q.target :: q.reading.sources ∧ p.1.Tuple p.2 ∧ p.2.length ≤ 1000) :
    ∃ (st : Flat) (contents : Name → List Entry), ∀ s ∈ q.target :: q.reading.sources,
      Relation st s.relation s.attrs (contents s.relation) ∧
        TableAt st s.relation id (contents s.relation) [] ∧
      (contents s.relation).map Prod.snd = givenFor given s.relation := by
  classical
  obtain ⟨st, holds⟩ := exists_packed
    ((q.target :: q.reading.sources).dedup.map fun s => s.setup (givenFor given s.relation))
    (by
      refine List.forall_mem_map.mpr fun s member => ?_
      rw [List.mem_dedup] at member
      refine Source.setup_sound (user s member) fun o member' => ?_
      obtain ⟨p, member'', rfl⟩ := List.mem_map.mp member'
      obtain ⟨listed, same⟩ := List.mem_filter.mp member''
      obtain ⟨among, fits⟩ := sized p listed
      rwa [q.known_all p.1 among s member (by simpa using same)] at fits)
    (by
      rw [List.map_map]
      exact (List.nodup_dedup _).map_on fun s member s' member' same =>
        q.known_all s (List.mem_dedup.mp member) s' (List.mem_dedup.mp member') same)
  have packed (name : Name) : ∃ entries, ∀ s ∈ q.target :: q.reading.sources, s.relation = name →
      Relation st s.relation s.attrs entries ∧ TableAt st s.relation id entries [] ∧
        entries.map Prod.snd = givenFor given s.relation := by
    by_cases there : ∃ s ∈ q.target :: q.reading.sources, s.relation = name
    · obtain ⟨s, member, rfl⟩ := there
      obtain ⟨entries, relation, list, packed⟩ :=
        holds _ (List.mem_map_of_mem (List.mem_dedup.mpr member))
      refine ⟨entries, fun s' member' same => ?_⟩
      obtain rfl := q.known_all s' member' s member same
      exact ⟨relation, packed, list⟩
    · exact ⟨[], fun s member same => absurd ⟨s, member, same⟩ there⟩
  choose contents packed using packed
  exact ⟨st, contents, fun s member => packed s.relation s member rfl⟩

theorem exists_given {given : List (Source × List UInt8)} {s : Source} {o : List UInt8}
    (list : (contents s.relation).map Prod.snd = givenFor given s.relation)
    (member : (s, o) ∈ given) :
    ∃ e ∈ contents s.relation, e.2 = o := by
  have listed : o ∈ givenFor given s.relation :=
    List.mem_map_of_mem (f := Prod.snd) (List.mem_filter.mpr ⟨member, by simp⟩)
  rw [← list] at listed
  obtain ⟨e, member', same⟩ := List.mem_map.mp listed
  exact ⟨e, member', same⟩

structure Roomy (q : IntoQuery) : Prop where
  user : ∀ s ∈ q.target :: q.reading.sources, UserName s.relation
  narrow : ∀ s ∈ q.target :: q.reading.sources, AttrDesc.total s.attrs ≤ 1000

theorem Roomy.exists_state (roomy : q.Roomy) (given : List (Source × List UInt8))
    (sized : ∀ p ∈ given, p.1 ∈ q.target :: q.reading.sources ∧ p.1.Tuple p.2) :
    ∃ (st : Flat) (contents : Name → List Entry), ∀ s ∈ q.target :: q.reading.sources,
      Relation st s.relation s.attrs (contents s.relation) ∧
        TableAt st s.relation id (contents s.relation) [] ∧
      (contents s.relation).map Prod.snd = givenFor given s.relation := by
  refine IntoQuery.exists_state roomy.user given fun p member => ?_
  obtain ⟨among, tuple⟩ := sized p member
  have narrow := roomy.narrow p.1 among
  have length : (p.2.length : Int) = _ := tuple
  exact ⟨among, tuple, by omega⟩

/-! Queries into a relation that they read. -/

/-- Each field of the output is that of an item of the same type and length. -/
theorem exists_item (q : IntoQuery) {t : AttrDesc} (listed : t ∈ q.target.attrs) :
    ∃ d ∈ q.items, d.attrType = t.attrType ∧ d.attrLen = t.attrLen ∧
      ∀ source : AttrDesc → List UInt8, (∀ d ∈ q.items, d.Inside (source d)) →
        t.field (projection source q.items) = d.field (source d) := by
  obtain ⟨length, checked⟩ := List.forall₂_iff_zip.mp q.checked
  obtain ⟨d, member, pair⟩ :=
    Pointwise.exists_left (List.forall₂_iff_zip.mpr ⟨length, fun pair => pair⟩) t listed
  refine ⟨d, member, (checked pair).1, (checked pair).2, fun source inside => ?_⟩
  have sized : List.Forall₂ (fun t f => (List.length f : Int) = t.attrLen) q.target.attrs
      (q.items.map fun d => d.field (source d)) := by
    rw [List.forall₂_map_right_iff]
    refine (List.forall₂_iff_zip.mpr ⟨length, fun pair => ?_⟩).flip
    exact (AttrDesc.field_length (inside _ (List.of_mem_zip pair).1)).trans (checked pair).2
  have fields := q.target.fields _ sized
  rw [List.forall₂_map_right_iff, ← List.flatMap_def] at fields
  exact (List.forall₂_iff_zip.mp fields.flip).2 pair

/-- A tuple whose fields go by type and length is its own projection. -/
theorem projection_tuple (q : IntoQuery) {g : Int → Int → List UInt8}
    (sized : ∀ type length, 0 ≤ length → ((g type length).length : Int) = length)
    (only : ∀ d ∈ q.items, d ∈ q.target.attrs) :
    projection (fun _ => q.target.tuple fun d => g d.attrType d.attrLen) q.items =
      q.target.tuple fun d => g d.attrType d.attrLen := by
  have sized' : ∀ d ∈ q.target.attrs, ((g d.attrType d.attrLen).length : Int) = d.attrLen := by
    intro d listed
    have length := (Source.placed listed).2.1
    exact sized _ _ (by omega)
  have checked := q.checked
  rw [projection, List.flatMap_congr fun d member => Source.field_tuple sized' (only d member),
    Source.tuple]
  generalize q.items = items, q.target.attrs = attrs at checked
  induction checked with
  | nil => rfl
  | cons same _ ih => rw [List.flatMap_cons, List.flatMap_cons, ih, same.1, same.2]

/-- A selection from the relation it inserts into does not end if some tuple meets
its condition. -/
theorem not_completes_select {atof : Name → Nat} {filter : Option Filter} (roomy : q.Roomy)
    (only : ∀ d ∈ q.items, d ∈ q.target.attrs)
    (scans : ∀ fuel, q.scan atof fuel = scanSelect fuel q.target.relation (q.items.map some) filter
      (AttrDesc.total q.items))
    (accepted : ∀ φ, filter = some φ → φ.accepted = true) {b : List UInt8}
    (tuple : q.target.Tuple b) (matching : filter.all (·.matchRec b) = true)
    (fixed : projection (fun _ => b) q.items = b) : ¬ q.Completes atof := by
  rw [completes_iff]
  intro completes
  obtain ⟨st, contents, holds⟩ := roomy.exists_state [(q.target, b)] (by simpa using tuple)
  obtain ⟨relation, packed, list⟩ := holds q.target List.mem_cons_self
  obtain ⟨r, rest, entries, rfl, none⟩ :=
    List.map_eq_cons_iff.mp (list.trans (by simp [givenFor] : _ = [b]))
  obtain rfl := List.map_eq_nil_iff.mp none
  rw [entries] at relation packed
  obtain ⟨g, results', ⟨bound, returns⟩, _⟩ := completes st contents [r]
    (fun s read => (holds s (List.mem_cons_of_mem _ read)).1) relation
  have high := q.total_items.trans_le (roomy.narrow q.target List.mem_cons_self)
  have stuck := scanSelect_endless relation packed (by simp) (b := r.2)
    (by simp) accepted matching only fixed
    q.total_bounds.1 high bound
  have run := returns bound (Nat.le_refl bound)
  rw [scans] at run
  cases stuck.symm.trans run

section join
variable {left right : Source} {x y : AttrDesc} {op : Operator} {atof : Name → Nat}
    {rows : List Entry}

theorem joins (roomy : q.Roomy) (reading : q.reading = .pairs left right x op y) :
    Joins left.relation right.relation q.target.relation q.items x y op (AttrDesc.total left.attrs)
      (AttrDesc.total right.attrs) := by
  have sources := sources_pairs reading
  have sound := q.sound
  rw [reading] at sound
  obtain ⟨first, second, _⟩ := sound
  have type := (Source.attr_typed second).kind
  have high := q.total_items.trans_le (roomy.narrow q.target List.mem_cons_self)
  have known : ∀ s ∈ [left, right], ∀ s' ∈ q.target :: [left, right], s.relation = s'.relation →
    s = s' := sources ▸ q.known
  refine ⟨right.named, Source.relName first, Source.relName second, by omega, fun o =>
    (Source.attr_typed second).comparable.accepted _ _,
    fun o i outerTuple innerTuple d member => ?_, q.total_bounds.1, high, fun same => ?_,
    fun same => ?_⟩
  · rw [joinSource]
    split
    next same =>
      rcases listed_pair sources d member with listed | listed
      · exact Source.inside listed outerTuple
      · have one : right = left :=
          known right (by simp) left (by simp) ((Source.relName listed).symm.trans same)
        exact Source.inside (one ▸ listed) outerTuple
    next other =>
      rcases listed_pair sources d member with listed | listed
      · exact absurd (Source.relName listed) other
      · exact Source.inside listed innerTuple
  · rw [q.total_items, known left (by simp) q.target (by simp) same]
  · rw [q.total_items, known right (by simp) q.target (by simp) same]

/-- If the join has added what it should, then its loop has added so many records. -/
theorem Completes.loop (completes : q.Completes atof) (roomy : q.Roomy)
    (reading : q.reading = .pairs left right x op y) (holds : q.Holds st contents)
    (relation : Relation st q.target.relation q.target.attrs rows)
    (packed : TableAt st q.target.relation id rows []) :
    ∃ fuel s h st₀ s' h' st₁, st₀.files = st.files ∧
      Cursor s st₀ left.relation id (contents left.relation) (contents left.relation) ∧
        s.filter = none ∧
      Appender h st₀ q.target.relation rows ∧
      Flat.run (outerLoop q.items (AttrDesc.total q.items) x y op.flip fuel s h) st₀ =
        some ((.ok, s', h'), st₁) ∧
      ∀ added, Grows st₀ st₁ q.target.relation added → added.length =
        (joined left.relation q.items x y op (contents left.relation)
          (contents right.relation)).length := by
  have first : left ∈ q.reading.sources := by simp [sources_pairs reading]
  have second : right ∈ q.reading.sources := by simp [sources_pairs reading]
  obtain ⟨g, results', ⟨bound, returns⟩, table, gained⟩ :=
    (completes_iff q atof).mp completes st contents rows holds relation
  have run := returns bound (Nat.le_refl bound)
  simp only [scan, records, reading] at run gained
  obtain ⟨s, h, st₀, s', h', st₁, before, after, cursor, fresh, appender, loop⟩ :=
    joinScan_loop (joins roomy reading) packed
    relation.named left.named (holds left first).table (holds right second).table
      (holds left first).width
    (holds right second).width run
  refine ⟨bound, s, h, st₀, s', h', st₁, before, cursor, fresh, appender, loop, fun added grows => ?_⟩
  have table₀ : Table st₀ q.target.relation id rows := relation.table.congr (congrFun before _)
  have table₁ := grows.table table₀
  rw [share_self] at table₁
  cases table.unique (table₁.congr (congrFun after _))
  have lengths := gained.contents.length_eq
  simpa using lengths

theorem mem_joined (outer : Name) (descs : List AttrDesc) {left right : List Entry} {o i : Entry}
    (first : o ∈ left) (second : i ∈ right) (meets : (joinFilter x y op o.2).matchRec i.2 = true) :
    projection (joinSource outer o.2 i.2) descs ∈ joined outer descs x y op left right :=
  List.mem_flatMap.mpr ⟨o, first, List.mem_map.mpr ⟨i, List.mem_filter.mpr ⟨second, meets⟩, rfl⟩⟩

theorem matchRec_of_joined_nil {outer : Name} {descs : List AttrDesc} {left right : List Entry}
    {o i : Entry} (idle : joined outer descs x y op left right = []) (first : o ∈ left)
    (second : i ∈ right) :
    (joinFilter x y op o.2).matchRec i.2 = false := by
  by_contra matching
  rw [Bool.not_eq_false] at matching
  have made := mem_joined outer descs first second matching
  rw [idle] at made
  cases made

/-- The outer relation grows: what is made of a pair has no match itself. -/
theorem Completes.left_idle (completes : q.Completes atof) (roomy : q.Roomy)
    (reading : q.reading = .pairs left right x op y) (holds : q.Holds st contents)
    (relation : Relation st q.target.relation q.target.attrs (contents left.relation))
    (packed : TableAt st q.target.relation id (contents left.relation) [])
    (same : left.relation = q.target.relation) {o i i' : Entry} (first : o ∈ contents left.relation)
    (second : i ∈ contents right.relation) (meets : (joinFilter x y op o.2).matchRec i.2 = true)
    (third : i' ∈ contents right.relation) :
    (joinFilter x y op (projection (joinSource left.relation o.2 i.2) q.items)).matchRec i'.2 =
      false := by
  have outer : left ∈ q.reading.sources := by simp [sources_pairs reading]
  have inner : right ∈ q.reading.sources := by simp [sources_pairs reading]
  obtain ⟨fuel, s, h, st₀, s', h', st₁, before, cursor, fresh, appender, loop, exact'⟩ :=
    completes.loop roomy reading holds relation packed
  have table : Table st₀ right.relation id (contents right.relation) :=
    (holds right inner).table.congr (congrFun before _)
  obtain ⟨added, grows, _, _, outputs, count⟩ :=
    outerLoop_grows (joins roomy reading) fuel cursor fresh appender table
    (holds left outer).width (holds right inner).width (List.Sublist.refl _) loop
  rw [exact' added grows, joined_append, List.length_append, ← same, share_self] at count
  have idle : joined left.relation q.items x y op added (contents right.relation) = [] :=
    List.length_eq_zero_iff.mp (by omega)
  obtain ⟨e, member, bytes⟩ := List.mem_map.mp (outputs (mem_joined _ _ first second meets))
  rw [← bytes]
  exact matchRec_of_joined_nil idle member third

/-- The inner relation grows: what is made of the first tuple has no match in a later one. -/
theorem Completes.right_idle (completes : q.Completes atof) (roomy : q.Roomy)
    (reading : q.reading = .pairs left right x op y) (holds : q.Holds st contents)
    (relation : Relation st q.target.relation q.target.attrs (contents right.relation))
    (packed : TableAt st q.target.relation id (contents right.relation) [])
    (same : right.relation = q.target.relation) (apart : left.relation ≠ q.target.relation)
    {o o' i : Entry} (tuples : contents left.relation = [o, o'])
    (second : i ∈ contents right.relation) (meets : (joinFilter x y op o.2).matchRec i.2 = true) :
    (joinFilter x y op o'.2).matchRec (projection (joinSource left.relation o.2 i.2) q.items) =
      false := by
  have outer : left ∈ q.reading.sources := by simp [sources_pairs reading]
  have inner : right ∈ q.reading.sources := by simp [sources_pairs reading]
  obtain ⟨fuel, s, h, st₀, s', h', st₁, before, cursor, fresh, appender, loop, exact'⟩ :=
    completes.loop roomy reading holds relation packed
  have table : Table st₀ right.relation id (contents right.relation) :=
    (holds right inner).table.congr (congrFun before _)
  have sized := (holds left outer).width
  rw [tuples] at cursor sized exact'
  cases fuel with
  | zero => cases loop
  | succ fuel =>
    obtain ⟨t, h₁, st₂, added, grows, appender', cursor', fresh', outputs, sizes, rest⟩ :=
      outerLoop_step (joins roomy reading) cursor
      fresh appender table (sized o (by simp)) (holds right inner).width loop
    simp only [share_of_ne apart, List.append_nil] at cursor'
    have table' := grows.table table
    rw [same, share_self] at table'
    have widths : ∀ r ∈ contents right.relation ++ added,
        (r.2.length : Int) = AttrDesc.total right.attrs :=
      List.forall_mem_append.mpr ⟨(holds right inner).width,
        fun r member => (sizes r member).trans ((joins roomy reading).innerWidth same)⟩
    obtain ⟨added', grows', _, _, _, count⟩ :=
      outerLoop_grows (joins roomy reading) fuel cursor' fresh' appender' (same ▸ table')
      (by simpa using sized o' (by simp)) widths (List.Sublist.refl _) rest
    have total := exact' (added ++ added') (grows.trans grows')
    have ofFirst := outputs.length_le
    have split : joined left.relation q.items x y op [o'] (contents right.relation ++ added) =
        joined left.relation q.items x y op [o'] (contents right.relation) ++
          joined left.relation q.items x y op [o'] added := by
      simp [joined]
    rw [share_of_ne apart, List.append_nil, split, List.length_append] at count
    rw [List.length_map] at ofFirst
    rw [← List.singleton_append, joined_append, List.length_append, List.length_append] at total
    have idle : joined left.relation q.items x y op [o'] added = [] :=
      List.length_eq_zero_iff.mp (by omega)
    obtain ⟨e, member, bytes⟩ :=
      List.mem_map.mp (outputs.subset (mem_joined _ _ List.mem_cons_self second meets))
    rw [← bytes]
    exact matchRec_of_joined_nil idle (List.mem_singleton_self o') member

/-! The same, for tuples that some database holds. -/

theorem Completes.left_tuples (completes : q.Completes atof) (roomy : q.Roomy)
    (reading : q.reading = .pairs left right x op y) (same : q.target = left) {o i i' : List UInt8}
    (first : left.Tuple o) (second : right.Tuple i) (third : right.Tuple i')
    (meets : (joinFilter x y op o).matchRec i = true) :
    (joinFilter x y op (projection (joinSource left.relation o i) q.items)).matchRec i' =
      false := by
  have sources := sources_pairs reading
  obtain ⟨st, contents, holds⟩ := roomy.exists_state [(left, o), (right, i), (right, i')]
    (by simp [sources, first, second, third])
  obtain ⟨relation, packed, list⟩ := holds left (by simp [sources])
  obtain ⟨-, -, list'⟩ := holds right (by simp [sources])
  obtain ⟨e, member, rfl⟩ := exists_given list (o := o) (by simp)
  obtain ⟨e', member', rfl⟩ := exists_given list' (o := i) (by simp)
  obtain ⟨e'', member'', rfl⟩ := exists_given list' (o := i') (by simp)
  exact completes.left_idle roomy reading (fun s read => (holds s (List.mem_cons_of_mem _ read)).1)
    (same ▸ relation)
    (same ▸ packed) (by rw [same]) member member' meets member''

theorem Completes.right_tuples (completes : q.Completes atof) (roomy : q.Roomy)
    (reading : q.reading = .pairs left right x op y) (same : q.target = right)
    (apart : left.relation ≠ right.relation) {o o' i : List UInt8} (first : left.Tuple o)
    (second : left.Tuple o') (third : right.Tuple i)
    (meets : (joinFilter x y op o).matchRec i = true) :
    (joinFilter x y op o').matchRec (projection (joinSource left.relation o i) q.items) =
      false := by
  have sources := sources_pairs reading
  obtain ⟨st, contents, holds⟩ := roomy.exists_state [(left, o), (left, o'), (right, i)]
    (by simp [sources, first, second, third])
  obtain ⟨-, -, list⟩ := holds left (by simp [sources])
  obtain ⟨relation, packed, list'⟩ := holds right (by simp [sources])
  obtain ⟨e, rest, split, rfl, tail⟩ :=
    List.map_eq_cons_iff.mp (list.trans (by simp [givenFor, apart.symm] : _ = [o, o']))
  obtain ⟨e', rest', rfl, rfl, last⟩ := List.map_eq_cons_iff.mp tail
  obtain rfl := List.map_eq_nil_iff.mp last
  obtain ⟨e'', member, rfl⟩ := exists_given list' (o := i) (by simp)
  exact completes.right_idle roomy reading (fun s read => (holds s (List.mem_cons_of_mem _ read)).1)
    (same ▸ relation)
    (same ▸ packed) (by rw [same]) (by rwa [same]) split member meets

/-! Tuples that go on. -/

theorem mem_output {outer : Name} {o i bytes : List UInt8} (first : ∀ c ∈ o, c ∈ bytes)
    (second : ∀ c ∈ i, c ∈ bytes) (descs : List AttrDesc) :
    ∀ c ∈ projection (joinSource outer o i) descs, c ∈ bytes := by
  intro c member
  obtain ⟨d, _, member⟩ := List.mem_flatMap.mp member
  have inside : c ∈ joinSource outer o i d := List.mem_of_mem_drop (List.mem_of_mem_take member)
  rw [joinSource] at inside
  split at inside
  · exact first c inside
  · exact second c inside

/-- The output for two tuples whose fields repeat bytes. -/
def made (q : IntoQuery) (left right : Source) (φ ψ : AttrDesc → UInt8) : List UInt8 :=
  projection (joinSource left.relation (left.fill φ) (right.fill ψ)) q.items

/-- A field of the output repeats the byte of an attribute of one of the relations. -/
theorem exists_made (roomy : q.Roomy) (reading : q.reading = .pairs left right x op y)
    {t : AttrDesc} (listed : t ∈ q.target.attrs) :
    ∃ d, d.attrLen = t.attrLen ∧
      (d ∈ left.attrs ∧ (∀ φ ψ, t.field (q.made left right φ ψ) = List.replicate t.attrLen.toNat
        (φ d)) ∨ d ∉ left.attrs ∧ d ∈ right.attrs ∧
          ∀ φ ψ, t.field (q.made left right φ ψ) = List.replicate t.attrLen.toNat (ψ d)) := by
  have sources := sources_pairs reading
  obtain ⟨d, member, _, length, field⟩ := q.exists_item listed
  have copied (φ ψ : AttrDesc → UInt8) := field (joinSource left.relation (left.fill φ) (right.fill ψ))
    ((joins roomy reading).inside _ _ (left.fill_tuple φ) (right.fill_tuple ψ))
  refine ⟨d, length, ?_⟩
  by_cases own : d ∈ left.attrs
  · refine .inl ⟨own, fun φ ψ => ?_⟩
    rw [made, copied, joinSource, if_pos (Source.relName own), Source.field_fill own, length]
  · have other := (listed_pair sources d member).resolve_left own
    have apart : d.relName ≠ left.relation := fun same => by
      have known := q.known right (by simp [sources]) left (by simp [sources])
        ((Source.relName other).symm.trans same)
      exact own (known ▸ other)
    refine .inr ⟨own, other, fun φ ψ => ?_⟩
    rw [made, copied, joinSource, if_neg apart, Source.field_fill other, length]

theorem meets_fill {φ ψ : AttrDesc → UInt8} (reading : q.reading = .pairs left right x op y)
    (among : ∀ d, φ d ∈ [op.bytes.1, op.bytes.2]) (value : φ x = op.bytes.1)
    (field : ψ y = op.bytes.2) :
    (joinFilter x y op (left.fill φ)).matchRec (right.fill ψ) = true := by
  have sound := q.sound
  rw [reading] at sound
  exact Source.meets sound.1 sound.2.1 (right.fill_tuple ψ) (Source.mem_fill fun d _ => among d)
    (by rw [Source.field_fill sound.1, value]) (by rw [Source.field_fill sound.2.1, field])

/-- The second byte for one attribute, the first for the others. -/
def mark (op : Operator) (d e : AttrDesc) : UInt8 := if e = d then op.bytes.2 else op.bytes.1

theorem mark_self (op : Operator) (d : AttrDesc) : mark op d d = op.bytes.2 := if_pos rfl

theorem mark_of_ne {d e : AttrDesc} (apart : e ≠ d) : mark op d e = op.bytes.1 := if_neg apart

theorem first_mem (op : Operator) : op.bytes.1 ∈ [op.bytes.1, op.bytes.2] := List.mem_cons_self

theorem second_mem (op : Operator) : op.bytes.2 ∈ [op.bytes.1, op.bytes.2] :=
  List.mem_cons_of_mem _ List.mem_cons_self

theorem mark_mem (op : Operator) (d e : AttrDesc) : mark op d e ∈ [op.bytes.1, op.bytes.2] := by
  rw [mark]
  split
  · exact second_mem op
  · exact first_mem op

/-- The compared field of a new outer tuple comes from the outer tuple, which compares
as before, or from the inner one. -/
theorem not_completes_left (roomy : q.Roomy) (reading : q.reading = .pairs left right x op y)
    (same : q.target = left) :
    ¬ q.Completes atof := by
  intro completes
  have sound := q.sound
  rw [reading] at sound
  obtain ⟨first, second, _⟩ := sound
  have stop (φ ψ ψ' : AttrDesc → UInt8)
    (meets : (joinFilter x y op (left.fill φ)).matchRec (right.fill ψ) = true)
      (again : (joinFilter x y op (q.made left right φ ψ)).matchRec (right.fill ψ') = true) :
        False := by
    have idle := completes.left_tuples roomy reading same (left.fill_tuple φ) (right.fill_tuple ψ)
      (right.fill_tuple ψ') meets
    cases idle.symm.trans again
  have low : ∀ c ∈ left.fill fun _ => op.bytes.1, c ∈ [op.bytes.1, op.bytes.2] :=
    Source.mem_fill fun _ _ => first_mem op
  obtain ⟨d, length, ⟨_, copied⟩ | ⟨_, _, copied⟩⟩ := exists_made roomy reading (same ▸ first)
  · refine stop (fun _ => op.bytes.1) (fun _ => op.bytes.2) (fun _ => op.bytes.2)
      (meets_fill reading (fun _ => first_mem op) rfl rfl) ?_
    exact Source.meets first second (right.fill_tuple _)
      (mem_output low (Source.mem_fill fun _ _ => second_mem op) _)
      (copied _ _) (Source.field_fill second)
  · by_cases compared : d = y
    · obtain ⟨a, isA, b, isB, c, isC, ab, bc, _⟩ := op.exists_chain
      rw [compared] at length copied
      refine stop (fun _ => a) (fun _ => b) (fun _ => c) ?_ ?_
      · exact Source.meets_of_holds second (right.fill_tuple _) length.symm isA isB ab
          (Source.field_fill first)
          (Source.field_fill second)
      · exact Source.meets_of_holds second (right.fill_tuple _) length.symm isB isC bc (copied _ _)
          (Source.field_fill second)
    · refine stop (fun _ => op.bytes.1) (mark op y) (mark op y)
        (meets_fill reading (fun _ => first_mem op) rfl (mark_self op y)) ?_
      exact Source.meets first second (right.fill_tuple _)
        (mem_output low (Source.mem_fill fun e _ => mark_mem op y e) _)
        (by rw [copied, mark_of_ne compared]) (by rw [Source.field_fill second, mark_self])

/-- The same for the inner relation: a later outer tuple meets the new tuple. -/
theorem not_completes_right (roomy : q.Roomy) (reading : q.reading = .pairs left right x op y)
    (same : q.target = right) (apart : left.relation ≠ right.relation) :
    ¬ q.Completes atof := by
  intro completes
  have sound := q.sound
  rw [reading] at sound
  obtain ⟨first, second, _⟩ := sound
  have made_tuple (φ ψ : AttrDesc → UInt8) : right.Tuple (q.made left right φ ψ) := by
    have width : AttrDesc.total right.attrs = AttrDesc.total q.items := by rw [q.total_items, same]
    rw [Source.Tuple, width]
    exact projection_length ((joins roomy reading).inside _ _ (left.fill_tuple φ) (right.fill_tuple ψ))
  have stop (φ φ' ψ : AttrDesc → UInt8)
    (meets : (joinFilter x y op (left.fill φ)).matchRec (right.fill ψ) = true)
      (again : (joinFilter x y op (left.fill φ')).matchRec (q.made left right φ ψ) = true) : False := by
    have idle :=
      completes.right_tuples roomy reading same apart (left.fill_tuple φ) (left.fill_tuple φ')
        (right.fill_tuple ψ) meets
    cases idle.symm.trans again
  have low : ∀ c ∈ left.fill fun _ => op.bytes.1, c ∈ [op.bytes.1, op.bytes.2] :=
    Source.mem_fill fun _ _ => first_mem op
  obtain ⟨d, length, ⟨_, copied⟩ | ⟨_, _, copied⟩⟩ := exists_made roomy reading (same ▸ second)
  · by_cases compared : d = x
    · obtain ⟨a, isA, b, isB, c, isC, ab, bc, _⟩ := op.exists_chain
      rw [compared] at length copied
      refine stop (fun _ => b) (fun _ => a) (fun _ => c) ?_ ?_
      · exact Source.meets_of_holds second (right.fill_tuple _) length isB isC bc
          (Source.field_fill first)
          (Source.field_fill second)
      · exact Source.meets_of_holds second (made_tuple _ _) length isA isB ab
          (Source.field_fill first) (copied _ _)
    · refine stop (mark op d) (fun _ => op.bytes.1) (fun _ => op.bytes.2)
        (meets_fill reading (mark_mem op d) (mark_of_ne (Ne.symm compared)) rfl) ?_
      exact Source.meets first second (made_tuple _ _) low (Source.field_fill first)
        (by rw [copied, mark_self])
  · refine stop (fun _ => op.bytes.1) (fun _ => op.bytes.1) (fun _ => op.bytes.2)
      (meets_fill reading (fun _ => first_mem op) rfl rfl) ?_
    exact Source.meets first second (made_tuple _ _) low (Source.field_fill first) (copied _ _)

end join

/-- The tuple that is its own projection, with some value of one attribute. -/
theorem exists_fixed (q : IntoQuery) {d : AttrDesc} {o : List UInt8} (listed : d ∈ q.target.attrs)
    (tuple : q.target.Tuple o) (only : ∀ d ∈ q.items, d ∈ q.target.attrs) :
    ∃ b, q.target.Tuple b ∧ d.field b = d.field o ∧ projection (fun _ => b) q.items = b := by
  let g (type length : Int) : List UInt8 :=
    if type = d.attrType ∧ length = d.attrLen then d.field o else List.replicate length.toNat 0
  have sized (type length : Int) (low : 0 ≤ length) : ((g type length).length : Int) = length := by
    by_cases same : type = d.attrType ∧ length = d.attrLen
    · simp only [g, if_pos same]
      rw [AttrDesc.field_length (Source.inside listed tuple), same.2]
    · simp only [g, if_neg same, List.length_replicate]
      omega
  have sized' : ∀ d ∈ q.target.attrs, ((g d.attrType d.attrLen).length : Int) = d.attrLen := by
    intro d listed
    have length := (Source.placed listed).2.1
    exact sized _ _ (by omega)
  refine ⟨_, Source.tuple_tuple sized', ?_, q.projection_tuple sized only⟩
  rw [Source.field_tuple sized' listed]
  simp only [g, and_self, if_true]

/-! Tuples that are too long for a page. -/

theorem record_length {atof : Name → Nat} {b : List UInt8} (holds : q.Holds st contents)
    (member : b ∈ q.records atof contents) : (b.length : Int) = AttrDesc.total q.target.attrs := by
  rw [← q.total_items]
  rw [records] at member
  cases reading : q.reading with
  | all source =>
    simp only [reading, List.mem_map] at member
    obtain ⟨r, member, rfl⟩ := member
    exact projection_length fun d of => (holds source (by simp [reading, Reads.sources])).inside
      (listed_single (by rw [reading]; rfl) d of) member
  | only source d op value =>
    simp only [reading, List.mem_map, List.mem_filter] at member
    obtain ⟨r, ⟨member, -⟩, rfl⟩ := member
    exact projection_length fun d of => (holds source (by simp [reading, Reads.sources])).inside
      (listed_single (by rw [reading]; rfl) d of) member
  | pairs left right x op y =>
    simp only [reading, joined, List.mem_flatMap, List.mem_map, List.mem_filter] at member
    obtain ⟨o, first, i, ⟨second, -⟩, rfl⟩ := member
    exact projection_length fun d of =>
      joinSource_inside (holds left (by simp [reading, Reads.sources]))
      (holds right (by simp [reading, Reads.sources])) first second
        (listed_pair (by rw [reading]; rfl) d of)

/-- What was added lies on a page. -/
theorem Completes.narrow {atof : Name → Nat} (completes : q.Completes atof)
    (holds : q.Holds st contents) (relation : Relation st q.target.relation q.target.attrs results)
    (some : q.records atof contents ≠ []) :
    AttrDesc.total q.target.attrs ≤ 1000 := by
  obtain ⟨g, results', -, table, gained⟩ := completes st 0 contents results holds relation
  obtain ⟨b, member⟩ := List.exists_mem_of_ne_nil _ some
  have stored : b ∈ results'.map Prod.snd :=
    gained.contents.symm.subset (List.mem_append_right _ member)
  obtain ⟨e, member', rfl⟩ := List.mem_map.mp stored
  have small := (table.sized e member').2
  have length := record_length holds member
  omega

theorem exists_tuples (user : ∀ s ∈ q.target :: q.reading.sources, UserName s.relation)
    (narrow : ∀ s ∈ q.reading.sources, AttrDesc.total s.attrs ≤ 1000)
    (given : List (Source × List UInt8))
    (read : ∀ p ∈ given, p.1 ∈ q.reading.sources ∧ p.1.Tuple p.2) :
    ∃ (st : Flat) (contents : Name → List Entry), (∀ s ∈ q.target :: q.reading.sources,
      Relation st s.relation s.attrs (contents s.relation)) ∧ ∀ p ∈ given,
        ∃ e ∈ contents p.1.relation, e.2 = p.2 := by
  obtain ⟨st, contents, holds⟩ := exists_state user given fun p member => by
    obtain ⟨among, tuple⟩ := read p member
    have narrow := narrow p.1 among
    have length : (p.2.length : Int) = _ := tuple
    exact ⟨List.mem_cons_of_mem _ among, tuple, by omega⟩
  refine ⟨st, contents, fun s among => (holds s among).1, fun p member => ?_⟩
  exact exists_given (holds p.1 (List.mem_cons_of_mem _ (read p member).1)).2.2 member

/-- Some database makes the query add a record, unless it never does. -/
theorem exists_records {atof : Name → Nat}
    (user : ∀ s ∈ q.target :: q.reading.sources, UserName s.relation)
    (narrow : ∀ s ∈ q.reading.sources, AttrDesc.total s.attrs ≤ 1000)
    (met : ∀ source d op value, q.reading = .only source d op value →
      ∃ o, source.Tuple o ∧ (condition atof d op value.text).matchRec o = true) :
    ∃ (st : Flat) (contents : Name → List Entry), (∀ s ∈ q.target :: q.reading.sources,
      Relation st s.relation s.attrs (contents s.relation)) ∧ q.records atof contents ≠ [] := by
  have tuples := exists_tuples user narrow
  cases reading : q.reading with
  | all source =>
    obtain ⟨st, contents, holds, there⟩ := tuples [(source, source.fill fun _ => 0)]
      (by simpa [reading, Reads.sources] using source.fill_tuple _)
    obtain ⟨e, member, -⟩ := there _ List.mem_cons_self
    refine ⟨st, contents, reading ▸ holds, ?_⟩
    simpa [records, reading] using List.ne_nil_of_mem member
  | only source d op value =>
    obtain ⟨o, tuple, meets⟩ := met source d op value reading
    obtain ⟨st, contents, holds, there⟩ :=
      tuples [(source, o)] (by simpa [reading, Reads.sources] using tuple)
    obtain ⟨e, member, rfl⟩ := there _ List.mem_cons_self
    refine ⟨st, contents, reading ▸ holds, ?_⟩
    simp only [records, reading]
    exact List.ne_nil_of_mem (List.mem_map_of_mem (List.mem_filter.mpr ⟨member, meets⟩))
  | pairs left right x op y =>
    obtain ⟨st, contents, holds, there⟩ := tuples
      [(left, left.fill fun _ => op.bytes.1), (right, right.fill fun _ => op.bytes.2)]
      (by simp [sources_pairs reading, Source.fill_tuple])
    obtain ⟨e, member, same⟩ := there _ List.mem_cons_self
    obtain ⟨e', member', same'⟩ := there _ (List.mem_cons_of_mem _ List.mem_cons_self)
    refine ⟨st, contents, reading ▸ holds, ?_⟩
    simp only [records, reading]
    refine List.ne_nil_of_mem (mem_joined _ _ member member' ?_)
    rw [same, same']
    exact meets_fill reading (fun _ => first_mem op) rfl rfl

/-- A query that reads the relation it inserts into, or whose output is too long for
a page, does not complete with all contents if it adds something with some. -/
theorem Completes.confined {atof : Name → Nat} (completes : q.Completes atof)
    (user : ∀ s ∈ q.target :: q.reading.sources, UserName s.relation) : q.Confined atof := by
  by_contra loose
  rw [Confined, Barren, not_or, not_or] at loose
  obtain ⟨reads, sources, met⟩ := loose
  push Not at reads sources met
  have met' (source : Source) (d : AttrDesc) (op : Operator) (value : Value)
    (reading : q.reading = .only source d op value) :
      ∃ o, source.Tuple o ∧ (condition atof d op value.text).matchRec o = true := by
    simpa using met source d op value reading
  obtain ⟨st, contents, holds, some⟩ := exists_records user sources met'
  have narrow : AttrDesc.total q.target.attrs ≤ 1000 :=
    completes.narrow (fun s read => holds s (List.mem_cons_of_mem _ read))
      (holds q.target List.mem_cons_self) some
  have roomy : q.Roomy := ⟨user, List.forall_mem_cons.mpr ⟨narrow, sources⟩⟩
  obtain ⟨s, read, same⟩ : ∃ s ∈ q.reading.sources, s.relation = q.target.relation := by
    by_contra apart
    push Not at apart
    exact absurd narrow (not_le.mpr (reads apart))
  have target : s = q.target := q.known s read q.target List.mem_cons_self same
  have sound := q.sound
  cases reading : q.reading with
  | all source =>
    obtain rfl : s = source := by simpa [reading, Reads.sources] using read
    subst target
    have only := listed_single (q := q) (by rw [reading]; rfl)
    obtain ⟨d, listed⟩ := List.exists_mem_of_ne_nil _ q.target.attrs_ne_nil
    obtain ⟨b, tuple, _, fixed⟩ := q.exists_fixed listed (q.target.fill_tuple fun _ => 0) only
    exact not_completes_select roomy only (fun fuel => by rw [scan, reading]) (by simp)
      tuple (by simp) fixed completes
  | only source d op value =>
    obtain rfl : s = source := by simpa [reading, Reads.sources] using read
    rw [reading] at sound
    obtain ⟨sound, -⟩ := sound
    obtain ⟨o, tuple, meets⟩ := met' s d op value reading
    subst target
    have only := listed_single (q := q) (by rw [reading]; rfl)
    obtain ⟨b, tuple', field, fixed⟩ := q.exists_fixed sound tuple only
    have meets' : (condition atof d op value.text).matchRec b = true := by
      rw [condition, AttrDesc.filter_matchRec (Source.inside sound tuple'), field,
        ← AttrDesc.filter_matchRec (Source.inside sound tuple)]
      exact meets
    exact not_completes_select roomy only (fun fuel => by rw [scan, reading])
      (accepted atof sound op value.text) tuple' (by simpa using meets') fixed completes
  | pairs left right x op y =>
    have sources := sources_pairs reading
    rcases List.mem_pair.mp (sources ▸ read) with rfl | rfl
    · exact not_completes_left roomy reading target.symm completes
    · by_cases one : left.relation = s.relation
      · have both : left = s := q.known left (by simp [sources]) s (List.mem_cons_of_mem _ read) one
        exact not_completes_left roomy reading (target.symm.trans both.symm) completes
      · exact not_completes_right roomy reading target.symm one completes

end IntoQuery
end Minirel
