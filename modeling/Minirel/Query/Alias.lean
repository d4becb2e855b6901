import Minirel.Alias
import Minirel.Lib.Pairs
import Minirel.Query.Endless
import Minirel.Query.Source

/-! Aliases in joins of two tables. The parser replaces an alias by the name of a
relation and the join goes by that name alone, so that in a join of a relation with
itself all fields come from the tuple of the outer scan. -/
namespace Minirel
open Program

theorem flatMap_eq_iff {α β : Type} {l : List α} {f g : α → List β}
    (lengths : ∀ a ∈ l, (f a).length = (g a).length) : l.flatMap f = l.flatMap g ↔
      ∀ a ∈ l, f a = g a := by
  induction l with
  | nil => simp
  | cons a l ih =>
    rw [List.forall_mem_cons] at lengths
    rw [List.flatMap_cons, List.flatMap_cons, List.forall_mem_cons, ← ih lengths.2]
    exact ⟨fun same => List.append_inj same lengths.1, fun ⟨first, rest⟩ => by rw [first, rest]⟩

/-! Queries. -/

inductive Side
  | first | second
deriving DecidableEq, Repr

/-- `select items from T1 a, T2 b where a.x op b.y`. A relation that occurs twice
has the same attributes; the tuples and the output fit on a page. -/
structure PairQuery where
  table : Side → Source
  narrow : ∀ side, AttrDesc.total (table side).attrs ≤ 1000
  aliasName : Side → Name
  same : (table .first).relation = (table .second).relation → table .first = table .second
  items : List (Side × AttrDesc)
  nonempty : items ≠ []
  listed : ∀ item ∈ items, item.2 ∈ (table item.1).attrs
  fits : AttrDesc.total (items.map Prod.snd) ≤ 1000
  x : AttrDesc
  op : Operator
  y : AttrDesc
  first : x ∈ (table .first).attrs
  second : y ∈ (table .second).attrs

def Side.pick (o i : List UInt8) : Side → List UInt8
  | .first => o
  | .second => i

namespace PairQuery

def node (q : PairQuery) : Except AliasError QueryNode :=
  query (q.items.map fun item => ⟨some (q.aliasName item.1), item.2.attrName⟩) none
    [⟨(q.table .first).relation, some (q.aliasName .first)⟩,
      ⟨(q.table .second).relation, some (q.aliasName .second)⟩]
    (some (.join ⟨some (q.aliasName .first), q.x.attrName⟩ q.op
      ⟨some (q.aliasName .second), q.y.attrName⟩))

def meets (q : PairQuery) (o i : List UInt8) : Bool := (joinFilter q.x q.y q.op o).matchRec i

def output (q : PairQuery) (o i : List UInt8) : List UInt8 :=
  q.items.flatMap fun item => item.2.field (item.1.pick o i)

def records (q : PairQuery) (left right : List Entry) : List (List UInt8) :=
  Pairs.values q.meets q.output (left.map Prod.snd) (right.map Prod.snd)

/-- The call that interp makes of the query node adds these records to the result. -/
def Answers (q : PairQuery) (st : Flat) (result : Name) (results : List Entry)
    (bytes : List (List UInt8)) : Prop :=
  ∃ attrlist joinattr1 joinattr2 g results',
    q.node = .ok ⟨none, attrlist, some (.join joinattr1 q.op joinattr2)⟩ ∧
    Returns Flat.handle (quNLJoin · result (attrlist.map QualAttr.info) joinattr1.info q.op
      joinattr2.info) st
      (.ok, st.put result g) ∧
    Table (st.put result g) result id results' ∧ Gained results results' bytes

/-- For all contents of the relations the result gains the records it should. -/
def Faithful (q : PairQuery) : Prop :=
  ∀ (st : Flat) (result : Name) (left right results : List Entry),
    Relation st (q.table .first).relation (q.table .first).attrs left →
    Relation st (q.table .second).relation (q.table .second).attrs right →
    Table st result id results → result ≠ [] → (∀ side, (q.table side).relation ≠ result) →
    q.Answers st result results (q.records left right)

/-- Two tuples have the same values of the items of one side. -/
def Agree (q : PairQuery) (side : Side) (o i : List UInt8) : Prop :=
  ∀ d, (side, d) ∈ q.items → d.field o = d.field i

/-- The second alias is not taken for the first table. If there is but one relation,
each matching pair agrees on what is selected from the second tuple, or it agrees on
the rest and also matches the other way around. -/
structure Separate (q : PairQuery) : Prop where
  distinct : (q.table .first).relation ≠ (q.table .second).relation →
    q.aliasName .second ≠ (q.table .first).relation ∧ q.aliasName .second ≠ q.aliasName .first
  same : (q.table .first).relation = (q.table .second).relation →
    ∀ o i, (q.table .first).Tuple o → (q.table .first).Tuple i → q.meets o i = true →
      q.Agree .second o i ∨ q.meets i o = true ∧ q.Agree .first o i

/-! The replacement. -/

def resolve (q : PairQuery) : Side → Name
  | .first => (q.table .first).relation
  | .second =>
    if q.aliasName .second = (q.table .first).relation ∨ q.aliasName .second = q.aliasName .first then
      (q.table .first).relation
    else (q.table .second).relation

def qualified (q : PairQuery) (side : Side) (d : AttrDesc) : QualAttr :=
  ⟨q.resolve side, d.attrName⟩

theorem replaceAlias_eq (q : PairQuery) (side : Side) (d : AttrDesc) :
    replaceAlias [⟨(q.table .first).relation, some (q.aliasName .first)⟩,
      ⟨(q.table .second).relation, some (q.aliasName .second)⟩]
        ⟨some (q.aliasName side), d.attrName⟩ =
      .ok (q.qualified side d) := by
  cases side with
  | first =>
    by_cases own : (q.table .first).relation = q.aliasName .first
    · simp [replaceAlias, findMatchInAlias, qualified, resolve, own]
    · simp [replaceAlias, findMatchInAlias, qualified, resolve, own]
  | second =>
    by_cases other : (q.table .first).relation = q.aliasName .second
    · simp [replaceAlias, findMatchInAlias, qualified, resolve, other]
    · by_cases alike : q.aliasName .first = q.aliasName .second
      · simp [replaceAlias, findMatchInAlias, qualified, resolve, alike, other]
      · by_cases own : (q.table .second).relation = q.aliasName .second
        · simp [replaceAlias, findMatchInAlias, qualified, resolve, other, alike, own,
            Ne.symm other, Ne.symm alike]
        · simp [replaceAlias, findMatchInAlias, qualified, resolve, other, alike, own,
            Ne.symm other, Ne.symm alike]

theorem node_eq (q : PairQuery) :
    q.node = .ok ⟨none, q.items.map fun item => q.qualified item.1 item.2,
    some (.join (q.qualified .first q.x) q.op (q.qualified .second q.y))⟩ := by
  have list (items : List (Side × AttrDesc)) :
      replaceAliasInQualattrList [⟨(q.table .first).relation, some (q.aliasName .first)⟩,
        ⟨(q.table .second).relation, some (q.aliasName .second)⟩]
          (items.map fun item => ⟨some (q.aliasName item.1), item.2.attrName⟩) =
        .ok (items.map fun item => q.qualified item.1 item.2) := by
    induction items with
    | nil => rfl
    | cons item items ih =>
      simp only [List.map_cons, replaceAliasInQualattrList, replaceAlias_eq, ih]
      rfl
  simp only [node, query, list, Option.mapM_some, replaceAliasInCondition, replaceAlias_eq]
  rfl

def call (q : PairQuery) (result : Name) (fuel : Nat) : Prog Status :=
  quNLJoin fuel result (q.items.map fun item => (q.qualified item.1 item.2).info)
    (q.qualified .first q.x).info q.op
    (q.qualified .second q.y).info

variable {q : PairQuery} {st : Flat} {result : Name} {results left right : List Entry}
    {bytes bytes' : List (List UInt8)}

/-- Alias replacement aside, the call is what counts. -/
theorem answers_iff : q.Answers st result results bytes ↔
    ∃ g results', Returns Flat.handle (q.call result) st (.ok, st.put result g) ∧
      Table (st.put result g) result id results' ∧ Gained results results' bytes := by
  constructor
  · rintro ⟨attrlist, joinattr1, joinattr2, g, results', parsed, returns, rest⟩
    rw [node_eq] at parsed
    cases parsed
    rw [List.map_map] at returns
    exact ⟨g, results', returns, rest⟩
  · rintro ⟨g, results', returns, rest⟩
    refine ⟨_, _, _, g, results', q.node_eq, ?_, rest⟩
    rw [List.map_map]
    exact returns

/-- The result determines the records that it gained. -/
theorem Answers.perm (answers : q.Answers st result results bytes)
    (answers' : q.Answers st result results bytes') :
    bytes.Perm bytes' := by
  obtain ⟨g, after, returns, table, gained⟩ := answers_iff.mp answers
  obtain ⟨g', after', returns', table', gained'⟩ := answers_iff.mp answers'
  have same : st.put result g = st.put result g' := congrArg Prod.snd (returns.unique returns')
  rw [← same] at table'
  cases table.unique table'
  exact (List.perm_append_left_iff _).mp (gained.contents.symm.trans gained'.contents)

/-! The join. -/

theorem attrLen (q : PairQuery) {side : Side} {d : AttrDesc} (listed : d ∈ (q.table side).attrs) :
    1 ≤ d.attrLen ∧ d.attrLen ≤ 1000 := by
  obtain ⟨low, length, high⟩ := Source.placed listed
  have narrow := q.narrow side
  omega

theorem lengths (q : PairQuery) : ∀ d ∈ q.items.map Prod.snd, 1 ≤ d.attrLen ∧ d.attrLen ≤ 1000 :=
  List.forall_mem_map.mpr fun item member => q.attrLen (q.listed item member)

theorem width_pos (q : PairQuery) : 1 ≤ AttrDesc.total (q.items.map Prod.snd) := by
  have bounds := AttrDesc.total_bounds q.lengths
  have some := List.length_pos_iff.mpr q.nonempty
  rw [List.length_map] at bounds
  omega

/-- If the second alias stands for the second table, then the call is the join of
the two tables. -/
theorem answers_joined (resolved : q.resolve .second = (q.table .second).relation)
    (relation : Relation st (q.table .first).relation (q.table .first).attrs left)
    (relation' : Relation st (q.table .second).relation (q.table .second).attrs right)
    (table : Table st result id results) (named : result ≠ [])
    (apart : ∀ side, (q.table side).relation ≠ result) :
    q.Answers st result results
      (joined (q.table .first).relation (q.items.map Prod.snd) q.x q.y q.op left right) := by
  have stands (side : Side) : q.resolve side = (q.table side).relation := by
    cases side with
    | first => rfl
    | second => exact resolved
  have found (side : Side) (d : AttrDesc) (listed : d ∈ (q.table side).attrs) :
      Found st (q.qualified side d).info d := by
    rw [qualified, stands]
    cases side with
    | first => exact Source.found relation listed
    | second => exact Source.found relation' listed
  have projects : List.Forall₂ (Found st) (q.items.map fun item => (q.qualified item.1 item.2).info)
      (q.items.map Prod.snd) := by
    rw [List.forall₂_map_left_iff, List.forall₂_map_right_iff, List.forall₂_same]
    exact fun item member => found item.1 item.2 (q.listed item member)
  have listed : ∀ d ∈ q.items.map Prod.snd, d ∈ (q.table .first).attrs ∨
      d ∈ (q.table .second).attrs := by
    rw [List.forall_mem_map]
    rintro ⟨side, d⟩ member
    cases side with
    | first => exact .inl (q.listed _ member)
    | second => exact .inr (q.listed _ member)
  have type := (Source.attr_typed q.second).kind
  rw [answers_iff]
  exact quNLJoin_spec relation relation' ⟨rfl, rfl⟩ projects (found .first q.x q.first)
    (found .second q.y q.second)
    q.first q.second (by omega) (fun o => (Source.attr_typed q.second).comparable.accepted _ _)
      table named (apart .first)
    (apart .second) listed q.width_pos q.fits

theorem joined_values (source : List UInt8 → List UInt8 → Side → List UInt8)
    (copied : ∀ o i, ∀ item ∈ q.items, joinSource (q.table .first).relation o i item.2 =
      source o i item.1)
    (left right : List Entry) :
    joined (q.table .first).relation (q.items.map Prod.snd) q.x q.y q.op left right =
      Pairs.values q.meets (fun o i => q.items.flatMap fun item => item.2.field (source o i item.1))
        (left.map Prod.snd) (right.map Prod.snd) := by
  have output (o i : List UInt8) : projection (joinSource (q.table .first).relation o i)
    (q.items.map Prod.snd) =
      q.items.flatMap fun item => item.2.field (source o i item.1) := by
    rw [projection, List.flatMap_map]
    exact List.flatMap_congr fun item member => by rw [copied o i item member]
  rw [Pairs.values, ← flatMap_contents]
  simp only [joined, output]
  rfl

/-- Tuples of two relations are told apart by the names of the relations. -/
theorem joined_distinct (distinct : (q.table .first).relation ≠ (q.table .second).relation)
    (left right : List Entry) :
    joined (q.table .first).relation (q.items.map Prod.snd) q.x q.y q.op left right =
      q.records left right := by
  refine joined_values (fun o i side => side.pick o i) ?_ left right
  rintro o i ⟨side, d⟩ member
  have relName : d.relName = (q.table side).relation := Source.relName (q.listed _ member)
  cases side with
  | first => simp only [joinSource, relName, if_true, Side.pick]
  | second => simp only [joinSource, relName, Ne.symm distinct, if_false, Side.pick]

/-- Within one relation all fields come from the first tuple. -/
theorem joined_same (same : (q.table .first).relation = (q.table .second).relation)
    (left right : List Entry) :
    joined (q.table .first).relation (q.items.map Prod.snd) q.x q.y q.op left right =
      Pairs.values q.meets (fun o _ => q.output o o) (left.map Prod.snd) (right.map Prod.snd) := by
  refine joined_values (fun o _ side => side.pick o o) ?_ left right
  rintro o i ⟨side, d⟩ member
  have relName : d.relName = (q.table side).relation := Source.relName (q.listed _ member)
  cases side with
  | first => simp only [joinSource, relName, if_true, Side.pick]
  | second => simp only [joinSource, relName, same, if_true, Side.pick]

/-! The fields. -/

section fields
variable {o i : List UInt8}

theorem Agree.symm {side : Side} (agree : q.Agree side o i) : q.Agree side i o :=
  fun d member => (agree d member).symm

/-- Fields have the same length in all tuples of the one relation. -/
theorem field_length (same : q.table .first = q.table .second) (left : (q.table .first).Tuple o)
    (right : (q.table .first).Tuple i) {item : Side × AttrDesc} (member : item ∈ q.items) :
    (item.2.field o).length = (item.2.field i).length := by
  have listed : item.2 ∈ (q.table .first).attrs := by
    have listed := q.listed item member
    cases side : item.1 with
    | first => rwa [side] at listed
    | second => rwa [side, ← same] at listed
  have first := AttrDesc.field_length (Source.inside listed left)
  have second := AttrDesc.field_length (Source.inside listed right)
  omega

theorem output_eq_left (same : q.table .first = q.table .second) (left : (q.table .first).Tuple o)
    (right : (q.table .first).Tuple i) : q.output o i = q.output o o ↔ q.Agree .second o i := by
  rw [output, output, flatMap_eq_iff]
  · constructor
    · intro all d member
      exact (all (.second, d) member).symm
    · rintro agree ⟨side, d⟩ member
      cases side with
      | first => rfl
      | second => exact (agree d member).symm
  · rintro ⟨side, d⟩ member
    cases side with
    | first => rfl
    | second => exact field_length same right left member

theorem output_eq_right (same : q.table .first = q.table .second) (left : (q.table .first).Tuple o)
    (right : (q.table .first).Tuple i) : q.output o i = q.output i i ↔ q.Agree .first o i := by
  rw [output, output, flatMap_eq_iff]
  · constructor
    · intro all d member
      exact all (.first, d) member
    · rintro agree ⟨side, d⟩ member
      cases side with
      | first => exact agree d member
      | second => rfl
  · rintro ⟨side, d⟩ member
    cases side with
    | first => exact field_length same left right member
    | second => rfl

end fields

theorem Answers.of_perm (answers : q.Answers st result results bytes) (perm : bytes.Perm bytes') :
    q.Answers st result results bytes' := by
  obtain ⟨g, results', returns, table, gained⟩ := answers_iff.mp answers
  exact answers_iff.mpr ⟨g, results', returns, table, gained.of_perm perm⟩

theorem resolve_same (same : (q.table .first).relation = (q.table .second).relation) :
    q.resolve .second = (q.table .second).relation := by
  rw [resolve, same, ite_self]

theorem Separate.faithful (separate : q.Separate) : q.Faithful := by
  intro st result left right results relation relation' table named apart
  by_cases same : (q.table .first).relation = (q.table .second).relation
  · have answers := answers_joined (resolve_same same) relation relation' table named apart
    have one : q.table .first = q.table .second := q.same same
    obtain rfl : left = right := relation.table.unique (same ▸ relation'.table)
    have tuple : ∀ o ∈ left.map Prod.snd, (q.table .first).Tuple o :=
      List.forall_mem_map.mpr relation.width
    rw [joined_same same] at answers
    refine answers.of_perm (Pairs.values_perm (q.Agree .second) (fun _ _ => Agree.symm) ?_ ?_).symm
    · intro o first i second _ agree
      exact (output_eq_left one (tuple o first) (tuple i second)).mpr agree
    · intro o first i second meets differ
      obtain ⟨back, agree⟩ :=
        (separate.same same o i (tuple o first) (tuple i second) meets).resolve_left differ
      exact ⟨back, (output_eq_right one (tuple o first) (tuple i second)).mpr agree⟩
  · obtain ⟨other, alike⟩ := separate.distinct same
    have resolved : q.resolve .second = (q.table .second).relation := if_neg (not_or.mpr ⟨other, alike⟩)
    rw [← joined_distinct same]
    exact answers_joined resolved relation relation' table named apart

/-! Databases that show the difference. -/

theorem exists_result (a b : Name) : ∃ s : Setup, s.Sound ∧ s.contents = [] ∧ a ≠ s.relation ∧
    b ≠ s.relation := by
  let result (name : Name) : Setup := ⟨name, [⟨name, chars "c", 0, 1, none⟩], []⟩
  by_cases first : a ≠ chars "t" ∧ b ≠ chars "t"
  · exact ⟨result (chars "t"), by decide, rfl, first⟩
  by_cases second : a ≠ chars "u" ∧ b ≠ chars "u"
  · exact ⟨result (chars "u"), by decide, rfl, second⟩
  · refine ⟨result (chars "v"), by decide, rfl, ?_⟩
    have apart : chars "t" ≠ chars "u" ∧ chars "t" ≠ chars "v" ∧ chars "u" ≠ chars "v" := by decide
    grind

theorem setup_sound (q : PairQuery) {side : Side} (user : UserName (q.table side).relation)
    {tuples : List (List UInt8)} (sized : ∀ o ∈ tuples, (q.table side).Tuple o) :
    ((q.table side).setup tuples).Sound := by
  refine Source.setup_sound user fun o member => ⟨sized o member, ?_⟩
  have tuple := sized o member
  have narrow := q.narrow side
  rw [Source.Tuple] at tuple
  omega

/-- In a join of a relation with itself two tuples show the difference. -/
theorem Faithful.agree (faithful : q.Faithful) (user : UserName (q.table .first).relation)
    (same : (q.table .first).relation = (q.table .second).relation) {o i : List UInt8}
    (left : (q.table .first).Tuple o) (right : (q.table .first).Tuple i)
    (meets : q.meets o i = true) :
    q.Agree .second o i ∨ q.meets i o = true ∧ q.Agree .first o i := by
  have one := q.same same
  obtain ⟨s, sound, _, apart, _⟩ := exists_result (q.table .first).relation (q.table .first).relation
  obtain ⟨st, holds⟩ := exists_database [(q.table .first).setup [o, i], s]
    (by simpa using ⟨q.setup_sound user (by simpa using ⟨left, right⟩), sound⟩)
      (by simpa [Source.setup] using apart)
  obtain ⟨entries, relation, contents⟩ := holds ((q.table .first).setup [o, i]) (by simp)
  obtain ⟨results, results', _⟩ := holds s (by simp)
  have relation' : Relation st (q.table .second).relation (q.table .second).attrs entries :=
    one ▸ relation
  have apart' : ∀ side, (q.table side).relation ≠ s.relation := by
    rintro (_ | _)
    · exact apart
    · rwa [← same]
  have answers := faithful st s.relation entries entries results relation relation' results'.table
    sound.named apart'
  have answers' := answers_joined (resolve_same same) relation relation' results'.table
    sound.named apart'
  rw [joined_same same] at answers'
  have perm := answers.perm answers'
  rw [records, contents] at perm
  rw [← output_eq_left one left right, ← output_eq_right one left right]
  exact Pairs.eq_of_values_perm (g := fun o => q.output o o) meets rfl rfl perm

/-- The attribute of the first relation that has the name of the compared one, if any. -/
theorem exists_namesake (q : PairQuery) : ∃ y ∈ (q.table .first).attrs,
    ∀ d ∈ (q.table .first).attrs, d.attrName = q.y.attrName → d = y := by
  by_cases described : ∃ y ∈ (q.table .first).attrs, y.attrName = q.y.attrName
  · obtain ⟨y, listed, same⟩ := described
    have distinct : ((q.table .first).attrs.map AttrDesc.attrName).Nodup := by
      rw [Source.attrs, describe_names]
      exact (q.table .first).declared.distinct
    exact ⟨y, listed, fun d listed' same' =>
      List.inj_on_of_nodup_map distinct listed' listed (same'.trans same.symm)⟩
  · push Not at described
    exact ⟨q.x, q.first, fun d listed same => absurd same (described d listed)⟩

theorem width_found (q : PairQuery) {side : Side} {descs : List AttrDesc}
    (found : List.Forall₂ (Found st)
      (q.items.map fun item => (q.qualified item.1 item.2).info) descs)
    (listed : ∀ d ∈ descs, d ∈ (q.table side).attrs) : 1 ≤ AttrDesc.total descs ∧
      AttrDesc.total descs ≤ 1000 * 1000 := by
  have length := found.length_eq
  have most := (AttrDesc.total_bounds q.lengths).1
  have some := List.length_pos_iff.mpr q.nonempty
  have bounds := AttrDesc.total_bounds fun d member => q.attrLen (listed d member)
  have fits := q.fits
  rw [List.length_map] at length most
  omega

/-- If the second alias is taken for the first table, then the second relation is
not read at all. -/
theorem not_answers (confused : ∀ side, q.resolve side = (q.table .first).relation) {o i : Entry}
    (relation : Relation st (q.table .first).relation (q.table .first).attrs [o, i])
    (table : Table st result id results) (named : result ≠ [])
    (apart : (q.table .first).relation ≠ result) {y : AttrDesc}
    (namesake : ∀ d ∈ (q.table .first).attrs, d.attrName = q.y.attrName → d = y)
    (meets : (joinFilter q.x y q.op o.2).matchRec i.2 = true) :
    ¬ q.Answers st result results [] := by
  intro answers
  obtain ⟨g, results', returns, table', gained⟩ := answers_iff.mp answers
  have of : ∀ proj ∈ q.items.map fun item => (q.qualified item.1 item.2).info,
      proj.relName = (q.table .first).relation ∧ proj.attrName ≠ [] := by
    rw [List.forall_mem_map]
    exact fun item member => ⟨confused item.1, Source.column (q.listed item member)⟩
  change Returns Flat.handle (fun fuel => q.call result fuel) st _ at returns
  simp only [call, quNLJoinBy, monadLift_self, QualAttr.info, ne_eq, not_true_eq_false, or_self,
    if_false] at returns
  rcases lookupAttrs_cases relation of with ⟨descs, found, listed⟩ | missing
  · have scanned := (returns.rest (lookupAttrs_spec found)).rest (Source.found relation q.first)
    rcases relation.lookup (q.qualified .second q.y).info (confused .second)
      (Source.column q.second) with
      ⟨d, listed₂, same, found₂⟩ | ⟨_, missing⟩
    · obtain rfl : d = y := namesake d listed₂ same
      have scan := scanned.rest found₂
      obtain ⟨low, high⟩ := q.width_found found listed
      have type := (Source.attr_typed listed₂).kind
      have accepted (o : List UInt8) :=
        (Source.attr_typed listed₂).comparable.accepted (o.drop q.x.attrOffset.toNat) q.op.flip
      have within : ∀ d ∈ descs, d ∈ (q.table .first).attrs ∨ d ∈ (q.table .first).attrs :=
        fun d member => .inl (listed d member)
      by_cases fits : AttrDesc.total descs ≤ 1000
      · -- it returns with more records than none
        obtain ⟨g', after, scan', table'', gained'⟩ :=
          joinScan_spec relation relation q.first listed₂ (by omega) accepted
          table named within low (by omega) fun _ => ⟨apart, apart, fits⟩
        have ends : st.put result g = st.put result g' := congrArg Prod.snd (scan.unique scan')
        rw [← ends] at table''
        cases table'.unique table''
        have perm := (List.perm_append_left_iff _).mp (gained.contents.symm.trans gained'.contents)
        have made : projection (joinSource (q.table .first).relation o.2 i.2) descs ∈
            joined (q.table .first).relation descs q.x d q.op [o, i] [o, i] :=
          List.mem_flatMap.mpr
            ⟨o, by simp, List.mem_map.mpr ⟨i, List.mem_filter.mpr ⟨by simp, meets⟩, rfl⟩⟩
        cases perm.symm.subset made
      · obtain ⟨bound, run⟩ := scan
        have stuck := joinScan_oversized relation relation q.first listed₂ (by omega)
          (accepted o.2) table named within
          (by omega) (by omega) (i := i) (by simp) meets bound
        cases stuck.symm.trans (run bound (Nat.le_refl bound))
    · cases (scanned.rest missing).unique (.of_run rfl)
  · cases (returns.rest missing).unique (.of_run rfl)

theorem Faithful.told (faithful : q.Faithful) (user : ∀ side, UserName (q.table side).relation)
    (distinct : (q.table .first).relation ≠ (q.table .second).relation) :
    q.aliasName .second ≠ (q.table .first).relation ∧ q.aliasName .second ≠ q.aliasName .first := by
  by_contra confused
  have resolved : ∀ side, q.resolve side = (q.table .first).relation := by
    rintro (_ | _)
    · rfl
    · exact if_pos (by tauto)
  obtain ⟨y, listed, namesake⟩ := q.exists_namesake
  obtain ⟨o, i, left, right, meets⟩ := Source.exists_meeting _ q.first listed q.op
  obtain ⟨s, sound, _, apart, apart'⟩ :=
    exists_result (q.table .first).relation (q.table .second).relation
  obtain ⟨st, holds⟩ := exists_database [(q.table .first).setup [o, i], (q.table .second).setup [], s]
    (by simpa using ⟨q.setup_sound (user .first) (by simpa using ⟨left, right⟩),
      q.setup_sound (user .second) (by simp), sound⟩)
    (by simpa [Source.setup] using ⟨⟨distinct, apart⟩, apart'⟩)
  obtain ⟨entries, relation, contents⟩ := holds ((q.table .first).setup [o, i]) (by simp)
  obtain ⟨others, relation', empty⟩ := holds ((q.table .second).setup []) (by simp)
  obtain ⟨results, results', _⟩ := holds s (by simp)
  obtain rfl : others = [] := List.map_eq_nil_iff.mp empty
  obtain ⟨e, _, rfl, rfl, rest⟩ := List.map_eq_cons_iff.mp contents
  obtain ⟨e', _, rfl, rfl, last⟩ := List.map_eq_cons_iff.mp rest
  obtain rfl := List.map_eq_nil_iff.mp last
  have answers := faithful st s.relation [e, e'] [] results relation relation' results'.table
    sound.named
    (by rintro (_ | _); exacts [apart, apart'])
  have none : q.records [e, e'] [] = [] := by simp [records, Pairs.values]
  rw [none] at answers
  exact not_answers resolved relation results'.table sound.named apart namesake meets answers

/-- Queries whose aliases are kept apart give the records they should. Among the
queries on relations of the user, whose contents can be any tuples, no others do. -/
theorem faithful_iff_separate (q : PairQuery) : (q.Separate → q.Faithful) ∧
    ((∀ side, UserName (q.table side).relation) → (q.Faithful ↔ q.Separate)) := by
  refine ⟨Separate.faithful, fun user =>
    ⟨fun faithful => ⟨faithful.told user, fun same o i left right meets => ?_⟩, Separate.faithful⟩⟩
  exact faithful.agree (user .first) same left right meets

/-- `select a.c, b.c from r a, s b where a.c < b.c`. -/
def twoTables : PairQuery where
  table
    | .first => .tableR
    | .second => .tableS
  narrow := by rintro (_ | _) <;> decide
  aliasName
    | .first => chars "a"
    | .second => chars "b"
  same same := absurd same (by decide)
  items := [(.first, ⟨chars "r", chars "c", 0, 1, 4⟩), (.second, ⟨chars "s", chars "c", 0, 1, 4⟩)]
  nonempty := by decide
  listed := by decide
  fits := by decide
  x := ⟨chars "r", chars "c", 0, 1, 4⟩
  op := .lt
  y := ⟨chars "s", chars "c", 0, 1, 4⟩
  first := by decide
  second := by decide

/-- Two relations, with aliases that are not names of relations. -/
theorem twoTables_faithful : (∀ side, UserName (twoTables.table side).relation) ∧
    twoTables.Separate ∧ twoTables.Faithful := by
  have user : ∀ side, UserName (twoTables.table side).relation := by
    rintro (_ | _)
    · decide
    · decide
  have separate : twoTables.Separate := ⟨fun _ => by decide, fun same => absurd same (by decide)⟩
  exact ⟨user, separate, ((faithful_iff_separate twoTables).2 user).mpr separate⟩

/-- `select b.c from r a, r b where a.c < b.c`. -/
def selfJoin : PairQuery where
  table _ := .tableR
  narrow := by rintro (_ | _) <;> decide
  aliasName
    | .first => chars "a"
    | .second => chars "b"
  same _ := rfl
  items := [(.second, ⟨chars "r", chars "c", 0, 1, 4⟩)]
  nonempty := by decide
  listed := by decide
  fits := by decide
  x := ⟨chars "r", chars "c", 0, 1, 4⟩
  op := .lt
  y := ⟨chars "r", chars "c", 0, 1, 4⟩
  first := by decide
  second := by decide

/-- With the records 1 and 2 the result should be 2. It is 1. -/
theorem selfJoin_takes_first : ¬ selfJoin.Faithful ∧ ∃ st entries,
    Relation st (chars "r") (selfJoin.table .first).attrs entries ∧
    entries.map Prod.snd = [[1, 0, 0, 0], [2, 0, 0, 0]] ∧
      selfJoin.records entries entries = [[2, 0, 0, 0]] ∧
    selfJoin.Answers st (chars "t") [] [[1, 0, 0, 0]] := by
  let t : Setup := ⟨chars "t", [⟨chars "t", chars "c", 1, 4, none⟩], []⟩
  obtain ⟨st, holds⟩ :=
    exists_database [(selfJoin.table .first).setup [[1, 0, 0, 0], [2, 0, 0, 0]], t] (by decide)
      (by decide)
  obtain ⟨entries, relation, contents⟩ := holds _ List.mem_cons_self
  obtain ⟨results, relation', empty⟩ := holds t (by simp)
  obtain rfl : results = [] := List.map_eq_nil_iff.mp empty
  have apart : ∀ side, (selfJoin.table side).relation ≠ chars "t" := by
    rintro (_ | _)
    · decide
    · decide
  have answers := answers_joined (q := selfJoin) (resolve_same rfl) relation relation
    relation'.table relation'.named apart
  have wanted : selfJoin.records entries entries = [[2, 0, 0, 0]] := by
    rw [records, contents]
    decide
  have made : joined (selfJoin.table .first).relation (selfJoin.items.map Prod.snd) selfJoin.x
    selfJoin.y selfJoin.op
      entries entries = [[1, 0, 0, 0]] := by
    rw [joined_same rfl, contents]
    decide
  rw [made] at answers
  refine ⟨fun faithful => ?_, st, entries, relation, contents, wanted, answers⟩
  have answers' := faithful st _ entries entries [] relation relation relation'.table
    relation'.named apart
  rw [wanted] at answers'
  exact absurd (answers.perm answers') (by decide)

end PairQuery
end Minirel
