import Minirel.Parser

/-! How many nodes a command takes, and so which of the commands that the
interpreter accepts can be parsed at all. -/
namespace Minirel

namespace Parser
open Budget

theorem newnode_takes : Takes maxNode newnode 1 () := by
  intro used room
  change (if used = maxNode then none else some ((), used + 1)) = _
  by_cases full : used = maxNode
  · rw [if_pos full, if_neg (by omega)]
  · rw [if_neg full, if_pos (by omega)]

theorem node_takes {α : Type} (members : α) : Takes maxNode (node members) 1 members :=
  newnode_takes.bind (m := 0) (.pure members)

theorem someNode_takes {α : Type} (members : α) :
    Takes maxNode (some <$> node members) 1 (some members) :=
  (node_takes members).map some

/-- A list takes the nodes of its elements and one more for each of them. -/
theorem listOf_takes {α β : Type} {item : α → Build β} {cost : α → Nat} {value : α → β}
    (each : ∀ x, Takes maxNode (item x) (cost x) (value x)) (xs : List α) :
    Takes maxNode (listOf item xs) (xs.length + (xs.map cost).sum) (xs.map value) := by
  induction xs with
  | nil => exact .pure []
  | cons x xs ih =>
    have total : (x :: xs).length + ((x :: xs).map cost).sum = cost x +
        (xs.length + (xs.map cost).sum + 1) := by
      simp only [List.length_cons, List.map_cons, List.sum_cons]
      omega
    rw [total]
    exact (each x).bind (ih.bind (node_takes _))

theorem plainList_takes {α : Type} {item : α → Build α} (each : ∀ x, Takes maxNode (item x) 1 x)
    (xs : List α) :
    Takes maxNode (listOf item xs) (2 * xs.length) xs := by
  have takes := listOf_takes each xs
  rw [List.map_id', List.map_const', List.sum_replicate_nat] at takes
  rwa [show 2 * xs.length = xs.length + xs.length * 1 by omega]

/-- Whether the type of a column comes with a value. -/
def ColumnType.lengthNodes : ColumnType → Nat
  | .char _ => 1
  | _ => 0

def Column.attrType (column : Column) : AttrType := ⟨column.name, column.type.format⟩

theorem attrtype_takes (column : Column) :
    Takes maxNode (attrtype column) (column.type.lengthNodes + 1) column.attrType := by
  refine .bind (a := ()) ?_ (node_takes _)
  cases column.type with
  | char ival => exact newnode_takes
  | int => exact .pure ()
  | real => exact .pure ()
  | plainChar => exact .pure ()

theorem optPrimaryAttr_takes (primary : Option (Name × Int)) :
    Takes maxNode (optPrimaryAttr primary) primary.toList.length () := by
  cases primary with
  | none => exact .pure ()
  | some attr => exact newnode_takes

theorem optWhere_takes (condition : Option Condition) :
    Takes maxNode (optWhere condition) (3 * condition.toList.length) condition := by
  cases condition with
  | none => exact .pure none
  | some condition =>
    cases condition with
    | select attr op v =>
      exact (node_takes attr).bind (m := 2) ((node_takes v).bind (m := 1) (someNode_takes _))
    | join attr1 op attr2 =>
      exact (node_takes attr1).bind (m := 2) ((node_takes attr2).bind (m := 1) (someNode_takes _))

theorem insert_takes {relname : Name} {attribs : List Name} {values : List Value}
    {attrlist : List AttrVal} (merged : mergeAttrValueList attribs values = some attrlist) :
    Takes maxNode (command (.insert relname attribs values))
      (2 * attribs.length + (2 * values.length + 1)) (some (.insert relname attrlist)) := by
  refine (plainList_takes node_takes attribs).bind ((plainList_takes node_takes values).bind ?_)
  rw [merged]
  exact someNode_takes _

theorem create_takes (relname : Name) (columns : List Column) (primary : Option (Name × Int)) :
    Takes maxNode (command (.create relname columns primary))
      (columns.length + (columns.map fun column => column.type.lengthNodes + 1).sum +
        (primary.toList.length + 1))
      (some (.create relname (columns.map Column.attrType))) :=
  (listOf_takes attrtype_takes columns).bind ((optPrimaryAttr_takes primary).bind (someNode_takes _))

theorem query_takes {qualattrs : List AttrNode} {into : Option Name} {tables : List Alias}
    {condition : Option Condition} {q : QueryNode}
    (found : Minirel.query qualattrs into tables condition = .ok q) :
    Takes maxNode (command (.query qualattrs into tables condition))
      (2 * qualattrs.length + (2 * tables.length + (3 * condition.toList.length + 1)))
        (some (.query q)) := by
  refine (plainList_takes node_takes qualattrs).bind
    ((plainList_takes node_takes tables).bind ((optWhere_takes condition).bind ?_))
  rw [found]
  exact someNode_takes _

theorem length_of_merged {attribs : List Name} {values : List Value} {attrlist : List AttrVal}
    (merged : mergeAttrValueList attribs values = some attrlist) :
    values.length = attribs.length := by
  induction attribs generalizing values attrlist with
  | nil =>
    cases values with
    | nil => rfl
    | cons value values => cases merged
  | cons attr attribs ih =>
    cases values with
    | nil => cases merged
    | cons value values =>
      obtain ⟨rest, merged, -⟩ := Option.map_eq_some_iff.mp merged
      rw [List.length_cons, List.length_cons, ih merged]

theorem length_of_mkAttrnames {room : Nat} {relname : Option Name} {list : List QualAttr}
    {names : List Name × Option Name} (accepted : mkAttrnames room relname list = .ok names) :
    list.length < room := by
  induction room generalizing relname list names with
  | zero => cases accepted
  | succ room ih =>
    cases list with
    | nil => simp
    | cons attr list =>
      rw [mkAttrnames] at accepted
      split at accepted
      · cases accepted
      · split at accepted
        · cases accepted
        next rest => simpa using ih rest

theorem length_of_replaced {tables : List Alias} {list : List AttrNode} {attrs : List QualAttr}
    (replaced : replaceAliasInQualattrList tables list = .ok attrs) :
    attrs.length = list.length := by
  induction list generalizing attrs with
  | nil =>
    cases replaced
    rfl
  | cons attr list ih =>
    cases first : replaceAlias tables attr with
    | error e => simp [replaceAliasInQualattrList, first, bind, Except.bind] at replaced
    | ok attr' =>
      cases rest : replaceAliasInQualattrList tables list with
      | error e => simp [replaceAliasInQualattrList, first, rest, bind, Except.bind] at replaced
      | ok attrs' =>
        simp only [replaceAliasInQualattrList, first, rest, bind, Except.bind, pure, Except.pure,
          Except.ok.injEq]
          at replaced
        rw [← replaced, List.length_cons, List.length_cons, ih rest]

theorem length_of_query {qualattrs : List AttrNode} {into : Option Name} {tables : List Alias}
    {condition : Option Condition} {q : QueryNode}
    (found : Minirel.query qualattrs into tables condition = .ok q) :
    q.attrlist.length = qualattrs.length := by
  cases replaced : replaceAliasInQualattrList tables qualattrs with
  | error e => simp [Minirel.query, replaced, bind, Except.bind] at found
  | ok attrs =>
    cases qual : condition.mapM (replaceAliasInCondition tables) with
    | error e => simp [Minirel.query, replaced, qual, bind, Except.bind] at found
    | ok qual' =>
      simp only [Minirel.query, replaced, qual, bind, Except.bind, pure, Except.pure,
        Except.ok.injEq] at found
      rw [← found]
      exact length_of_replaced replaced

/-- The interpreter gets beyond the lists of the command: they are not too long
and each entry is legal. A query is one of a single table. -/
def Accepted : Command → Prop
  | .query qualattrs into tables condition => tables.length = 1 ∧ ∃ q relname names,
      Minirel.query qualattrs into tables condition = .ok q ∧
        mkAttrnames maxAttrs relname q.attrlist = .ok names
  | .insert relname attribs values => ∃ attrlist attrs,
      mergeAttrValueList attribs values = some attrlist ∧
        mkInsAttrs relname maxAttrs attrlist = .ok attrs
  | .create relname columns _ =>
    ∃ attrs, mkAttrDescrs relname maxAttrs (columns.map Column.attrType) = .ok attrs
  | _ => True

/-- A limit on `INSERT` and `CREATE` alone. -/
def Modest : Command → Prop
  | .insert _ attribs _ => attribs.length ≤ 24
  | .create _ columns primary =>
    2 * columns.length + (columns.map fun column => column.type.lengthNodes).sum +
      primary.toList.length < maxNode
  | _ => True

theorem sum_attrtypes (columns : List Column) :
    (columns.map fun column => column.type.lengthNodes + 1).sum =
      (columns.map fun column => column.type.lengthNodes).sum + columns.length := by
  induction columns with
  | nil => rfl
  | cons column columns ih =>
    simp only [List.map_cons, List.sum_cons, List.length_cons, ih]
    omega

/-- A command that the interpreter accepts is parsed, and the process does not
exit, if and only if it is modest. -/
theorem parsed_iff_modest {c : Command} (accepted : Accepted c) : (command c).run 0 ≠ none ↔
    Modest c := by
  cases c with
  | query qualattrs into tables condition =>
    obtain ⟨single, q, relname, names, found, accepted⟩ := accepted
    have short := length_of_mkAttrnames accepted
    rw [length_of_query found, maxAttrs] at short
    refine iff_of_true ((query_takes found).succeeds_iff.mpr ?_) trivial
    have one : condition.toList.length ≤ 1 := by cases condition <;> simp
    rw [maxNode]
    omega
  | insert relname attribs values =>
    obtain ⟨attrlist, -, merged, -⟩ := accepted
    rw [(insert_takes merged).succeeds_iff, length_of_merged merged, Modest, maxNode]
    omega
  | create relname columns primary =>
    rw [(create_takes relname columns primary).succeeds_iff, sum_attrtypes, Modest]
    omega
  | delete relname condition =>
    have one : condition.toList.length ≤ 1 := by cases condition <;> simp
    have takes : Takes maxNode (command (.delete relname condition)) _ _ :=
      (optWhere_takes condition).bind (someNode_takes _)
    refine iff_of_true (takes.succeeds_iff.mpr ?_) trivial
    rw [maxNode]
    omega
  | destroy relname => exact iff_of_true ((someNode_takes _).succeeds_iff.mpr (by decide)) trivial
  | index => exact iff_of_true ((someNode_takes _).succeeds_iff.mpr (by decide)) trivial
  | load relname filename => exact iff_of_true ((someNode_takes _).succeeds_iff.mpr (by decide)) trivial
  | print relname => exact iff_of_true ((someNode_takes _).succeeds_iff.mpr (by decide)) trivial
  | help relname => exact iff_of_true ((someNode_takes _).succeeds_iff.mpr (by decide)) trivial

def insertOnes (n : Nat) : Command :=
  .insert [97] (List.replicate n [98]) (List.replicate n ⟨.integer, [49]⟩)

/-- An `INSERT` of 24 attributes has a tree. -/
theorem parsed_twenty_four : Accepted (insertOnes 24) ∧ (command (insertOnes 24)).run 0 ≠ none := by
  have accepted : Accepted (insertOnes 24) := ⟨_, _, rfl, rfl⟩
  exact ⟨accepted, (parsed_iff_modest accepted).mpr (by simp [insertOnes, Modest])⟩

/-- With 25 attributes the process exits, and so it does for 34 string columns. -/
theorem twenty_five_exit : Accepted (insertOnes 25) ∧ (command (insertOnes 25)).run 0 = none ∧
    Accepted (.create [97] (List.replicate 34 ⟨[98], .char 1⟩) none) ∧
    (command (.create [97] (List.replicate 34 ⟨[98], .char 1⟩) none)).run 0 = none :=
  ⟨⟨_, _, rfl, rfl⟩, by decide, ⟨_, rfl⟩, by decide⟩

end Parser
end Minirel
