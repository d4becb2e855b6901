import Minirel.Alias
import Minirel.Interp.Statements
import Minirel.Lib.Budget

/-! The parser (parser/nodes.C, parser/parse.y): the actions of the grammar build
a tree out of a pool of nodes. The state is `nodeptr`, the number of the nodes in
use; when there are no more the process exits. -/
namespace Minirel

namespace Parser

def maxNode : Nat := 100

abbrev Build := StateT Nat Option

def newnode : Build Unit := fun nodeptr =>
    if nodeptr = maxNode then none else some ((), nodeptr + 1)

/-- A new node of any kind with its members. -/
def node {α : Type} (members : α) : Build α := do
  newnode
  return members

/-- The type of a column. `ival` is this member of the value node. -/
inductive ColumnType
  | int
  | real
  | char (ival : Int)
  | plainChar
deriving DecidableEq, Repr

/-- The type in an `ATTRTYPE` node. -/
def ColumnType.format : ColumnType → Int
  | int => 105 - 128
  | real => 102 - 128
  | char ival => ival
  | plainChar => 2

structure Column where
  name : Name
  type : ColumnType
deriving DecidableEq, Repr

/-- The commands, as far as they have a tree. -/
inductive Command
  | query (qualattrs : List AttrNode) (into : Option Name) (tables : List Alias)
      (condition : Option Condition)
  | insert (relname : Name) (attribs : List Name) (values : List Value)
  | delete (relname : Name) (condition : Option Condition)
  | create (relname : Name) (columns : List Column) (primary : Option (Name × Int))
  | destroy (relname : Name)
  | index
  | load (relname filename : Name)
  | print (relname : Name)
  | help (relname : Option Name)
deriving DecidableEq, Repr

/-- A list that is not empty: each element is built before the rest, then it is
put in front by `prepend`; the last one gets its own list node. -/
def listOf {α β : Type} (item : α → Build β) : List α → Build (List β)
  | [] => return []
  | x :: xs => do
    let first ← item x
    let rest ← listOf item xs
    node (first :: rest)

def value (v : Value) : Build Value := node v

def attrib (name : Name) : Build Name := node name

def qualattr (attr : AttrNode) : Build AttrNode := node attr

def table (t : Alias) : Build Alias := node t

/-- The length of a string column is a value node. -/
def typeLength : ColumnType → Build Unit
  | .char _ => newnode
  | _ => return

def attrtype (column : Column) : Build AttrType := do
  typeLength column.type
  node ⟨column.name, column.type.format⟩

def optPrimaryAttr : Option (Name × Int) → Build Unit
  | none => return
  | some _ => newnode

def optWhere : Option Condition → Build (Option Condition)
  | none => return none
  | some (.select attr op v) => do
    let attr ← qualattr attr
    let v ← value v
    some <$> node (.select attr op v)
  | some (.join attr1 op attr2) => do
    let attr1 ← qualattr attr1
    let attr2 ← qualattr attr2
    some <$> node (.join attr1 op attr2)

/-- `merge_attr_value_list`: there is no list if one of the two is longer. -/
def mergeAttrValueList : List Name → List Value → Option (List AttrVal)
  | [], [] => some []
  | attr :: attrs, value :: values => (mergeAttrValueList attrs values).map (⟨attr, value⟩ :: ·)
  | _, _ => none

/-- The condition of a `DELETE` keeps its qualifiers. -/
def unqualified : Condition → Qual
  | .select attr op v => .select ⟨attr.relname.getD [], attr.attrname⟩ op v
  | .join attr1 op attr2 =>
    .join ⟨attr1.relname.getD [], attr1.attrname⟩ op ⟨attr2.relname.getD [], attr2.attrname⟩

def command : Command → Build (Option Node)
  | .query qualattrs into tables condition => do
    let qualattrs ← listOf qualattr qualattrs
    let tables ← listOf table tables
    let condition ← optWhere condition
    match Minirel.query qualattrs into tables condition with
    | .error _ => return none
    | .ok query => some <$> node (.query query)
  | .insert relname attribs values => do
    let attribs ← listOf attrib attribs
    let values ← listOf value values
    match mergeAttrValueList attribs values with
    | none => return none
    | some attrlist => some <$> node (.insert relname attrlist)
  | .delete relname condition => do
    let condition ← optWhere condition
    some <$> node (.delete relname (condition.map unqualified))
  | .create relname columns primary => do
    let attrlist ← listOf attrtype columns
    optPrimaryAttr primary
    some <$> node (.create relname attrlist)
  | .destroy relname => some <$> node (.destroy relname)
  | .index => some <$> node .index
  | .load relname filename => some <$> node (.load relname filename)
  | .print relname => some <$> node (.print relname)
  | .help relname => some <$> node (.help relname)

end Parser
end Minirel
