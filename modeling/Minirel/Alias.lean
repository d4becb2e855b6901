import Minirel.Interp

/-! The query rule of the parser (parser/nodes.C, parser/parse.y): the qualifiers
of the attributes are replaced by the names of the relations they stand for. -/
namespace Minirel

/-- An `ALIAS` node: a table of the `FROM` clause. -/
structure Alias where
  relname : Name
  aliasName : Option Name
deriving DecidableEq, Repr

structure AttrNode where
  relname : Option Name
  attrname : Name
deriving DecidableEq, Repr

/-- The condition of a query as it is parsed. -/
inductive Condition
  | select (selattr : AttrNode) (op : Operator) (value : Value)
  | join (joinattr1 : AttrNode) (op : Operator) (joinattr2 : AttrNode)
deriving DecidableEq, Repr

/-- What is printed when there is no query node: a qualifier is missing, or it
is not found. -/
inductive AliasError
  | missing
  | notFound (qualifier : Name)
deriving DecidableEq, Repr

/-- The first table that has the name or the alias. -/
def findMatchInAlias : List Alias → Name → Option Name
  | [], _ => none
  | n :: rest, relAlias =>
    if n.relname = relAlias then some relAlias
    else if n.aliasName = some relAlias then some n.relname
    else findMatchInAlias rest relAlias

/-- What is done with each attribute. Without a qualifier it is one of the first
table, which has to be the only one. -/
def replaceAlias (tables : List Alias) (attr : AttrNode) : Except AliasError QualAttr :=
  match attr.relname with
  | none =>
    match tables with
    | [table] => .ok ⟨table.relname, attr.attrname⟩
    | _ => .error .missing
  | some s =>
    match findMatchInAlias tables s with
    | none => .error (.notFound s)
    | some relname => .ok ⟨relname, attr.attrname⟩

def replaceAliasInQualattrList (tables : List Alias) : List AttrNode →
    Except AliasError (List QualAttr)
  | [] => .ok []
  | attr :: list => do
    let attr ← replaceAlias tables attr
    return attr :: (← replaceAliasInQualattrList tables list)

def replaceAliasInCondition (tables : List Alias) : Condition → Except AliasError Qual
  | .select selattr op value => return .select (← replaceAlias tables selattr) op value
  | .join joinattr1 op joinattr2 =>
    return .join (← replaceAlias tables joinattr1) op (← replaceAlias tables joinattr2)

def query (qualattrList : List AttrNode) (into : Option Name) (tables : List Alias)
    (condition : Option Condition) :
    Except AliasError QueryNode := do
  let attrlist ← replaceAliasInQualattrList tables qualattrList
  let qual ← condition.mapM (replaceAliasInCondition tables)
  return ⟨into, attrlist, qual⟩

end Minirel
