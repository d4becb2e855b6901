import Minirel.Insert
import Minirel.Utility

/-! The interpreter (parser/interp.C): all statements. -/
namespace Minirel

/-- An `ATTRTYPE` node: the type is coded by `format`. -/
structure AttrType where
  attrname : Name
  format : Int
deriving DecidableEq, Repr

structure AttrVal where
  attrname : Name
  value : Value
deriving DecidableEq, Repr

/-- A parse tree. The primary attribute of a created relation is not used, and
of an index statement nothing is. -/
inductive Node
  | query (query : QueryNode)
  | insert (relname : Name) (attrlist : List AttrVal)
  | delete (relname : Name) (qual : Option Qual)
  | create (relname : Name) (attrlist : List AttrType)
  | destroy (relname : Name)
  | load (relname filename : Name)
  | print (relname : Name)
  | help (relname : Option Name)
  | index
deriving DecidableEq, Repr

inductive Printed
  | error (message : Message)
  | syntaxError
deriving DecidableEq, Repr

/-- What a statement depends on besides the storage: the library function
`atof`, the join method, memory behind values, and the files of the user. -/
structure Environment where
  atof : Name → Nat
  joinMethod : JoinType
  memory : Memory
  unix : Name → Option (List UInt8)

def maxStringLen : Nat := 255

/-- The type and the length; `'i'-128` and `'f'-128` are no lengths. -/
def parseFormatString (format : Int) : Except ErrVal (Datatype × Int) :=
  if format = 105 - 128 then .ok (.integer, 4)
  else if format = 102 - 128 then .ok (.float, 4)
  else if format ≤ 255 ∧ format ≥ 1 then .ok (.string, format)
  else .error .invFormatString

def mkAttrDescrs (relname : Name) : Nat → List AttrType → Except ErrVal (List AttrInfo)
  | 0, _ => .error .tooManyAttrs
  | _ + 1, [] => .ok []
  | room + 1, attr :: list =>
    match parseFormatString attr.format with
    | .error errval => .error errval
    | .ok (type, len) =>
      match mkAttrDescrs relname room list with
      | .error errval => .error errval
      | .ok attrs => .ok (⟨relname, attr.attrname, type.code, len, none⟩ :: attrs)

def mkInsAttrs (relname : Name) : Nat → List AttrVal → Except ErrVal (List AttrInfo)
  | 0, _ => .error .tooManyAttrs
  | _ + 1, [] => .ok []
  | room + 1, attr :: list =>
    if attr.value.type = .string ∧ attr.value.text.length > maxStringLen then .error .stringTooLong
    else
      match mkInsAttrs relname room list with
      | .error errval => .error errval
      | .ok attrs => .ok (⟨relname, attr.attrname, attr.value.type.code, -1,
          some attr.value.text⟩ :: attrs)

/-- The values that `mk_ins_attrs` comes to before it returns an error. -/
def valuesFit : Nat → List AttrVal → Bool
  | room + 1, attr :: list =>
    if attr.value.type = .string ∧ attr.value.text.length > maxStringLen then true
    else attr.value.fits && valuesFit room list
  | _, _ => true

/-- `if (status != OK) error.print(status)`. -/
def report (status : Status) : List Printed :=
  if status ≠ .ok then [.error (.status status)] else []

/-- `strcpy` into the members of `attrList` has to stay within them. -/
def entriesFit (attrList : List AttrInfo) : Bool :=
  attrList.all fun attr => attr.relName.length < maxName && attr.attrName.length < maxName

def printResult (fuel : Nat) (resultName : Name) : Prog (List Printed) := do
  let printed ← utPrint fuel resultName
  let destroyed ← RelCatalog.destroyRel fuel resultName
  return report printed ++ report destroyed

def interpQuery (env : Environment) (fuel counter : Nat) (query : QueryNode) :
    Prog (List Printed × Nat) := do
  match ← runQuery env.atof env.joinMethod fuel query counter with
  | (.error message, counter) => return ([.error message], counter)
  | (.ok errval, counter) =>
    if query.relname.getD tmpResult = tmpResult then
      return (report errval ++ (← printResult fuel tmpResult), counter)
    return (report errval, counter)

def interpInsert (env : Environment) (fuel : Nat) (relname : Name) (attrlist : List AttrVal) :
    Prog (List Printed) := do
  if valuesFit maxAttrs attrlist = false then .halt
  match mkInsAttrs relname maxAttrs attrlist with
  | .error errval => return [.error (.errval errval)]
  | .ok attrList =>
    if entriesFit attrList = false then .halt
    return report (← quInsert env.atof env.memory fuel relname attrList)

/-- Without a condition the type and the operator are those of the number 0. -/
def interpDelete (env : Environment) (fuel : Nat) (relname : Name) : Option Qual →
    Prog (List Printed)
  | none => return report (← quDelete env.atof fuel relname [] .lt .string [])
  | some (.select selattr op value) => do
    if value.fits = false then .halt
    return report (← quDelete env.atof fuel relname selattr.attrname op value.type value.text)
  | some (.join _ _ _) => return [.syntaxError]

def interpCreate (fuel : Nat) (relname : Name) (attrlist : List AttrType) :
    Prog (List Printed) := do
  match mkAttrDescrs relname maxAttrs attrlist with
  | .error errval => return [.error (.errval errval)]
  | .ok attrList =>
    if entriesFit attrList = false then .halt
    return report (← RelCatalog.createRel fuel relname attrList)

/-- The statements on indexes fail an assertion. -/
def interp (env : Environment) (fuel counter : Nat) : Node → Prog (List Printed × Nat)
  | .query query => interpQuery env fuel counter query
  | .insert relname attrlist => return (← interpInsert env fuel relname attrlist, counter)
  | .delete relname qual => return (← interpDelete env fuel relname qual, counter)
  | .create relname attrlist => return (← interpCreate fuel relname attrlist, counter)
  | .destroy relname => return (report (← RelCatalog.destroyRel fuel relname), counter)
  | .load relname filename => return (report (← utLoad env.unix fuel relname filename), counter)
  | .print relname => return (report (← utPrint fuel relname), counter)
  | .help relname => return (report (← RelCatalog.help fuel (relname.getD [])), counter)
  | .index => .halt

end Minirel
