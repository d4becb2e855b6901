import Minirel.Query

/-! The interpreter (parser/interp.C): queries. The `static` counter that makes
column names unique is passed from statement to statement. What is printed on
the way is the list of the errors, in order. -/
namespace Minirel

def maxAttrs : Nat := 40

structure QualAttr where
  relname : Name
  attrname : Name
deriving DecidableEq, Repr

/-- A `VALUE` node, by `type_of` and `value_of`. -/
structure Value where
  type : Datatype
  text : Name
deriving DecidableEq, Repr

def Datatype.code : Datatype → Int
  | .string => 0
  | .integer => 1
  | .float => 2

inductive Qual
  | select (selattr : QualAttr) (op : Operator) (value : Value)
  | join (joinattr1 : QualAttr) (op : Operator) (joinattr2 : QualAttr)
deriving DecidableEq, Repr

structure QueryNode where
  relname : Option Name
  attrlist : List QualAttr
  qual : Option Qual
deriving DecidableEq, Repr

inductive ErrVal
  | incompatible | tooManyAttrs | invFormatString | stringTooLong
deriving DecidableEq, Repr

/-- What `error.print` and `print_error` are called with. -/
inductive Message
  | status (status : Status)
  | errval (errval : ErrVal)
deriving DecidableEq, Repr

/-- `mk_attrnames`, with room for so many names. -/
def mkAttrnames : Nat → Option Name → List QualAttr → Except ErrVal (List Name × Option Name)
  | 0, _, _ => .error .tooManyAttrs
  | _ + 1, relname, [] => .ok ([], relname)
  | room + 1, relname, attr :: list =>
    if relname.any fun relname => relname ≠ attr.relname then .error .incompatible
    else
      match mkAttrnames room (some (relname.getD attr.relname)) list with
      | .error errval => .error errval
      | .ok (names, relname) => .ok (attr.attrname :: names, relname)

def mkQualAttrs (relname1 relname2 : Name) : Nat → List QualAttr → Except ErrVal (List QualAttr)
  | 0, _ => .error .tooManyAttrs
  | _ + 1, [] => .ok []
  | room + 1, attr :: list =>
    if attr.relname ≠ relname1 ∧ attr.relname ≠ relname2 then .error .incompatible
    else
      match mkQualAttrs relname1 relname2 room list with
      | .error errval => .error errval
      | .ok attrs => .ok (attr :: attrs)

def QualAttr.info (attr : QualAttr) : AttrInfo := ⟨attr.relname, attr.attrname, -1, -1, none⟩

/-- What the three shapes of a query come to: the attributes of the result,
whether equal names of them are made different, and the call. -/
structure Plan where
  attrList : List AttrInfo
  rename : Bool
  call : Nat → Prog Status

def plan (atof : Name → Nat) (joinMethod : JoinType) (resultName : Name) (query : QueryNode) :
    Except ErrVal Plan :=
  match query.qual with
  | none =>
    match mkAttrnames maxAttrs none query.attrlist with
    | .error errval => .error errval
    | .ok (names, relname) =>
      let attrList := names.map fun name => QualAttr.info ⟨relname.getD [], name⟩
      .ok ⟨attrList, false, fun fuel => quSelect atof fuel resultName attrList none .lt none⟩
  | some (.select selattr op value) =>
    match mkAttrnames maxAttrs (some selattr.relname) query.attrlist with
    | .error errval => .error errval
    | .ok (names, relname) =>
      let attrList := names.map fun name => QualAttr.info ⟨relname.getD [], name⟩
      let attr1 : AttrInfo := ⟨relname.getD [], selattr.attrname, value.type.code, -1, some value.text⟩
      .ok ⟨attrList, false, fun fuel =>
        quSelect atof fuel resultName attrList (some attr1) op (some value.text)⟩
  | some (.join joinattr1 op joinattr2) =>
    match mkQualAttrs joinattr1.relname joinattr2.relname maxAttrs query.attrlist with
    | .error errval => .error errval
    | .ok attrs =>
      let attrList := attrs.map QualAttr.info
      .ok ⟨attrList, true, fun fuel => quJoin joinMethod fuel resultName attrList joinattr1.info op
        joinattr2.info⟩

def decimal (n : Nat) : Name := (Nat.toDigits 10 n).map fun c => UInt8.ofNat c.toNat

def suffixed (name : Name) (counter : Nat) : Name := name ++ 95 :: decimal counter

/-- The loop that fills `createAttrInfo`, with the names given so far. A name
that occurred before gets `_` and the counter appended. -/
def createAttrs (fuel : Nat) (resultName : Name) (rename : Bool) :
    List Name → Nat → List AttrInfo → Prog (Except Status (List AttrInfo) × Nat)
  | _, counter, [] => return (.ok [], counter)
  | given, counter, attr :: attrs => do
    let taken := rename && decide (attr.attrName ∈ given)
    let attrName := if taken then suffixed attr.attrName counter else attr.attrName
    let counter := if taken then counter + 1 else counter
    match ← AttrCatalog.getInfo fuel attr.relName attr.attrName with
    | .error status => return (.error status, counter)
    | .ok attrDesc =>
      match ← createAttrs fuel resultName rename (given ++ [attrName]) counter attrs with
      | (.error status, counter) => return (.error status, counter)
      | (.ok created, counter) =>
        return (.ok (⟨resultName, attrName, attrDesc.attrType, attrDesc.attrLen, none⟩ :: created),
          counter)

/-- The loop that compares the attributes with those of the result relation. -/
def checkAttrs (fuel : Nat) : List AttrInfo → List AttrDesc → Prog Status
  | attr :: attrList, existing :: attrs => do
    match ← AttrCatalog.getInfo fuel attr.relName attr.attrName with
    | .error status => return status
    | .ok attrDesc =>
      if attrDesc.attrType ≠ existing.attrType ∨
        attrDesc.attrLen ≠ existing.attrLen then return .attrTypeMismatch
      checkAttrs fuel attrList attrs
  | _, _ => return .ok

def prepareResult (fuel : Nat) (resultName : Name) (existing : Option (List AttrDesc)) (plan : Plan)
    (counter : Nat) :
    Prog (Status × Nat) := do
  match existing with
  | none =>
    match ← createAttrs fuel resultName plan.rename [] counter plan.attrList with
    | (.error status, counter) => return (status, counter)
    | (.ok createAttrInfo, counter) =>
      return (← RelCatalog.createRel fuel resultName createAttrInfo, counter)
  | some attrs =>
    if plan.attrList.length ≠ attrs.length then return (.attrTypeMismatch, counter)
    return (← checkAttrs fuel plan.attrList attrs, counter)

/-- The text has to stay within the array `value` of `value_of`. -/
def Value.fits (value : Value) : Bool := value.text.length < 255

/-- `strcpy` into a member of `attrInfo` has to stay within it. -/
def namesFit (resultName : Name) (query : QueryNode) : Bool :=
  let qualified (attr : QualAttr) : Bool := attr.relname.length < maxName && attr.attrname.length <
    maxName
  resultName.length < maxName && query.attrlist.all qualified &&
    match query.qual with
    | none => true
    | some (.select selattr _ value) => qualified selattr && value.fits
    | some (.join joinattr1 _ joinattr2) => qualified joinattr1 && qualified joinattr2

/-- From the shape of the query to its call; an error returns before that. -/
def performQuery (atof : Name → Nat) (joinMethod : JoinType) (fuel : Nat) (resultName : Name)
    (existing : Option (List AttrDesc)) (query : QueryNode) (counter : Nat) :
    Prog (Except Message Status × Nat) := do
  match plan atof joinMethod resultName query with
  | .error errval => return (.error (.errval errval), counter)
  | .ok plan =>
    if namesFit resultName query = false then .halt
    match ← prepareResult fuel resultName existing plan counter with
    | (.ok, counter) => return (.ok (← plan.call fuel), counter)
    | (status, counter) => return (.error (.status status), counter)

/-- The relation that takes the result of a query without `INTO`. -/
def tmpResult : Name := chars "Tmp_Minirel_Result"

/-- Whether the result relation exists; if it is given, with its attributes. -/
def findResult (fuel : Nat) : Option Name → Prog (Except Status (Option (List AttrDesc)))
  | some relname => do
    match ← AttrCatalog.getRelInfo fuel relname with
    | .ok attrs => return .ok (some attrs)
    | .error .relNotFound => return .ok none
    | .error status => return .error status
  | none => do
    match ← RelCatalog.getInfo fuel tmpResult with
    | .ok _ => return .error .tmpResExists
    | .error .relNotFound => return .ok none
    | .error status => return .error status

/-- Up to the end of the call of `QU_Select` or `QU_Join`. -/
def runQuery (atof : Name → Nat) (joinMethod : JoinType) (fuel : Nat) (query : QueryNode)
    (counter : Nat) :
    Prog (Except Message Status × Nat) := do
  match ← findResult fuel query.relname with
  | .error status => return (.error (.status status), counter)
  | .ok existing =>
    performQuery atof joinMethod fuel (query.relname.getD tmpResult) existing query counter

end Minirel
