import Minirel.HeapFile.Contract
import Minirel.Interp
import Minirel.Query.Join
import Minirel.Query.Select

/-! What queries do about attributes that a relation does not have, and about
attributes of different types. A selection never reports an attribute that it
did not find, and a join compares the types that the interpreter gives it, which
are always the same. -/
namespace Minirel
open Program

/-- The storage layers know nothing of attributes. -/
def attrless : Contract StorageCall.Reply Unit where
  admits
    | .getFirstPage _, _, reply | .allocPage _, _, reply => reply ≠ .error .attrNotFound
    | .load _ _, _, _ | .store _ _ _, _, _ => True
    | .openFile _, _, reply | .closeFile _, _, reply | .createFile _, _, reply | .destroyFile _,
        _, reply
    | .readPage _ _, _, reply | .unPinPage _ _ _, _, reply | .flushFile _, _, reply =>
      reply ≠ .attrNotFound
  next := fun _ _ _ => ()

theorem Flat.handle_attrless {c : StorageCall} {s t : Flat} {reply : c.Reply}
    (answer : Flat.handle c s = some (reply, t)) :
    attrless.admits c () reply := by
  cases c with
  | load file pageNo => trivial
  | store file pageNo image => trivial
  | getFirstPage file | allocPage file =>
    obtain ⟨f, _, same⟩ := Option.map_eq_some_iff.mp answer
    cases same
    simp [attrless]
  | readPage file pageNo =>
    obtain ⟨f, _, same⟩ := Option.map_eq_some_iff.mp answer
    cases same
    simp only [attrless]
    split
    · simp
    · split <;> simp
  | unPinPage file pageNo dirty | flushFile file =>
    cases answer
    simp [attrless]
  | openFile name | closeFile name | createFile name | destroyFile name =>
    simp only [Flat.handle] at answer
    split_ifs at answer <;> cases answer <;> simp [attrless]

theorem attrless_sound {α : Type} {p : Prog α} {post : α → Prop} {s t : Flat} {value : α}
    (ensures : p.Ensures attrless () fun value _ => post value)
    (returned : Flat.run p s = some (value, t)) : post value := by
  obtain ⟨_, _, holds⟩ := ensures.sound (fun _ _ => True)
    (fun c s _ reply t _ answer => ⟨Flat.handle_attrless answer, trivial⟩) trivial returned
  exact holds

section attrless

theorem HeapFileScan.getRecord_attrless (s : HeapFileScan) :
    s.getRecord.Ensures attrless () fun result _ => result ≠ .error .attrNotFound := by
  simp only [HeapFileScan.getRecord, ensures_bind, ensures_pure]
  refine .of_forall fun page _ => ?_
  simp only [Page.getRecord]
  split <;> simp

theorem HeapFileScan.startScan_status (s : HeapFileScan) (filter : Option Filter) :
    (s.startScan filter).1 = .ok ∨ (s.startScan filter).1 = .badScanParm := by
  cases filter with
  | none => exact .inl rfl
  | some f =>
    simp only [startScan]
    split <;> simp

theorem InsertFileScan.insertOnNewPage_attrless (h : HeapFile) (rec : Record) :
    (insertOnNewPage h rec).Ensures attrless () fun result _ =>
      result.1 ≠ .error .attrNotFound := by
  simp only [insertOnNewPage, ensures_bind, Storage.allocPage, ensures_perform]
  intro reply admitted
  cases reply with
  | error status => exact fun same => admitted (congrArg _ (Except.error.inj same))
  | ok newPageNo =>
    simp only [ensures_bind, ensures_ite, ensures_pure]
    refine .of_forall fun page _ => .of_forall fun _ _ => .of_forall fun hdr _ => .of_forall fun _ _ =>
      .of_forall fun page' _ => .of_forall fun _ _ => ?_
    intro status admitted
    refine ⟨fun _ => .of_forall fun _ _ same => admitted (Except.error.inj same), fun _ =>
      .of_forall fun page _ => ?_⟩
    simp only [Page.insertRecord]
    split
    next failed =>
      split at failed <;> cases failed
      simp
    next =>
      simp only [ensures_bind, ensures_pure]
      exact .of_forall fun _ _ => .of_forall fun _ _ same => by cases same

theorem InsertFileScan.insertRecord_attrless (h : HeapFile) (rec : Record) :
    (insertRecord h rec).Ensures attrless () fun result _ => result.1 ≠ .error .attrNotFound := by
  have insert (h : HeapFile) : h.page.Ensures attrless () fun page _ =>
      (insertOnPage h rec page).Ensures attrless ()
        (fun result _ => result.1 ≠ .error .attrNotFound) := by
    refine .of_forall fun page _ => ?_
    rw [insertOnPage]
    cases page.insertRecord rec with
    | error => exact insertOnNewPage_attrless h rec
    | ok r =>
      simp only [ensures_bind, ensures_pure]
      exact .of_forall fun _ _ => .of_forall fun _ _ same => by cases same
  simp only [insertRecord, ensures_ite, ensures_bind, ensures_pure]
  refine ⟨fun _ => by simp, fun _ => ⟨fun _ => .of_forall fun hdr _ => ?_, fun _ => insert h⟩⟩
  exact fun status admitted => ⟨fun _ same => admitted (Except.error.inj same), fun _ => insert _⟩

theorem selectLoop_attrless (projNames : List (Option AttrDesc)) (reclen : Int) (fuel : Nat)
    (s : HeapFileScan) (h : HeapFile) : (selectLoop projNames reclen fuel s h).Ensures attrless ()
      fun result _ => result.1 ≠ .attrNotFound := by
  induction fuel generalizing s h with
  | zero => trivial
  | succ fuel ih =>
    simp only [selectLoopBy, monadLift_self, ensures_bind, ensures_ite, ensures_pure]
    refine .of_forall fun next _ => ⟨fun _ => by decide, fun _ => ?_⟩
    refine (HeapFileScan.getRecord_attrless next.2).mono fun rec _ sane => ?_
    cases rec with
    | error status => exact fun same => sane (congrArg _ same)
    | ok rec =>
      simp only [ensures_bind]
      refine .of_forall fun data _ => (InsertFileScan.insertRecord_attrless h _).mono
        fun inserted _ sane => ?_
      obtain ⟨result, h⟩ := inserted
      cases result with
      | error status => exact fun same => sane (congrArg _ same)
      | ok rid => exact ih next.2 h

theorem scanSelect_attrless (fuel : Nat) (result : Name) (projNames : List (Option AttrDesc))
    (filter : Option Filter) (reclen : Int) :
    (scanSelect fuel result projNames filter reclen).Ensures attrless () fun status _ =>
      status ≠ .attrNotFound := by
  simp only [scanSelectBy, monadLift_self, ensures_bind]
  refine .of_forall fun inserter _ => ?_
  split
  next insertResult first _ =>
    simp only [ensures_bind]
    refine .of_forall fun scan _ => ?_
    cases scan with
    | error => trivial
    | ok s =>
      have start := HeapFileScan.startScan_status s filter
      rcases s.startScan filter with ⟨status, s⟩
      simp only [ensures_bind, ensures_ite, ensures_pure]
      refine ⟨fun failed => ?_, fun _ => (selectLoop_attrless ..).mono fun r _ sane => ?_⟩
      · rw [start.resolve_left failed]
        exact .of_forall fun _ _ => .of_forall fun _ _ => by decide
      · exact .of_forall fun _ _ => .of_forall fun _ _ => sane
  next => trivial

theorem scanSelect_ne_notFound {fuel : Nat} {result : Name} {projNames : List (Option AttrDesc)}
    {filter : Option Filter} {reclen : Int} {s t : Flat} {status : Status}
    (returned : Flat.run (scanSelect fuel result projNames filter reclen) s = some (status, t)) :
    status ≠ .attrNotFound := by
  have sane := attrless_sound (scanSelect_attrless fuel result projNames filter reclen) returned
  exact sane

end attrless

/-! Selection. -/

theorem exists_lastNamed {name : Name} {attrs : List AttrDesc} (desc : Option AttrDesc)
    (named : ∃ d ∈ attrs, d.attrName = name) :
    ∃ d ∈ attrs, d.attrName = name ∧ lastNamed name desc attrs = some d := by
  induction attrs generalizing desc with
  | nil => simp at named
  | cons attr attrs ih =>
    rw [lastNamed_cons]
    by_cases later : ∃ d ∈ attrs, d.attrName = name
    · obtain ⟨d, listed, same, last⟩ := ih _ later
      exact ⟨d, List.mem_cons_of_mem _ listed, same, last⟩
    · obtain ⟨d, listed, same⟩ := named
      rcases List.mem_cons.mp listed with rfl | listed
      · rw [if_pos same]
        push Not at later
        exact ⟨d, List.mem_cons_self, same, lastNamed_of_forall_ne _ later⟩
      · exact absurd ⟨d, listed, same⟩ later

/-- If all names are known, the loops set every descriptor. -/
theorem exists_placed {attrs : List AttrDesc} {projNames : List AttrInfo}
    (known : ∀ proj ∈ projNames, ∃ d ∈ attrs, d.attrName = proj.attrName) :
    ∃ descs, Projects attrs projNames descs ∧
      (placeAttrs projNames attrs (projNames.map fun _ => none) 0).1 = descs.map some := by
  rw [placeAttrs_fst (by simp)]
  induction projNames with
  | nil => exact ⟨[], .nil, rfl⟩
  | cons proj projNames ih =>
    rw [List.forall_mem_cons] at known
    obtain ⟨d, listed, same, last⟩ := exists_lastNamed none known.1
    obtain ⟨descs, projects, placed⟩ := ih known.2
    refine ⟨d :: descs, .cons ⟨listed, same⟩ projects, ?_⟩
    rw [List.map_cons, List.zipWith_cons_cons, last, placed, List.map_cons]

/-- A call of `QU_Select`: the relation is that of the first projected
attribute, and the type of the value is one of the three. -/
structure SelectCall where
  result : Name
  first : AttrInfo
  others : List AttrInfo
  attr : Option AttrInfo
  op : Operator
  attrValue : Option Name
  named : first.relName ≠ []
  terminated : 0 ∉ first.relName
  typed : ∀ a ∈ attr, 0 ≤ a.attrType ∧ a.attrType ≤ 2

namespace SelectCall
variable (call : SelectCall) (atof : Name → Nat) (st : Flat) (attrs : List AttrDesc)

def relation : Name := call.first.relName

def projNames : List AttrInfo := call.first :: call.others

def run (fuel : Nat) : Prog Status :=
  quSelect atof fuel call.result call.projNames call.attr call.op call.attrValue

def Belongs (proj : AttrInfo) : Prop := proj.relName = call.relation ∧ ∃ d ∈ attrs,
    d.attrName = proj.attrName

def Known : Prop := (∀ proj ∈ call.projNames, call.Belongs attrs proj) ∧ ∀ a ∈ call.attr,
    call.Belongs attrs a

/-- `ScanSelect` is called with descriptors that were found, those of the
projected attributes and that of the condition. -/
def PassesFound : Prop :=
  ∃ descs filter reclen, Projects attrs call.projNames descs ∧
    (∀ a ∈ call.attr, ∃ d ∈ attrs, d.attrName = a.attrName ∧
      ∀ f ∈ filter, f.offset = d.attrOffset ∧ f.length = d.attrLen ∧ f.type = datatypeOf d.attrType) ∧
    ∃ bound, ∀ fuel, bound ≤ fuel →
      Flat.run (call.run atof fuel) st =
        Flat.run (scanSelect fuel call.result (descs.map some) filter reclen) st

/-- An attribute of another relation is refused; otherwise all descriptors are
found. -/
def Checked : Prop :=
  (¬ call.Known attrs → ∃ st', Returns Flat.handle (call.run atof) st (.attrNotFound, st') ∧
    st'.files call.result = st.files call.result) ∧
  (call.Known attrs → call.PassesFound atof st attrs)

def placed : List (Option AttrDesc) × Int :=
  placeAttrs call.projNames attrs (call.projNames.map fun _ => none) 0

variable {call atof st attrs}

theorem run_found (atof : Name → Nat)
    (info : Returns Flat.handle (AttrCatalog.getRelInfo · call.relation) st (.ok attrs, st)) :
    ∃ bound, ∀ fuel, bound ≤ fuel → Flat.run (call.run atof fuel) st =
      match call.attr with
      | none => Flat.run (scanSelect fuel call.result (call.placed attrs).1 none
          (call.placed attrs).2) st
      | some attr =>
        match (attrs.filter fun d => d.attrName = attr.attrName).getLast? with
        | none => none
        | some d => Flat.run (scanSelect fuel call.result (call.placed attrs).1
            (call.attrValue.map fun text => condition atof d call.op text) (call.placed attrs).2)
              st := by
  obtain ⟨bound, info⟩ := info
  refine ⟨bound, fun fuel enough => ?_⟩
  have sane : ¬ (call.attr.any fun attr => attr.attrType < 0 || attr.attrType > 2) = true := by
    cases attr : call.attr with
    | none => simp
    | some a =>
      have := call.typed a attr
      simp
      omega
  simp only [run, quSelect, projNames, sane]
  change Program.run Flat.handle (AttrCatalog.getRelInfo fuel call.relation >>= _) st = _
  rw [run_bind_of _ _ (info fuel enough)]
  cases call.attr with
  | none => rfl
  | some a =>
    cases last : (attrs.filter fun d => d.attrName = a.attrName).getLast? with
    | none =>
      simp only [last]
      rfl
    | some d =>
      simp only [last]
      rfl

theorem passesFound_of_known
    (info : Returns Flat.handle (AttrCatalog.getRelInfo · call.relation) st (.ok attrs, st))
    (known : call.Known attrs) : call.PassesFound atof st attrs := by
  obtain ⟨bound, found⟩ := run_found atof info
  obtain ⟨descs, projects, placed⟩ : ∃ descs, Projects attrs call.projNames descs ∧
      (call.placed attrs).1 = descs.map some :=
    exists_placed fun proj member => (known.1 proj member).2
  rw [placed] at found
  cases attr : call.attr with
  | none =>
    simp only [attr] at found
    exact ⟨descs, none, _, projects, by simp [attr], bound, found⟩
  | some a =>
    obtain ⟨d, listed, same⟩ := (known.2 a attr).2
    have some' : (attrs.filter fun d => d.attrName = a.attrName) ≠ [] :=
      List.ne_nil_of_mem (List.mem_filter.mpr ⟨listed, by simpa using same⟩)
    have last := List.getLast?_eq_some_getLast some'
    obtain ⟨listed', same'⟩ := List.mem_filter.mp (List.getLast_mem some')
    simp only [attr, last] at found
    refine ⟨descs, _, _, projects, fun b is => ?_, bound, found⟩
    cases attr.symm.trans is
    refine ⟨_, listed', by simpa using same', fun f member => ?_⟩
    obtain ⟨text, _, rfl⟩ := Option.map_eq_some_iff.mp member
    exact ⟨rfl, rfl, rfl⟩

/-- No selection reports that an attribute was not found. -/
theorem not_returns_notFound
    (info : Returns Flat.handle (AttrCatalog.getRelInfo · call.relation) st (.ok attrs, st))
    {st' : Flat} : ¬ Returns Flat.handle (call.run atof) st (.attrNotFound, st') := by
  rintro ⟨bound, returned⟩
  obtain ⟨bound', found⟩ := run_found atof info
  have final : Flat.run (call.run atof (max bound bound')) st = _ := returned _ (le_max_left ..)
  rw [found _ (le_max_right ..)] at final
  cases attr : call.attr with
  | none =>
    simp only [attr] at final
    exact scanSelect_ne_notFound final rfl
  | some a =>
    cases last : (attrs.filter fun d => d.attrName = a.attrName).getLast? with
    | none => simp [attr, last] at final
    | some d =>
      simp only [attr, last] at final
      exact scanSelect_ne_notFound final rfl

/-- A selection from a relation that exists uses only descriptors it has found,
and reports the attributes it has not found, exactly if there are none of
these. -/
theorem checked_iff_known {cat : Catalog} (rep : Represents st cat)
    (there : cat.rows call.relation ≠ []) :
    call.Checked atof st (cat.rows call.relation) ↔ call.Known (cat.rows call.relation) := by
  have info : Returns Flat.handle (AttrCatalog.getRelInfo · call.relation) st
      (if cat.rows call.relation = [] then _ else _, st) :=
        AttrCatalog.getRelInfo_spec rep call.terminated call.named
  rw [if_neg there] at info
  constructor
  · rintro ⟨refused, _⟩
    by_contra unknown
    obtain ⟨st', returns, _⟩ := refused unknown
    exact not_returns_notFound info returns
  · exact fun known => ⟨fun unknown => absurd known unknown, passesFound_of_known info⟩

/-- The relation `r(c int)` with one record. -/
def numbers : Setup := ⟨chars "r", [⟨chars "r", chars "c", 1, 4, none⟩], [[1, 0, 0, 0]]⟩

/-- `select r.c into t from r where r.x = 1`, for some name `x`. -/
def numbersWhere (x : Name) : SelectCall :=
  { result := chars "t", first := ⟨chars "r", chars "c", -1, -1, none⟩, others := [],
    attr := some ⟨chars "r", x, 1, -1, some (chars "1")⟩, op := .eq, attrValue := some (chars "1"),
    named := by decide, terminated := by decide, typed := by simp }

theorem exists_numbers : ∃ st cat, numbers.Holds st ∧ Represents st cat ∧
    cat.rows (chars "r") = numbers.attrs := by
  obtain ⟨st, holds⟩ := exists_database [numbers] (by decide) (by decide)
  obtain ⟨records, relation, contents⟩ := holds numbers (by simp)
  obtain ⟨cat, rep, rows⟩ := relation.described
  exact ⟨st, cat, ⟨records, relation, contents⟩, rep, rows⟩

/-- The condition is on an attribute that the relation has. -/
theorem checked_numbers : ∃ st, numbers.Holds st ∧ (numbersWhere (chars "c")).Known numbers.attrs ∧
    (numbersWhere (chars "c")).Checked (fun _ => 0) st numbers.attrs := by
  obtain ⟨st, cat, holds, rep, rows⟩ := exists_numbers
  have known : (numbersWhere (chars "c")).Known numbers.attrs := by
    refine ⟨List.forall_mem_cons.mpr ⟨⟨rfl, by decide⟩, by simp [numbersWhere]⟩, fun a is => ?_⟩
    cases is
    exact ⟨rfl, by decide⟩
  have there : cat.rows (numbersWhere (chars "c")).relation = numbers.attrs := rows
  have listed : cat.rows (numbersWhere (chars "c")).relation ≠ [] := by
    rw [there]
    decide
  rw [← there] at known ⊢
  exact ⟨st, holds, known, (checked_iff_known rep listed).mpr known⟩

/-- A condition on an attribute that is not there: the index is never set. -/
theorem unknown_condition_unchecked : ∃ st, numbers.Holds st ∧
    (∃ bound, ∀ fuel, bound ≤ fuel →
      Flat.run ((numbersWhere (chars "x")).run (fun _ => 0) fuel) st = none) ∧
    ¬ (numbersWhere (chars "x")).Checked (fun _ => 0) st numbers.attrs := by
  obtain ⟨st, cat, holds, rep, rows⟩ := exists_numbers
  have info := AttrCatalog.getRelInfo_spec rep (numbersWhere (chars "x")).terminated
    (numbersWhere (chars "x")).named
  have there : cat.rows (numbersWhere (chars "x")).first.relName = numbers.attrs := rows
  rw [there, if_neg (by decide)] at info
  refine ⟨st, holds, run_found _ info, fun ⟨refused, _⟩ => ?_⟩
  obtain ⟨st', returns, _⟩ := refused fun known => absurd (known.2 _ rfl).2 (by decide)
  exact not_returns_notFound info returns

end SelectCall

/-! Joins. -/

theorem startInner_status (attrDesc1 attrDesc2 : AttrDesc) (myop : Operator) (outerRec : List UInt8)
    (s : HeapFileScan) :
    (startInner attrDesc1 attrDesc2 myop outerRec s).1 = .ok ∨
      (startInner attrDesc1 attrDesc2 myop outerRec s).1 = .badScanParm := by
  simp only [startInner]
  split
  · exact .inr rfl
  · exact s.startScan_status _

/-- The loops give up only on a scan that cannot be started. -/
theorem outerLoop_status (descs : List AttrDesc) (reclen : Int) (attrDesc1 attrDesc2 : AttrDesc)
    (myop : Operator) (fuel : Nat) (s : HeapFileScan) (h : HeapFile) :
    (outerLoop descs reclen attrDesc1 attrDesc2 myop fuel s h).Ensures
    (.free StorageCall.Reply) () fun result _ => result.1 = .ok ∨ result.1 = .badScanParm := by
  induction fuel generalizing s h with
  | zero => trivial
  | succ fuel ih =>
    simp only [outerLoopBy, monadLift_self, ensures_bind, ensures_ite, ensures_pure]
    refine .of_forall fun next _ => ⟨fun _ => .inl trivial, fun _ => .of_forall fun rec _ => ?_⟩
    cases rec with
    | error => trivial
    | ok outerRec =>
      simp only [ensures_bind]
      refine .of_forall fun scan _ => ?_
      cases scan with
      | error => trivial
      | ok innerScan =>
        have start := startInner_status attrDesc1 attrDesc2 myop outerRec innerScan
        rcases startInner attrDesc1 attrDesc2 myop outerRec innerScan with ⟨status, innerScan⟩
        simp only [ensures_bind, ensures_ite, ensures_pure]
        exact ⟨fun _ => .of_forall fun _ _ => start, fun _ => .of_forall fun r _ => .of_forall
          fun _ _ => ih next.2 r.2⟩

theorem joinScan_status (fuel : Nat) (result : Name) (descs : List AttrDesc) (attrDesc1 : AttrDesc)
    (op : Operator) (attrDesc2 : AttrDesc) :
    (joinScan fuel result descs attrDesc1 op attrDesc2).Ensures (.free StorageCall.Reply) ()
    fun status _ => status = .ok ∨ status = .badScanParm := by
  simp only [joinScanBy, monadLift_self, ensures_bind]
  refine .of_forall fun inserter _ => ?_
  cases inserter with
  | error => trivial
  | ok resultRel =>
    simp only [ensures_bind]
    refine .of_forall fun scan _ => ?_
    cases scan with
    | error => trivial
    | ok outerScan =>
      simp only [ensures_bind, ensures_pure]
      exact (outerLoop_status ..).mono fun r _ sane => .of_forall fun _ _ => .of_forall fun _ _ => sane

/-- A join as the interpreter issues it, under nested loops. -/
structure JoinCall where
  result : Name
  attrlist : List QualAttr
  joinattr1 : QualAttr
  op : Operator
  joinattr2 : QualAttr
  named : ∀ attr ∈ joinattr1 :: joinattr2 :: attrlist, attr.relname ≠ [] ∧ 0 ∉ attr.relname ∧
    attr.attrname ≠ []

def Catalog.Describes (cat : Catalog) (attr : QualAttr) (d : AttrDesc) : Prop :=
  (cat.rows attr.relname).find? (fun d => d.attrName = attr.attrname) = some d

namespace JoinCall

def run (call : JoinCall) (fuel : Nat) : Prog Status :=
  quJoin .nlJoin fuel call.result (call.attrlist.map QualAttr.info) call.joinattr1.info call.op
    call.joinattr2.info

/-- A database that describes the join attributes, with the records of the outer
relation. -/
structure Site (call : JoinCall) where
  st : Flat
  cat : Catalog
  represents : Represents st cat
  attrDesc1 : AttrDesc
  first : cat.Describes call.joinattr1 attrDesc1
  attrDesc2 : AttrDesc
  second : cat.Describes call.joinattr2 attrDesc2
  typed : attrDesc2.Typed
  records : List Entry
  table : Table st call.joinattr1.relname id records

section lookup
variable {call : JoinCall} {st : Flat} {cat : Catalog}

/-- A lookup finds the attribute or reports that it is not there. -/
theorem getInfo_cases (rep : Represents st cat) {attr : QualAttr}
    (named : attr.relname ≠ [] ∧ 0 ∉ attr.relname ∧ attr.attrname ≠ []) :
    (∃ d, Found st attr.info d) ∨
      Returns Flat.handle (AttrCatalog.getInfo · attr.relname attr.attrname) st
        (.error .attrNotFound, st) := by
  have info := AttrCatalog.getInfo_spec rep named.2.1 named.1 named.2.2
  cases sought : (cat.rows attr.relname).find? (fun d => d.attrName = attr.attrname) with
  | none =>
    rw [sought] at info
    exact .inr info
  | some d =>
    rw [sought] at info
    exact .inl ⟨d, info⟩

theorem lookupAttrs_cases (rep : Represents st cat) {attrlist : List QualAttr}
    (named : ∀ attr ∈ attrlist, attr.relname ≠ [] ∧ 0 ∉ attr.relname ∧ attr.attrname ≠ []) :
    (∃ descs, Returns Flat.handle (lookupAttrs · (attrlist.map QualAttr.info)) st (.ok descs, st)) ∨
      Returns Flat.handle (lookupAttrs · (attrlist.map QualAttr.info)) st
        (.error .attrNotFound, st) := by
  induction attrlist with
  | nil => exact .inl ⟨[], .of_run rfl⟩
  | cons attr attrlist ih =>
    rw [List.forall_mem_cons] at named
    rcases getInfo_cases rep named.1 with ⟨d, found⟩ | missing
    · rcases ih named.2 with ⟨descs, found'⟩ | missing
      · exact .inl ⟨d :: descs, .bind found (.bind found' (.of_run rfl))⟩
      · exact .inr (.bind found (.bind missing (.of_run rfl)))
    · exact .inr (.bind missing (.of_run rfl))

/-- No join reports different types. -/
theorem not_returns_mismatch (rep : Represents st cat) {st' : Flat} :
    ¬ Returns Flat.handle call.run st (.attrTypeMismatch, st') := by
  intro returned
  obtain ⟨named1, named2, named⟩ : _ ∧ _ ∧ _ := by simpa only [List.forall_mem_cons] using call.named
  have whole : Returns Flat.handle
    (fun fuel => lookupAttrs fuel (call.attrlist.map QualAttr.info) >>= _) st
    (Status.attrTypeMismatch, st') := returned
  rcases lookupAttrs_cases rep named with ⟨descs, found⟩ | missing
  · have rest := whole.rest found
    rcases getInfo_cases rep named1 with ⟨x, found1⟩ | missing
    · have rest := rest.rest found1
      rcases getInfo_cases rep named2 with ⟨y, found2⟩ | missing
      · obtain ⟨bound, final⟩ := rest.rest found2
        have status := (joinScan_status bound call.result descs x call.op y).sound_free
          (final bound le_rfl)
        simp at status
      · exact absurd ((rest.rest missing).unique (.of_run rfl)) (by simp)
    · exact absurd ((rest.rest missing).unique (.of_run rfl)) (by simp)
  · exact absurd ((whole.rest missing).unique (.of_run rfl)) (by simp)

end lookup

namespace Site
variable {call : JoinCall} (site : call.Site)

/-- Join attributes of different types are refused. -/
def Refuses : Prop := site.attrDesc1.attrType ≠ site.attrDesc2.attrType →
  ∃ st', Returns Flat.handle call.run site.st (.attrTypeMismatch, st') ∧
    st'.files call.result = site.st.files call.result

/-- The filter of each inner scan is a value of the type and of the length it is
compared as. -/
def FiltersFit : Prop := ∀ o ∈ site.records, ∀ s s' f,
  startInner site.attrDesc1 site.attrDesc2 call.op.flip o.2 s = (.ok, s') → s'.filter = some f →
    f.type.code = site.attrDesc1.attrType ∧ f.length = site.attrDesc1.attrLen

theorem start (outerRec : List UInt8) (s : HeapFileScan) :
    startInner site.attrDesc1 site.attrDesc2 call.op.flip outerRec s =
      (.ok, { s with filter := some (joinFilter site.attrDesc1 site.attrDesc2 call.op outerRec)
        }) := by
  rw [startInner_eq site.typed.known, HeapFileScan.startScan, joinFilter,
    site.typed.comparable.accepted]
  rfl

theorem code_datatypeOf {attrType : Int} (known : 0 ≤ attrType ∧ attrType ≤ 2) :
    (datatypeOf attrType).code = attrType := by
  obtain rfl | rfl | rfl : attrType = 0 ∨ attrType = 1 ∨ attrType = 2 := by omega
  all_goals rfl

theorem filtersFit_iff (same : site.attrDesc1.attrType = site.attrDesc2.attrType) :
    site.FiltersFit ↔ site.attrDesc1.attrLen = site.attrDesc2.attrLen ∨ site.records = [] := by
  constructor
  · intro fit
    by_cases none : site.records = []
    · exact .inr none
    · obtain ⟨o, member⟩ := List.exists_mem_of_ne_nil _ none
      have fits := fit o member ⟨⟨[], 0, false, Option.none, 0, false, nullRid⟩, Option.none⟩ _ _
        (site.start ..) rfl
      exact .inl fits.2.symm
  · intro lengths o member s s' f start set
    rw [site.start] at start
    obtain ⟨_, rfl⟩ := Prod.mk.inj start
    cases set
    refine ⟨(code_datatypeOf site.typed.known).trans same.symm, ?_⟩
    exact (lengths.resolve_right (List.ne_nil_of_mem member)).symm

/-- Joins of attributes of different types are refused, and inner scans compare
values of one type and length, exactly if the types are the same, and the
lengths as well unless there is nothing to join. -/
theorem refuses_and_fits_iff : site.Refuses ∧ site.FiltersFit ↔
    site.attrDesc1.attrType = site.attrDesc2.attrType ∧
      (site.attrDesc1.attrLen = site.attrDesc2.attrLen ∨ site.records = []) := by
  constructor
  · rintro ⟨refuses, fit⟩
    have same : site.attrDesc1.attrType = site.attrDesc2.attrType := by
      by_contra apart
      obtain ⟨st', returned, _⟩ := refuses apart
      exact not_returns_mismatch site.represents returned
    exact ⟨same, (site.filtersFit_iff same).mp fit⟩
  · rintro ⟨same, fits⟩
    exact ⟨fun apart => absurd same apart, (site.filtersFit_iff same).mpr fits⟩

/-- `r(n int)` with one record and `s(t char(2), m int)`. -/
def pairs : List Setup := [⟨chars "r", [⟨chars "r", chars "n", 1, 4, none⟩], [[1, 0, 0, 0]]⟩,
  ⟨chars "s", [⟨chars "s", chars "t", 0, 2, none⟩, ⟨chars "s", chars "m", 1, 4, none⟩], []⟩]

/-- `select r.n into u from r, s where r.n = s.a`, for some name `a`. -/
def equalTo (a : Name) (attrNamed : a ≠ []) : JoinCall where
  result := chars "u"
  attrlist := [⟨chars "r", chars "n"⟩]
  joinattr1 := ⟨chars "r", chars "n"⟩
  op := .eq
  joinattr2 := ⟨chars "s", a⟩
  named := by simp [attrNamed, chars]

theorem exists_site {a : Name} (attrNamed : a ≠ []) {d : AttrDesc} (typed : d.Typed)
    (described : (describe (chars "s") 0
      [⟨chars "s", chars "t", 0, 2, none⟩, ⟨chars "s", chars "m", 1, 4, none⟩]).find?
        (fun d => d.attrName = a) = some d) :
    ∃ site : (equalTo a attrNamed).Site, site.attrDesc1 = ⟨chars "r", chars "n", 0, 1, 4⟩ ∧
      site.attrDesc2 = d ∧ site.records ≠ [] := by
  obtain ⟨st, holds⟩ := exists_database pairs (by decide) (by decide)
  obtain ⟨records, relation, contents⟩ := holds _ (List.mem_cons_self)
  obtain ⟨others, relation', _⟩ := holds _ (List.mem_cons_of_mem _ List.mem_cons_self)
  obtain ⟨cat, rep, rows⟩ := relation.described
  obtain ⟨cat', rep', rows'⟩ := relation'.described
  cases rep.unique rep'
  refine ⟨⟨st, cat, rep, ⟨chars "r", chars "n", 0, 1, 4⟩, ?_, d, ?_, typed, records,
    relation.table⟩, rfl, rfl, ?_⟩
  · exact (congrArg (List.find? _) rows).trans rfl
  · exact (congrArg (List.find? _) rows').trans described
  · rintro rfl
    cases contents

/-- Integers are joined with integers. -/
theorem integers_refused_and_fit : ∃ site : (equalTo (chars "m") (by decide)).Site, site.Refuses ∧
    site.FiltersFit := by
  obtain ⟨site, first, second, _⟩ := exists_site (a := chars "m") (by decide)
    (d := ⟨chars "s", chars "m", 2, 1, 4⟩)
    ⟨⟨by decide, by decide, by decide⟩, by decide⟩ (by decide)
  exact ⟨site, site.refuses_and_fits_iff.mpr ⟨by rw [first, second], .inl (by rw [first, second])⟩⟩

/-- An integer is compared with a string of two characters. -/
theorem integer_and_string_joined : ∃ site : (equalTo (chars "t") (by decide)).Site,
    site.attrDesc1.attrType = 1 ∧ site.attrDesc2.attrType = 0 ∧ ¬ site.Refuses ∧
      ¬ site.FiltersFit := by
  obtain ⟨site, first, second, some'⟩ := exists_site (a := chars "t") (by decide)
    (d := ⟨chars "s", chars "t", 0, 0, 2⟩)
    ⟨⟨by decide, by decide, by decide⟩, by decide⟩ (by decide)
  obtain ⟨o, member⟩ := List.exists_mem_of_ne_nil _ some'
  refine ⟨site, by rw [first], by rw [second], fun refuses => ?_, fun fit => ?_⟩
  · obtain ⟨st', returned, _⟩ := refuses (by rw [first, second]; decide)
    exact not_returns_mismatch site.represents returned
  · have fits := fit o member ⟨⟨[], 0, false, none, 0, false, nullRid⟩, none⟩ _ _ (site.start ..) rfl
    rw [first, second] at fits
    exact absurd (show (2 : Int) = 4 from fits.2) (by decide)

end Site
end JoinCall
end Minirel
