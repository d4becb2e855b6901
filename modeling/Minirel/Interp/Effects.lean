import Minirel.Interp.Columns
import Minirel.Interp.Results

/-! What a statement does to the database, apart from the tuples: a relation is
created or destroyed, or a file is left open. This is a sound abstraction of the
interpreter on storage as it is between statements. -/
namespace Minirel
open Program

/-! Parse trees as the grammar makes them: names are C strings, and lists are not
empty. -/

def QualAttr.WellFormed (attr : QualAttr) : Prop := 0 ∉ attr.relname ∧ 0 ∉ attr.attrname

instance (attr : QualAttr) : Decidable attr.WellFormed := inferInstanceAs (Decidable (_ ∧ _))

def Qual.WellFormed : Qual → Prop
  | .select selattr _ _ => selattr.WellFormed
  | .join joinattr1 _ joinattr2 => joinattr1.WellFormed ∧ joinattr2.WellFormed

structure QueryNode.WellFormed (query : QueryNode) : Prop where
  relname : ∀ name ∈ query.relname, 0 ∉ name
  nonempty : query.attrlist ≠ []
  attrlist : ∀ attr ∈ query.attrlist, attr.WellFormed
  qual : ∀ qual ∈ query.qual, qual.WellFormed

def Node.WellFormed : Node → Prop
  | .query q => q.WellFormed
  | .insert relname attrlist => 0 ∉ relname ∧ attrlist ≠ []
  | .delete relname _ => 0 ∉ relname
  | .create relname attrlist => 0 ∉ relname ∧ ∀ attr ∈ attrlist, 0 ∉ attr.attrname
  | .destroy relname => 0 ∉ relname
  | .load relname _ => 0 ∉ relname
  | .print relname => 0 ∉ relname
  | .help relname => ∀ name ∈ relname, 0 ∉ name
  | .index => True

/-! The result relation of a query. -/

namespace QueryNode

def target (query : QueryNode) : Name := query.relname.getD tmpResult

def columns (query : QueryNode) (counter : Nat) : List Name :=
  match query.qual with
  | some (.join _ _ _) => (Columns.build counter (query.attrlist.map QualAttr.attrname)).given
  | _ => query.attrlist.map QualAttr.attrname

theorem WellFormed.target {query : QueryNode} (wellFormed : query.WellFormed) :
    0 ∉ query.target := by
  cases into : query.relname with
  | none =>
    rw [QueryNode.target, into]
    decide
  | some name =>
    rw [QueryNode.target, into]
    exact wellFormed.relname name into

end QueryNode

structure Created (query : QueryNode) (counter : Nat) (attrs : List AttrInfo) : Prop where
  declarable : Declarable attrs
  named : ∀ attr ∈ attrs, attr.attrName ≠ []
  names : attrs.map AttrInfo.attrName = query.columns counter

/-- The statements that return early from an object made by `new`. -/
def LeavesOpen (env : Environment) (db : Database) (relation : Name) : Node → Prop
  | .delete relname (some (.select selattr _ _)) => relname = relation ∧ selattr.attrname ≠ [] ∧
      ∀ d ∈ db.rows relation, d.attrName ≠ selattr.attrname
  | .load relname filename => relname = relation ∧ 1000 < AttrDesc.total (db.rows relation) ∧
      ∃ data, env.unix filename = some data ∧ AttrDesc.total (db.rows relation) ≤ data.length
  | _ => False

inductive Effect (env : Environment) (counter : Nat) (db : Database) : Node → Database → Prop
  | same (node : Node) : Effect env counter db node db
  | leftOpen {node : Node} {relation : Name} (leaves : LeavesOpen env db relation node)
      (user : UserName relation)
      (there : db.present relation = true) : Effect env counter db node (db.leaveOpen relation)
  | create {relname : Name} {attrlist : List AttrType} {attrs : List AttrInfo}
      (declarable : Declarable attrs) :
      Effect env counter db (.create relname attrlist) (db.createRel relname attrs).2
  | destroy (relname : Name) : Effect env counter db (.destroy relname) (db.destroyRel relname).2
  | result {query : QueryNode} {attrs : List AttrInfo} (created : Created query counter attrs)
      (stays : query.target ≠ tmpResult ∨ (db.createRel query.target attrs).1 ≠ .ok) :
      Effect env counter db (.query query) (db.createRel query.target attrs).2
  | printed {query : QueryNode} {attrs : List AttrInfo} (created : Created query counter attrs)
      (target : query.target = tmpResult) (ok : (db.createRel tmpResult attrs).1 = .ok) :
      Effect env counter db (.query query) ((db.createRel tmpResult attrs).2.destroyRel tmpResult).2
  | dropped {query : QueryNode} (target : query.target = tmpResult) :
      Effect env counter db (.query query) (db.destroyRel tmpResult).2

variable {st st' : Flat} {db : Database} {fuel : Nat} {status : Status}

/-! The plan of a query. -/

theorem mkAttrnames_inv {room : Nat} {relname relname' : Option Name} {list : List QualAttr}
    {names : List Name} (made : mkAttrnames room relname list = .ok (names, relname')) :
    list.length < room ∧ names = list.map QualAttr.attrname ∧
      ∀ name, relname' = some name → relname = some name ∨ ∃ attr ∈ list, attr.relname = name := by
  induction list generalizing room relname names with
  | nil =>
    cases room with
    | zero => cases made
    | succ room =>
      cases made
      exact ⟨Nat.succ_pos room, rfl, fun name same => .inl same⟩
  | cons attr list ih =>
    cases room with
    | zero => cases made
    | succ room =>
      rw [mkAttrnames] at made
      split at made
      · cases made
      · split at made
        next => cases made
        next rest more =>
          cases made
          obtain ⟨fits, rfl, origin⟩ := ih more
          refine ⟨Nat.succ_lt_succ fits, rfl, fun name same => ?_⟩
          rcases origin name same with first | ⟨other, member, same'⟩
          · cases relname with
            | none => exact .inr ⟨attr, List.mem_cons_self, Option.some.inj first⟩
            | some given => exact .inl first
          · exact .inr ⟨other, List.mem_cons_of_mem _ member, same'⟩

theorem mkQualAttrs_inv {relname1 relname2 : Name} {room : Nat} {list attrs : List QualAttr}
    (made : mkQualAttrs relname1 relname2 room list = .ok attrs) : list.length < room ∧
      attrs = list := by
  induction list generalizing room attrs with
  | nil =>
    cases room with
    | zero => cases made
    | succ room =>
      cases made
      exact ⟨Nat.succ_pos room, rfl⟩
  | cons attr list ih =>
    cases room with
    | zero => cases made
    | succ room =>
      rw [mkQualAttrs] at made
      split at made
      · cases made
      · split at made
        next => cases made
        next more =>
          cases made
          obtain ⟨fits, rfl⟩ := ih more
          exact ⟨Nat.succ_lt_succ fits, rfl⟩

structure Planned (query : QueryNode) (plan : Plan) : Prop where
  names : plan.attrList.map AttrInfo.attrName = query.attrlist.map QualAttr.attrname
  few : plan.attrList.length < maxAttrs
  terminated : ∀ attr ∈ plan.attrList, 0 ∉ attr.relName ∧ 0 ∉ attr.attrName
  columns : ∀ counter, query.columns counter =
    if plan.rename then (Columns.build counter (plan.attrList.map AttrInfo.attrName)).given
    else plan.attrList.map AttrInfo.attrName
  call : ∀ {st st' : Flat} {db : Database} {fuel : Nat} {status : Status}, Sound st db →
    Flat.run (plan.call fuel) st = some (status, st') → Rewritten query.target st st'

/-- All attributes are of one relation. -/
theorem select_planned {atof : Name → Nat} {query : QueryNode} {names : List Name}
    {relname relname' : Option Name} (wellFormed : query.WellFormed)
    (given : ∀ name, relname = some name → 0 ∉ name)
    (made : mkAttrnames maxAttrs relname query.attrlist = .ok (names, relname'))
    (plain : ∀ counter, query.columns counter = query.attrlist.map QualAttr.attrname)
    (attr : Option AttrInfo) (op : Operator) (attrValue : Option Name) :
    let attrList := names.map fun name => QualAttr.info ⟨relname'.getD [], name⟩
    Planned query ⟨attrList, false, fun fuel =>
      quSelect atof fuel query.target attrList attr op attrValue⟩ := by
  obtain ⟨few, rfl, origin⟩ := mkAttrnames_inv made
  have terminated : 0 ∉ relname'.getD [] := by
    cases relname' with
    | none => exact List.not_mem_nil
    | some name =>
      rcases origin name rfl with first | ⟨attr, member, rfl⟩
      · exact given name first
      · exact (wellFormed.attrlist attr member).1
  have listed : ((query.attrlist.map QualAttr.attrname).map fun name =>
    QualAttr.info ⟨relname'.getD [], name⟩).map
      AttrInfo.attrName = query.attrlist.map QualAttr.attrname := by
    rw [List.map_map]
    exact List.map_id _
  have length : ((query.attrlist.map QualAttr.attrname).map fun name =>
    QualAttr.info ⟨relname'.getD [], name⟩).length =
      query.attrlist.length := by simp
  refine ⟨listed, length ▸ few, ?_, fun counter => (plain counter).trans listed.symm,
    fun sound returned => ?_⟩
  · rw [List.forall_mem_map, List.forall_mem_map]
    exact fun attr member => ⟨terminated, (wellFormed.attrlist attr member).2⟩
  · refine quSelect_run sound ?_ (List.forall_mem_map.mpr fun name member => terminated) returned
    rw [length]
    exact few.le.trans (by decide)

theorem plan_planned {atof : Name → Nat} {joinMethod : JoinType} {query : QueryNode} {p : Plan}
    (wellFormed : query.WellFormed) (planned : plan atof joinMethod query.target query = .ok p) :
    Planned query p := by
  unfold plan at planned
  cases qual : query.qual with
  | none =>
    simp only [qual] at planned
    split at planned
    next => cases planned
    next names relname made =>
      cases planned
      exact select_planned wellFormed (fun _ none => by cases none) made
        (fun counter => by rw [QueryNode.columns, qual]) ..
  | some condition =>
    cases condition with
    | select selattr op value =>
      simp only [qual] at planned
      split at planned
      next => cases planned
      next names relname made =>
        cases planned
        have given : ∀ name, some selattr.relname = some name → 0 ∉ name := by
          rintro _ ⟨⟩
          exact (wellFormed.qual _ qual).1
        exact select_planned wellFormed given made (fun counter => by rw [QueryNode.columns, qual]) ..
    | join joinattr1 op joinattr2 =>
      simp only [qual] at planned
      split at planned
      next => cases planned
      next attrs made =>
        cases planned
        obtain ⟨few, rfl⟩ := mkQualAttrs_inv made
        have listed : (query.attrlist.map QualAttr.info).map AttrInfo.attrName =
            query.attrlist.map QualAttr.attrname := by
          rw [List.map_map]
          rfl
        obtain ⟨first, second⟩ := wellFormed.qual _ qual
        refine ⟨listed, by rwa [List.length_map], List.forall_mem_map.mpr wellFormed.attrlist,
          fun counter => ?_, fun sound returned => ?_⟩
        · rw [QueryNode.columns, qual, listed]
          rfl
        · exact quJoin_run sound (by rw [ne_eq, List.map_eq_nil_iff]; exact wellFormed.nonempty)
            (by rw [List.length_map]; exact few.le.trans (by decide))
            (List.forall_mem_map.mpr fun attr member => (wellFormed.attrlist attr member).1) first.1
              second.1 returned

/-! The result relation is created, or its attributes are checked. -/

theorem suffixed_terminated {name : Name} (terminated : 0 ∉ name) (counter : Nat) :
    0 ∉ suffixed name counter := by
  have digits : 0 ∉ decimal counter :=
    fun member => absurd (decimal_digits counter 0 member) (by decide)
  simp [suffixed, terminated, digits]

structure Column (attr : AttrInfo) : Prop where
  terminated : 0 ∉ attr.attrName
  named : attr.attrName ≠ []
  length : 1 ≤ attr.attrLen ∧ attr.attrLen ≤ pageSize

theorem createAttrs_run {attrs : List AttrInfo} {resultName : Name} {rename : Bool}
    {given : List Name} {counter counter' : Nat} {reply : Except Status (List AttrInfo)}
    (sound : Sound st db) (terminated : ∀ attr ∈ attrs, 0 ∉ attr.relName ∧ 0 ∉ attr.attrName)
    (returned : Flat.run (createAttrs fuel resultName rename given counter attrs) st =
      some ((reply, counter'), st')) :
    st' = st ∧ ∀ created, reply = .ok created → created.length = attrs.length ∧
      (∀ attr ∈ created, Column attr) ∧
        (rename = false → created.map AttrInfo.attrName = attrs.map AttrInfo.attrName) := by
  induction attrs generalizing given counter counter' reply st' with
  | nil =>
    cases returned
    refine ⟨rfl, ?_⟩
    rintro _ ⟨⟩
    exact ⟨rfl, nofun, fun _ => rfl⟩
  | cons attr attrs ih =>
    obtain ⟨relation, name⟩ := terminated attr List.mem_cons_self
    obtain ⟨found, st, looked, rest⟩ := run_bind_inv _ _ returned
    obtain ⟨rfl, known⟩ := AttrCatalog.getInfo_run sound.real.catalogs relation looked
    cases found with
    | error =>
      cases rest
      exact ⟨rfl, nofun⟩
    | ok d =>
      obtain ⟨⟨more, counter''⟩, mid, looked', rest'⟩ := run_bind_inv _ _ rest
      obtain ⟨rfl, made⟩ := ih (fun attr member => terminated attr (List.mem_cons_of_mem _ member))
        looked'
      cases more with
      | error =>
        cases rest'
        exact ⟨rfl, nofun⟩
      | ok created =>
        cases rest'
        refine ⟨rfl, ?_⟩
        rintro _ ⟨⟩
        obtain ⟨length, columns, names⟩ := made created rfl
        obtain ⟨-, named, row⟩ := (known d).mp rfl
        refine ⟨congrArg (· + 1) length, List.forall_mem_cons.mpr ⟨⟨?_, ?_, ?_⟩, columns⟩,
          fun plain => ?_⟩
        · simp only
          split
          · exact suffixed_terminated name counter
          · exact name
        · simp only
          split
          · simp [suffixed]
          · exact named
        · exact (sound.sizes attr.relName).attrLen (List.mem_of_find?_eq_some row)
        · subst plain
          rw [List.map_cons, List.map_cons, names rfl]
          rfl

theorem createAttrs_created {query : QueryNode} {p : Plan} {counter counter' : Nat}
    {reply : Except Status (List AttrInfo)} (sound : Sound st db) (planned : Planned query p)
    (returned : Flat.run (createAttrs fuel query.target p.rename [] counter p.attrList) st =
      some ((reply, counter'), st')) :
    st' = st ∧ ∀ attrs, reply = .ok attrs → Created query counter attrs := by
  obtain ⟨same, made⟩ := createAttrs_run sound planned.terminated returned
  refine ⟨same, ?_⟩
  rintro attrs rfl
  obtain ⟨length, columns, plain⟩ := made attrs rfl
  refine ⟨⟨fun attr member => (columns attr member).terminated, fun attr member =>
    (columns attr member).length,
    length ▸ planned.few.le⟩, fun attr member => (columns attr member).named, ?_⟩
  rw [planned.columns counter]
  cases renamed : p.rename with
  | false => exact plain renamed
  | true =>
    rw [renamed] at returned
    exact congrArg Columns.given ((Columns.createAttrs_makes ..).result returned attrs rfl)

theorem checkAttrs_run {attrList : List AttrInfo} {attrs : List AttrDesc} (sound : Sound st db)
    (terminated : ∀ attr ∈ attrList, 0 ∉ attr.relName)
    (returned : Flat.run (checkAttrs fuel attrList attrs) st = some (status, st')) : st' = st := by
  induction attrList generalizing attrs with
  | nil =>
    cases returned
    rfl
  | cons attr attrList ih =>
    cases attrs with
    | nil =>
      cases returned
      rfl
    | cons existing attrs =>
      obtain ⟨found, st, looked, rest⟩ := run_bind_inv _ _ returned
      obtain ⟨rfl, -⟩ := AttrCatalog.getInfo_run sound.real.catalogs
        (terminated attr List.mem_cons_self) looked
      cases found with
      | error =>
        cases rest
        rfl
      | ok d =>
        simp only at rest
        split at rest
        · cases rest
          rfl
        · exact ih (fun attr member => terminated attr (List.mem_cons_of_mem _ member)) rest

theorem findResult_run {relname : Option Name} {reply : Except Status (Option (List AttrDesc))}
    (sound : Sound st db) (terminated : ∀ name ∈ relname, 0 ∉ name)
    (returned : Flat.run (findResult fuel relname) st = some (reply, st')) : st' = st := by
  cases relname with
  | some name =>
    obtain ⟨found, st, looked, rest⟩ := run_bind_inv _ _ returned
    obtain ⟨rfl, -⟩ := AttrCatalog.getRelInfo_found sound.real.catalogs (terminated name rfl) looked
    cases found with
    | ok attrs =>
      cases rest
      rfl
    | error status => cases status <;> cases rest <;> rfl
  | none =>
    obtain ⟨found, st, looked, rest⟩ := run_bind_inv _ _ returned
    obtain ⟨rfl, -⟩ := RelCatalog.getInfo_found sound.real.catalogs (by decide) looked
    cases found with
    | ok rd =>
      cases rest
      rfl
    | error status => cases status <;> cases rest <;> rfl

/-! Queries. -/

section query
variable {query : QueryNode} {counter counter' : Nat} {atof : Name → Nat} {joinMethod : JoinType}
  {existing : Option (List AttrDesc)}

theorem prepareResult_run {p : Plan} (sound : Sound st db) (wellFormed : query.WellFormed)
    (planned : Planned query p)
    (returned : Flat.run (prepareResult fuel query.target existing p counter) st =
      some ((status, counter'), st')) :
    st' = st ∨ ∃ attrs, Created query counter attrs ∧ status = (db.createRel query.target attrs).1 ∧
      Sound st' (db.createRel query.target attrs).2 := by
  cases existing with
  | none =>
    obtain ⟨⟨reply, counter''⟩, st, made, rest⟩ := run_bind_inv _ _ returned
    obtain ⟨rfl, created⟩ := createAttrs_created sound planned made
    cases reply with
    | error =>
      cases rest
      exact .inl rfl
    | ok attrs =>
      obtain ⟨status', mid, creates, rest'⟩ := run_bind_inv _ _ rest
      obtain ⟨rfl, sound'⟩ := sound.createRel (created attrs rfl).declarable wellFormed.target creates
      cases rest'
      exact .inr ⟨attrs, created attrs rfl, rfl, sound'⟩
  | some attrs =>
    rw [prepareResult] at returned
    split at returned
    · cases returned
      exact .inl rfl
    · obtain ⟨status', st, checked, rest⟩ := run_bind_inv _ _ returned
      cases checkAttrs_run sound (fun attr member => (planned.terminated attr member).1) checked
      cases rest
      exact .inl rfl

/-- The call is made if the result relation is there. -/
theorem performQuery_run {reply : Except Message Status} (sound : Sound st db)
    (wellFormed : query.WellFormed) (user : UserName query.target)
    (returned : Flat.run (performQuery atof joinMethod fuel query.target existing query counter)
      st = some ((reply, counter'), st')) :
    Sound st' db ∨ ∃ attrs, Created query counter attrs ∧
      Sound st' (db.createRel query.target attrs).2 ∧
        ((db.createRel query.target attrs).1 = .ok ↔ ∃ status, reply = .ok status) := by
  rw [performQuery] at returned
  split at returned
  next =>
    cases returned
    exact .inl sound
  next p made =>
    split at returned
    · cases returned
    have planned := plan_planned wellFormed made
    obtain ⟨⟨status, counter''⟩, mid, prepared, rest⟩ := run_bind_inv _ _ returned
    have prepared' := prepareResult_run sound wellFormed planned prepared
    by_cases ok : status = .ok
    · subst ok
      obtain ⟨status', mid', called, rest'⟩ := run_bind_inv _ _ rest
      cases rest'
      rcases prepared' with rfl | ⟨attrs, created, result, sound'⟩
      · exact .inl ((planned.call sound called).sound user sound)
      · exact .inr ⟨attrs, created, (planned.call sound' called).sound user sound',
          iff_of_true result.symm ⟨_, rfl⟩⟩
    · have stopped : reply = .error (.status status) ∧ st' = mid := by
        cases status <;> first | exact absurd rfl ok | (cases rest; exact ⟨rfl, rfl⟩)
      obtain ⟨rfl, rfl⟩ := stopped
      rcases prepared' with rfl | ⟨attrs, created, rfl, sound'⟩
      · exact .inl sound
      · exact .inr ⟨attrs, created, sound', iff_of_false ok nofun⟩

theorem printResult_run {printed : List Printed} {relation : Name} (sound : Sound st db)
    (terminated : 0 ∉ relation)
    (returned : Flat.run (printResult fuel relation) st = some (printed, st')) :
    Sound st' (db.destroyRel relation).2 := by
  obtain ⟨status, st, shown, rest⟩ := run_bind_inv _ _ returned
  cases utPrint_run sound terminated shown
  obtain ⟨status', mid, destroyed, rest'⟩ := run_bind_inv _ _ rest
  cases rest'
  exact (sound.destroyRel terminated destroyed).2

/-- Beyond its result relation a query changes nothing of the database. -/
theorem interpQuery_effect {env : Environment} {printed : List Printed} (sound : Sound st db)
    (wellFormed : query.WellFormed) (user : UserName query.target)
    (returned : Flat.run (interpQuery env fuel counter query) st =
      some ((printed, counter'), st')) :
    ∃ db', Effect env counter db (.query query) db' ∧ Sound st' db' := by
  obtain ⟨⟨reply, counter''⟩, mid, ran, rest⟩ := run_bind_inv _ _ returned
  obtain ⟨found, st, looked, performed⟩ := run_bind_inv _ _ ran
  cases findResult_run sound wellFormed.relname looked
  cases found with
  | error =>
    cases performed
    cases rest
    exact ⟨db, .same _, sound⟩
  | ok existing =>
    have outcome := performQuery_run sound wellFormed user performed
    cases reply with
    | error message =>
      cases rest
      rcases outcome with sound' | ⟨attrs, created, sound', ok⟩
      · exact ⟨db, .same _, sound'⟩
      · have stopped : (db.createRel query.target attrs).1 ≠ .ok := fun same => by
          obtain ⟨_, impossible⟩ := ok.mp same
          cases impossible
        exact ⟨_, .result created (.inr stopped), sound'⟩
    | ok errval =>
      simp only at rest
      split at rest
      next target =>
        obtain ⟨shown, mid', printing, rest'⟩ := run_bind_inv _ _ rest
        cases rest'
        rcases outcome with sound' | ⟨attrs, created, sound', ok⟩
        · exact ⟨_, .dropped target, printResult_run sound' (by decide) printing⟩
        · have same : query.target = tmpResult := target
          rw [same] at sound' ok
          exact ⟨_, .printed created target (ok.mpr ⟨_, rfl⟩),
            printResult_run sound' (by decide) printing⟩
      next kept =>
        cases rest
        rcases outcome with sound' | ⟨attrs, created, sound', ok⟩
        · exact ⟨db, .same _, sound'⟩
        · exact ⟨_, .result created (.inl kept), sound'⟩

end query

/-! The other statements. -/

section statements
variable {env : Environment} {counter counter' : Nat} {printed : List Printed} {relname : Name}

theorem length_of_mkInsAttrs {room : Nat} {list : List AttrVal} {attrs : List AttrInfo}
    (made : mkInsAttrs relname room list = .ok attrs) : attrs.length = list.length := by
  induction list generalizing room attrs with
  | nil =>
    cases room with
    | zero => cases made
    | succ room =>
      cases made
      rfl
  | cons attr list ih =>
    cases room with
    | zero => cases made
    | succ room =>
      rw [mkInsAttrs] at made
      split at made
      · cases made
      · split at made
        next => cases made
        next more =>
          cases made
          exact congrArg (· + 1) (ih more)

/-- An `INSERT` changes the file of its relation alone. -/
theorem interpInsert_sound {attrlist : List AttrVal} (sound : Sound st db)
    (terminated : 0 ∉ relname) (user : UserName relname)
    (nonempty : attrlist ≠ [])
    (returned : Flat.run (interpInsert env fuel relname attrlist) st = some (printed, st')) :
    Sound st' db := by
  rw [interpInsert] at returned
  split at returned
  · cases returned
  split at returned
  next =>
    cases returned
    exact sound
  next attrList made =>
    have nonempty' : attrList ≠ [] := fun empty => nonempty (List.length_eq_zero_iff.mp (by
      rw [← length_of_mkInsAttrs made, empty]
      rfl))
    split at returned
    · cases returned
    · obtain ⟨status, mid, inserted, rest⟩ := run_bind_inv _ _ returned
      cases rest
      exact (quInsert_run sound terminated nonempty' inserted).sound user sound

theorem mkAttrDescrs_declarable {room : Nat} {list : List AttrType} {attrs : List AttrInfo}
    (few : room ≤ maxAttrs) (terminated : ∀ attr ∈ list, 0 ∉ attr.attrname)
    (made : mkAttrDescrs relname room list = .ok attrs) :
    attrs.length ≤ room ∧ Declarable attrs := by
  induction list generalizing room attrs with
  | nil =>
    cases room with
    | zero => cases made
    | succ room =>
      cases made
      exact ⟨Nat.zero_le _, nofun, nofun, Nat.zero_le _⟩
  | cons attr list ih =>
    cases room with
    | zero => cases made
    | succ room =>
      rw [List.forall_mem_cons] at terminated
      rw [mkAttrDescrs] at made
      split at made
      next => cases made
      next type len format =>
        split at made
        next => cases made
        next more =>
          cases made
          obtain ⟨fits, names, lengths, -⟩ := ih (by omega) terminated.2 more
          have length : 1 ≤ len ∧ len ≤ pageSize := by
            unfold parseFormatString at format
            split_ifs at format <;> cases format <;> simp only [pageSize] <;> omega
          exact ⟨Nat.succ_le_succ fits, List.forall_mem_cons.mpr ⟨terminated.1, names⟩,
            List.forall_mem_cons.mpr ⟨length, lengths⟩, (Nat.succ_le_succ fits).trans few⟩

theorem interpCreate_effect {attrlist : List AttrType} (sound : Sound st db)
    (terminated : 0 ∉ relname) (attrTerminated : ∀ attr ∈ attrlist, 0 ∉ attr.attrname)
    (returned : Flat.run (interpCreate fuel relname attrlist) st = some (printed, st')) :
    ∃ db', Effect env counter db (.create relname attrlist) db' ∧ Sound st' db' := by
  rw [interpCreate] at returned
  split at returned
  next =>
    cases returned
    exact ⟨db, .same _, sound⟩
  next attrList made =>
    have declarable := (mkAttrDescrs_declarable le_rfl attrTerminated made).2
    split at returned
    · cases returned
    · obtain ⟨status, mid, created, rest⟩ := run_bind_inv _ _ returned
      cases rest
      exact ⟨_, .create declarable, (sound.createRel declarable terminated created).2⟩

theorem Sound.present (sound : Sound st db) {relation : Name} (there : st.files relation ≠ none) :
    db.present relation = true := by
  rw [sound.real.directory.present]
  exact Option.isSome_iff_ne_none.mpr there

theorem interpDelete_effect {qual : Option Qual} (sound : Sound st db) (terminated : 0 ∉ relname)
    (returned : Flat.run (interpDelete env fuel relname qual) st = some (printed, st')) :
    ∃ db', Effect env counter db (.delete relname qual) db' ∧ Sound st' db' := by
  cases qual with
  | none =>
    obtain ⟨status, mid, deleted, rest⟩ := run_bind_inv _ _ returned
    cases rest
    rcases quDelete_run sound terminated deleted with ⟨user, rewritten⟩ | rfl | ⟨-, -, -, named, -⟩
    · exact ⟨db, .same _, rewritten.sound user sound⟩
    · exact ⟨db, .same _, sound⟩
    · exact absurd rfl named
  | some condition =>
    cases condition with
    | join =>
      cases returned
      exact ⟨db, .same _, sound⟩
    | select selattr op value =>
      rw [interpDelete] at returned
      split at returned
      · cases returned
      obtain ⟨status, mid, deleted, rest⟩ := run_bind_inv _ _ returned
      cases rest
      rcases quDelete_run sound terminated deleted with ⟨user, rewritten⟩ | rfl | ⟨user, rfl, there,
        named, missing⟩
      · exact ⟨db, .same _, rewritten.sound user sound⟩
      · exact ⟨db, .same _, sound⟩
      · exact ⟨_, .leftOpen ⟨rfl, named, missing⟩ user (sound.present there), sound.leftOpen there⟩

theorem utLoad_effect {filename : Name} (sound : Sound st db) (terminated : 0 ∉ relname)
    (returned : Flat.run (utLoad env.unix fuel relname filename) st = some (status, st')) :
    ∃ db', Effect env counter db (.load relname filename) db' ∧ Sound st' db' := by
  rcases utLoad_run sound terminated returned with
    ⟨user, rewritten⟩ | rfl | ⟨user, mid, rewritten, rfl, there, wide, data, contents, enough⟩
  · exact ⟨db, .same _, rewritten.sound user sound⟩
  · exact ⟨db, .same _, sound⟩
  · exact ⟨_, .leftOpen ⟨rfl, wide, data, contents, enough⟩ user (sound.present there),
      (rewritten.sound user sound).leftOpen (rewritten.there there)⟩

def Node.writes : Node → Option Name
  | .query q => some q.target
  | .insert relname _ => some relname
  | _ => none

/-- Every statement that returns has one of the effects, unless it puts tuples
into a catalog. -/
theorem interp_effect {node : Node} (sound : Sound st db) (wellFormed : node.WellFormed)
    (user : ∀ name ∈ node.writes, UserName name)
    (returned : Flat.run (interp env fuel counter node) st = some ((printed, counter'), st')) :
    ∃ db', Effect env counter db node db' ∧ Sound st' db' := by
  cases node with
  | query query => exact interpQuery_effect sound wellFormed (user _ rfl) returned
  | index => cases returned
  | insert relname attrlist =>
    obtain ⟨shown, mid, inserted, rest⟩ := run_bind_inv _ _ returned
    cases rest
    exact ⟨db, .same _, interpInsert_sound sound wellFormed.1 (user _ rfl) wellFormed.2 inserted⟩
  | delete relname qual =>
    obtain ⟨shown, mid, deleted, rest⟩ := run_bind_inv _ _ returned
    cases rest
    exact interpDelete_effect sound wellFormed deleted
  | create relname attrlist =>
    obtain ⟨shown, mid, created, rest⟩ := run_bind_inv _ _ returned
    cases rest
    exact interpCreate_effect sound wellFormed.1 wellFormed.2 created
  | destroy relname =>
    obtain ⟨status, mid, destroyed, rest⟩ := run_bind_inv _ _ returned
    cases rest
    exact ⟨_, .destroy relname, (sound.destroyRel wellFormed destroyed).2⟩
  | load relname filename =>
    obtain ⟨status, mid, loaded, rest⟩ := run_bind_inv _ _ returned
    cases rest
    exact utLoad_effect sound wellFormed loaded
  | print relname =>
    obtain ⟨status, mid, shown, rest⟩ := run_bind_inv _ _ returned
    cases rest
    cases utPrint_run sound wellFormed shown
    exact ⟨db, .same _, sound⟩
  | help relname =>
    obtain ⟨status, mid, shown, rest⟩ := run_bind_inv _ _ returned
    cases rest
    have terminated : 0 ∉ relname.getD [] := by
      cases relname with
      | none => exact List.not_mem_nil
      | some name => exact wellFormed name rfl
    cases help_run sound terminated shown
    exact ⟨db, .same _, sound⟩

end statements

end Minirel
