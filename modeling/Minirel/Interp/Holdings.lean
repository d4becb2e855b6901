import Minirel.Catalog.Holdings
import Minirel.Interp.Statements

/-! Statements and resources: whatever fails, what a statement leaves pinned is of
files it leaves open. The scans and the inserter of a query are held side by
side. -/
namespace Minirel
open Program Holdings

section frames
variable {α : Type} {p : Prog α} {before extra : Holdings} {after : α → Holdings → Prop}

theorem Handling.beside (handles : Handling 0 p after) :
    Handling extra p fun value held => ∃ own, after value own ∧ held = own + extra := by
  have framed := Handles.frame extra handles
  rwa [zero_add] at framed

theorem Handling.behind (handles : Handling before p after) :
    Handling (extra + before) p fun value held => ∃ own, after value own ∧ held = extra + own := by
  have framed := Handles.frame extra handles
  rw [add_comm] at framed
  refine framed.mono ?_
  rintro value _ ⟨own, holds, rfl⟩
  exact ⟨own, holds, add_comm own extra⟩

end frames

/-! Selection. -/

section query
variable {held held' : Holdings} {s : HeapFileScan} {h : HeapFile}

theorem copyAttrs_tidy (source : AttrDesc → List UInt8) (given : List (Option AttrDesc)) :
    Tidy (copyAttrs source given) := by
  induction given with
  | nil => exact .pure rfl
  | cons desc given ih =>
    cases desc with
    | none => exact .halt
    | some d => exact .ite (fun _ => Tidy.andThen ih fun _ => .pure rfl) fun _ => .halt

def Both (s : HeapFileScan) (h : HeapFile) (held : Holdings) : Prop := ∃ own own', s.Has own ∧
    h.Has own' ∧ held = own + own'

theorem selectLoop_handling (given : List (Option AttrDesc)) (reclen : Int) (fuel : Nat)
    (has : s.Has held) (has' : h.Has held') :
    Handling (held + held') (selectLoop given reclen fuel s h) fun r total =>
      Both r.2.1 r.2.2 total := by
  induction fuel generalizing s h held held' with
  | zero => exact .halt
  | succ fuel ih =>
    refine .bind (Handles.frame held' (HeapFileScan.scanNext_handling fuel has)) ?_
    rintro ⟨status, s⟩ _ ⟨held, has, rfl⟩
    refine .ite (fun _ => .pure ⟨held, held', has, has', rfl⟩) fun _ => ?_
    refine .bind (Handles.frame held' (HeapFileScan.getRecord_handling has)) ?_
    rintro found _ ⟨held, has, rfl⟩
    cases found with
    | error => exact .pure ⟨held, held', has, has', rfl⟩
    | ok rec =>
      refine .bind (copyAttrs_tidy _ given).beside ?_
      rintro data _ rfl
      refine .bind (InsertFileScan.insertRecord_handling _ has').behind ?_
      rintro ⟨reply, h⟩ _ ⟨held', has', rfl⟩
      cases reply with
      | error => exact .pure ⟨held, held', has, has', rfl⟩
      | ok rid => exact ih has has'

theorem deleteBoth_handling {α : Type} {value : α} {total : Holdings} (both : Both s h total) :
    Handling total (do
      s.delete
      InsertFileScan.delete h
      return value) fun _ left => left = 0 := by
  obtain ⟨held, held', has, has', rfl⟩ := both
  refine .bind (Handles.frame held' (HeapFileScan.delete_handling has)) ?_
  rintro _ _ ⟨_, rfl, rfl⟩
  rw [zero_add]
  refine .bind (InsertFileScan.delete_handling has') ?_
  rintro _ _ rfl
  exact .pure rfl

theorem scanSelect_tidy (fuel : Nat) (result : Name) (given : List (Option AttrDesc))
    (filter : Option Filter) (reclen : Int) :
    Tidy (scanSelect fuel result given filter reclen) := by
  refine .bind (InsertFileScan.new_handling result) fun reply held' has' => ?_
  match reply, given with
  | .error _, _ => exact .halt
  | .ok _, [] => exact .halt
  | .ok _, none :: _ => exact .halt
  | .ok h, some first :: descs =>
    refine .bind (HeapFileScan.new_handling first.relName).beside ?_
    rintro found _ ⟨held, has, rfl⟩
    cases found with
    | error => exact .halt
    | ok s =>
      have started : (s.startScan filter).2.Has held := HeapFileScan.startScan_has has
      refine .ite (fun _ => ?_) fun _ => .bind (selectLoop_handling _ reclen fuel started has') ?_
      · exact deleteBoth_handling ⟨held, held', started, has', rfl⟩
      · rintro ⟨status, s, h⟩ total both
        exact deleteBoth_handling both

theorem quSelect_tidy (atof : Name → Nat) (fuel : Nat) (result : Name) (projNames : List AttrInfo)
    (attr : Option AttrInfo) (op : Operator) (attrValue : Option Name) :
    Tidy (quSelect atof fuel result projNames attr op attrValue) := by
  unfold quSelect
  refine .ite (fun _ => .pure rfl) fun _ => ?_
  cases projNames with
  | nil => exact .halt
  | cons first projNames =>
    refine (AttrCatalog.getRelInfo_tidy fuel first.relName).except (fun _ => .pure rfl) fun attrs => ?_
    cases attr with
    | none => exact scanSelect_tidy fuel result _ none _
    | some attr =>
      simp only
      split
      · exact .halt
      · exact scanSelect_tidy fuel result _ _ _

/-! Joins. -/

theorem innerLoop_handling (descs : List AttrDesc) (reclen : Int) (outer : Name)
    (outerRec : List UInt8) (fuel : Nat) (has : s.Has held) (has' : h.Has held') :
    Handling (held + held') (innerLoop descs reclen outer outerRec fuel s h) fun r total =>
      Both r.1 r.2 total := by
  induction fuel generalizing s h held held' with
  | zero => exact .halt
  | succ fuel ih =>
    refine .bind (Handles.frame held' (HeapFileScan.scanNext_handling fuel has)) ?_
    rintro ⟨status, s⟩ _ ⟨held, has, rfl⟩
    refine .ite (fun _ => .pure ⟨held, held', has, has', rfl⟩) fun _ => ?_
    refine .bind (Handles.frame held' (HeapFileScan.getRecord_handling has)) ?_
    rintro found _ ⟨held, has, rfl⟩
    cases found with
    | error => exact .halt
    | ok rec =>
      refine .bind (copyAttrs_tidy _ _).beside ?_
      rintro data _ rfl
      refine .bind (InsertFileScan.insertRecord_handling _ has').behind ?_
      rintro ⟨reply, h⟩ _ ⟨held', has', rfl⟩
      cases reply with
      | error => exact .halt
      | ok rid => exact ih has has'

theorem startInner_has (attrDesc1 attrDesc2 : AttrDesc) (myop : Operator) (outerRec : List UInt8)
    (has : s.Has held) :
    (startInner attrDesc1 attrDesc2 myop outerRec s).2.Has held := by
  unfold startInner
  cases datatypeOf? attrDesc2.attrType with
  | none => exact has
  | some type => exact HeapFileScan.startScan_has has

theorem outerLoop_handling (descs : List AttrDesc) (reclen : Int) (attrDesc1 attrDesc2 : AttrDesc)
    (myop : Operator) (fuel : Nat) (has : s.Has held) (has' : h.Has held') :
    Handling (held + held') (outerLoop descs reclen attrDesc1 attrDesc2 myop fuel s h)
      fun r total => Both r.2.1 r.2.2 total := by
  induction fuel generalizing s h held held' with
  | zero => exact .halt
  | succ fuel ih =>
    refine .bind (Handles.frame held' (HeapFileScan.scanNext_handling fuel has)) ?_
    rintro ⟨status, s⟩ _ ⟨held, has, rfl⟩
    refine .ite (fun _ => .pure ⟨held, held', has, has', rfl⟩) fun _ => ?_
    refine .bind (Handles.frame held' (HeapFileScan.getRecord_handling has)) ?_
    rintro found _ ⟨held, has, rfl⟩
    cases found with
    | error => exact .halt
    | ok outerRec =>
      -- the inner scan comes to the inserter, the outer one waits
      refine .bind (HeapFileScan.new_handling attrDesc2.relName).beside ?_
      rintro made _ ⟨inner, has₂, rfl⟩
      cases made with
      | error => exact .halt
      | ok innerScan =>
        have started := startInner_has attrDesc1 attrDesc2 myop outerRec has₂
        refine .ite (fun _ => .bind (Handles.frame _ (HeapFileScan.delete_handling started)) ?_)
          fun _ => ?_
        · rintro _ _ ⟨_, rfl, rfl⟩
          rw [zero_add]
          exact .pure ⟨held, held', has, has', rfl⟩
        · rw [add_left_comm]
          refine .bind (innerLoop_handling descs reclen attrDesc1.relName outerRec fuel started
            has').behind ?_
          rintro ⟨innerScan, h⟩ _ ⟨_, ⟨inner, held', has₂, has', rfl⟩, rfl⟩
          rw [add_left_comm]
          refine .bind (Handles.frame _ (HeapFileScan.delete_handling has₂)) ?_
          rintro _ _ ⟨_, rfl, rfl⟩
          rw [zero_add]
          exact ih has has'

theorem lookupAttrs_tidy (fuel : Nat) (projNames : List AttrInfo) :
    Tidy (lookupAttrs fuel projNames) := by
  induction projNames with
  | nil => exact .pure rfl
  | cons proj projNames ih =>
    refine (AttrCatalog.getInfo_tidy fuel proj.relName proj.attrName).except (fun _ => .pure rfl)
      fun d => ?_
    exact Tidy.except ih (fun _ => .pure rfl) fun more => .pure rfl

theorem joinScan_tidy (fuel : Nat) (result : Name) (descs : List AttrDesc) (attrDesc1 : AttrDesc)
    (op : Operator) (attrDesc2 : AttrDesc) :
    Tidy (joinScan fuel result descs attrDesc1 op attrDesc2) := by
  refine .bind (InsertFileScan.new_handling result) fun reply held' has' => ?_
  cases reply with
  | error => exact .halt
  | ok h =>
    refine .bind (HeapFileScan.new_handling attrDesc1.relName).beside ?_
    rintro found _ ⟨held, has, rfl⟩
    cases found with
    | error => exact .halt
    | ok s =>
      have started : (s.startScan none).2.Has held := HeapFileScan.startScan_has has
      refine .bind (outerLoop_handling descs _ attrDesc1 attrDesc2 op.flip fuel started has') ?_
      rintro ⟨status, s, h⟩ total both
      exact deleteBoth_handling both

theorem quJoin_tidy (joinMethod : JoinType) (fuel : Nat) (result : Name) (projNames : List AttrInfo)
    (attr1 : AttrInfo) (op : Operator) (attr2 : AttrInfo) :
    Tidy (quJoin joinMethod fuel result projNames attr1 op attr2) := by
  refine .ite (fun _ => .ite (fun _ => .pure rfl) fun _ => ?_) fun _ => .ite (fun _ => .pure rfl)
    fun _ => .pure rfl
  refine (lookupAttrs_tidy fuel projNames).except (fun _ => .pure rfl) fun descs => ?_
  refine (AttrCatalog.getInfo_tidy fuel attr1.relName attr1.attrName).except (fun _ => .pure rfl)
    fun attrDesc1 => ?_
  refine (AttrCatalog.getInfo_tidy fuel attr2.relName attr2.attrName).except (fun _ => .pure rfl)
    fun attrDesc2 => ?_
  exact joinScan_tidy fuel result descs attrDesc1 op attrDesc2

/-! Insertion, deletion and the utilities. -/

theorem insertTuple_tidy (relation : Name) (record : Record) :
    Tidy (insertTuple relation record) := by
  refine .bind (InsertFileScan.new_handling relation) fun reply held has => ?_
  cases reply with
  | error => exact .halt
  | ok h =>
    refine .bind (InsertFileScan.insertRecord_handling record has) ?_
    rintro ⟨result, h⟩ held has'
    refine .bind (InsertFileScan.delete_handling has') ?_
    rintro _ _ rfl
    cases result <;> exact .pure rfl

theorem quInsert_tidy (atof : Name → Nat) (memory : Memory) (fuel : Nat) (relation : Name)
    (attrList : List AttrInfo) :
    Tidy (quInsert atof memory fuel relation attrList) := by
  refine (RelCatalog.getInfo_tidy fuel relation).except (fun _ => .pure rfl) fun rd => ?_
  refine (AttrCatalog.getRelInfo_tidy fuel rd.relName).except (fun _ => .pure rfl) fun attrs => ?_
  refine .ite (fun _ => .halt) fun _ => ?_
  simp only
  split
  · exact .halt
  · exact insertTuple_tidy relation _

theorem deleteWhile_handling (fuel : Nat) (status : Status) (has : s.Has held) :
    Handling held (deleteWhile fuel status s) fun s held => s.Has held := by
  induction fuel generalizing status s held with
  | zero => exact .halt
  | succ fuel ih =>
    refine .ite (fun _ => .pure has) fun _ => .bind (HeapFileScan.scanNext_handling fuel has) ?_
    rintro ⟨status, s⟩ held has'
    refine .ite (fun _ => .pure has') fun _ => .bind (HeapFileScan.deleteRecord_handling has') ?_
    rintro ⟨_, s⟩ held has''
    exact ih status has''

theorem deleteScan_handling (fuel : Nat) (filter : Option Filter) (has : s.Has held) :
    Handling held (deleteScan fuel s filter) fun _ held => held = 0 := by
  have started : (s.startScan filter).2.Has held := HeapFileScan.startScan_has has
  refine .bind (deleteWhile_handling fuel .ok started) fun s held has' =>
    .bind (HeapFileScan.delete_handling has') ?_
  rintro _ _ rfl
  exact .pure rfl

theorem quDelete_tidy (atof : Name → Nat) (fuel : Nat) (relation attrName : Name) (op : Operator)
    (type : Datatype) (attrValue : Name) :
    Tidy (quDelete atof fuel relation attrName op type attrValue) := by
  refine .ite (fun _ => .pure rfl) fun _ => .bind (HeapFileScan.new_handling relation)
    fun reply held has => ?_
  cases reply with
  | error => exact .pure has
  | ok s =>
    refine .ite (fun _ => deleteScan_handling fuel none has) fun _ => ?_
    refine .bind (AttrCatalog.getInfo_tidy fuel relation attrName).beside ?_
    rintro found _ rfl
    cases found with
    -- the scan is not deleted
    | error => exact .abandon (HeapFile.Has.mem_backed has) rfl
    | ok d => exact deleteScan_handling fuel _ has

theorem loadLoop_handling (width fuel : Nat) (data : List UInt8) (has : h.Has held) :
    Handling held (loadLoop width fuel data h) fun r held =>
      match r with
      | .error _ => held = 0
      | .ok h => h.Has held := by
  induction fuel generalizing data h held with
  | zero => exact .halt
  | succ fuel ih =>
    refine .ite (fun _ => .pure has) fun _ => .bind (InsertFileScan.insertRecord_handling _ has) ?_
    rintro ⟨reply, h⟩ held has'
    cases reply with
    -- the inserter is not deleted
    | error => exact .abandon (HeapFile.Has.mem_backed has') rfl
    | ok rid => exact ih _ has'

theorem utLoad_tidy (unix : Name → Option (List UInt8)) (fuel : Nat) (relation fileName : Name) :
    Tidy (utLoad unix fuel relation fileName) := by
  refine .ite (fun _ => .pure rfl) fun _ => ?_
  cases unix fileName with
  | none => exact .pure rfl
  | some data =>
    refine (RelCatalog.getInfo_tidy fuel relation).except (fun _ => .pure rfl) fun rd => ?_
    refine (AttrCatalog.getRelInfo_tidy fuel rd.relName).except (fun _ => .pure rfl) fun attrs => ?_
    refine .bind (InsertFileScan.new_handling rd.relName) fun reply held has => ?_
    cases reply with
    | error => exact .pure has
    | ok h =>
      refine .ite (fun _ => .halt_bind) fun _ => .bind (loadLoop_handling _ fuel data has)
        fun loaded held has' => ?_
      cases loaded with
      | error => exact .pure has'
      | ok h =>
        refine .bind (InsertFileScan.delete_handling has') ?_
        rintro _ _ rfl
        exact .pure rfl

theorem printLoop_handling (fuel : Nat) (has : s.Has held) : Handling held (printLoop fuel s)
    fun r held => match r with
    | .error _ => held = 0
    | .ok s => s.Has held := by
  induction fuel generalizing s held with
  | zero => exact .halt
  | succ fuel ih =>
    refine .bind (HeapFileScan.scanNext_handling fuel has) ?_
    rintro ⟨status, s⟩ held has'
    refine .ite (fun _ => ?_) fun _ => .bind (HeapFileScan.getRecord_handling has')
      fun found held has'' => ?_
    · split
      · exact .abandon (HeapFile.Has.mem_backed has') rfl
      · exact .pure has'
    · cases found with
      | error => exact .abandon (HeapFile.Has.mem_backed has'') rfl
      | ok => exact ih has''

theorem utPrint_tidy (fuel : Nat) (relation : Name) : Tidy (utPrint fuel relation) := by
  refine (RelCatalog.getInfo_tidy fuel _).except (fun _ => .pure rfl) fun rd => ?_
  refine (AttrCatalog.getRelInfo_tidy fuel rd.relName).except (fun _ => .pure rfl) fun attrs => ?_
  refine .bind (HeapFileScan.new_handling rd.relName) fun reply held has => ?_
  cases reply with
  | error => exact .pure has
  | ok s =>
    have started : (s.startScan none).2.Has held := HeapFileScan.startScan_has has
    refine .ite (fun _ => .abandon (HeapFile.Has.mem_backed started) rfl) fun _ => ?_
    refine .bind (printLoop_handling fuel started) fun printed held has' => ?_
    cases printed with
    | error => exact .pure has'
    | ok s =>
      refine .bind (HeapFileScan.endScan_handling has') ?_
      rintro ⟨status, s⟩ held ended
      refine .ite (fun _ => .abandon (HeapFile.Has.mem_backed ended) rfl) fun _ => ?_
      refine .bind (HeapFileScan.delete_handling ended) ?_
      rintro _ _ rfl
      exact .pure rfl

theorem help_tidy (fuel : Nat) (relation : Name) : Tidy (RelCatalog.help fuel relation) := by
  refine .ite (fun _ => utPrint_tidy fuel relCatName) fun _ => ?_
  refine (RelCatalog.getInfo_tidy fuel relation).except (fun _ => .pure rfl) fun rd => ?_
  exact (AttrCatalog.getRelInfo_tidy fuel relation).except (fun _ => .pure rfl) fun attrs => .pure rfl

end query

/-! The interpreter. -/

section interp

theorem createAttrs_tidy (fuel : Nat) (resultName : Name) (rename : Bool) (given : List Name)
    (counter : Nat) (attrs : List AttrInfo) :
    Tidy (createAttrs fuel resultName rename given counter attrs) := by
  induction attrs generalizing given counter with
  | nil => exact .pure rfl
  | cons attr attrs ih =>
    refine (AttrCatalog.getInfo_tidy fuel attr.relName attr.attrName).except (fun _ => .pure rfl)
      fun d => ?_
    refine Tidy.andThen (ih _ _) ?_
    rintro ⟨_ | created, counter⟩ <;> exact .pure rfl

theorem checkAttrs_tidy (fuel : Nat) (attrList : List AttrInfo) (attrs : List AttrDesc) :
    Tidy (checkAttrs fuel attrList attrs) := by
  induction attrList generalizing attrs with
  | nil => exact .pure rfl
  | cons attr attrList ih =>
    cases attrs with
    | nil => exact .pure rfl
    | cons existing attrs =>
      refine (AttrCatalog.getInfo_tidy fuel attr.relName attr.attrName).except (fun _ => .pure rfl)
        fun d => ?_
      exact .ite (fun _ => .pure rfl) fun _ => ih attrs

theorem plan_tidy {atof : Name → Nat} {joinMethod : JoinType} {resultName : Name}
    {query : QueryNode} {p : Plan} (planned : plan atof joinMethod resultName query = .ok p)
    (fuel : Nat) : Tidy (p.call fuel) := by
  unfold plan at planned
  split at planned
  · split at planned
    · cases planned
    · cases planned
      exact quSelect_tidy atof fuel resultName _ none .lt none
  · split at planned
    · cases planned
    · cases planned
      exact quSelect_tidy atof fuel resultName _ _ _ _
  · split at planned
    · cases planned
    · cases planned
      exact quJoin_tidy joinMethod fuel resultName _ _ _ _

theorem prepareResult_tidy (fuel : Nat) (resultName : Name) (existing : Option (List AttrDesc))
    (p : Plan) (counter : Nat) :
    Tidy (prepareResult fuel resultName existing p counter) := by
  cases existing with
  | none =>
    refine (createAttrs_tidy fuel resultName p.rename [] counter p.attrList).andThen ?_
    rintro ⟨_ | created, counter⟩
    · exact .pure rfl
    · exact (RelCatalog.createRel_tidy fuel resultName created).andThen fun _ => .pure rfl
  | some attrs =>
    exact .ite (fun _ => .pure rfl) fun _ => (checkAttrs_tidy fuel p.attrList attrs).andThen
      fun _ => .pure rfl

theorem performQuery_tidy (atof : Name → Nat) (joinMethod : JoinType) (fuel : Nat)
    (resultName : Name) (existing : Option (List AttrDesc)) (query : QueryNode) (counter : Nat) :
    Tidy (performQuery atof joinMethod fuel resultName existing query counter) := by
  unfold performQuery
  split
  next => exact .pure rfl
  next p planned =>
    refine .ite (fun _ => .halt_bind) fun _ => ?_
    refine (prepareResult_tidy fuel resultName existing p counter).andThen ?_
    rintro ⟨status, counter⟩
    cases status with
    | ok => exact (plan_tidy planned fuel).andThen fun _ => .pure rfl
    | _ => exact .pure rfl

theorem findResult_tidy (fuel : Nat) (relname : Option Name) : Tidy (findResult fuel relname) := by
  cases relname with
  | some name =>
    refine (AttrCatalog.getRelInfo_tidy fuel name).andThen fun found => ?_
    cases found with
    | ok => exact .pure rfl
    | error status => cases status <;> exact .pure rfl
  | none =>
    refine (RelCatalog.getInfo_tidy fuel tmpResult).andThen fun found => ?_
    cases found with
    | ok => exact .pure rfl
    | error status => cases status <;> exact .pure rfl

theorem interpQuery_tidy (env : Environment) (fuel counter : Nat) (query : QueryNode) :
    Tidy (interpQuery env fuel counter query) := by
  refine Tidy.andThen ?_ ?_
  · refine (findResult_tidy fuel query.relname).andThen fun found => ?_
    cases found with
    | error => exact .pure rfl
    | ok existing => exact performQuery_tidy env.atof env.joinMethod fuel _ existing query counter
  rintro ⟨_ | errval, counter⟩
  · exact .pure rfl
  · refine .ite (fun _ => Tidy.andThen ?_ fun _ => .pure rfl) fun _ => .pure rfl
    refine (utPrint_tidy fuel tmpResult).andThen fun _ => ?_
    exact (RelCatalog.destroyRel_tidy fuel tmpResult).andThen fun _ => .pure rfl

theorem interpInsert_tidy (env : Environment) (fuel : Nat) (relname : Name)
    (attrlist : List AttrVal) :
    Tidy (interpInsert env fuel relname attrlist) := by
  refine .ite (fun _ => .halt_bind) fun _ => ?_
  split
  · exact .pure rfl
  · refine .ite (fun _ => .halt_bind) fun _ => ?_
    exact (quInsert_tidy env.atof env.memory fuel relname _).andThen fun _ => .pure rfl

theorem interpDelete_tidy (env : Environment) (fuel : Nat) (relname : Name) (qual : Option Qual) :
    Tidy (interpDelete env fuel relname qual) := by
  match qual with
  | none => exact (quDelete_tidy env.atof fuel relname [] .lt .string []).andThen fun _ => .pure rfl
  | some (.select selattr op value) =>
    refine .ite (fun _ => .halt_bind) fun _ => ?_
    exact (quDelete_tidy env.atof fuel relname selattr.attrname op value.type value.text).andThen
      fun _ => .pure rfl
  | some (.join _ _ _) => exact .pure rfl

theorem interpCreate_tidy (fuel : Nat) (relname : Name) (attrlist : List AttrType) :
    Tidy (interpCreate fuel relname attrlist) := by
  unfold interpCreate
  split
  · exact .pure rfl
  · exact .ite (fun _ => .halt_bind) fun _ => (RelCatalog.createRel_tidy fuel relname _).andThen
      fun _ => .pure rfl

theorem interp_tidy (env : Environment) (fuel counter : Nat) (node : Node) :
    Tidy (interp env fuel counter node) := by
  cases node with
  | query query => exact interpQuery_tidy env fuel counter query
  | insert relname attrlist =>
    exact (interpInsert_tidy env fuel relname attrlist).andThen fun _ => .pure rfl
  | delete relname qual => exact (interpDelete_tidy env fuel relname qual).andThen fun _ => .pure rfl
  | create relname attrlist =>
    exact (interpCreate_tidy fuel relname attrlist).andThen fun _ => .pure rfl
  | destroy relname => exact (RelCatalog.destroyRel_tidy fuel relname).andThen fun _ => .pure rfl
  | load relname filename =>
    exact (utLoad_tidy env.unix fuel relname filename).andThen fun _ => .pure rfl
  | print relname => exact (utPrint_tidy fuel relname).andThen fun _ => .pure rfl
  | help relname => exact (help_tidy fuel (relname.getD [])).andThen fun _ => .pure rfl
  | index => exact .halt

end interp
end Minirel
