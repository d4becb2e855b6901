import Minirel.Catalog.Dbcreate
import Minirel.HeapFile.Creation
import Minirel.Interp.Effects
import Minirel.Interp.Holdings
import Minirel.Lib.Transition

/-! Statements one after the other, on a database that was created in an empty
directory. The process may end between statements, and a new one opens the
catalogs again. Pins are counted along with the calls. Any call to the storage
that a statement makes may fail. -/
namespace Minirel
open Program Transition Function

/-- `main` up to the first statement: the catalogs stay open (minirel.C). -/
def minirel : Prog Status := do
  match ← HeapFile.new relCatName with
  | .error status => return status
  | .ok _ =>
    match ← HeapFile.new attrCatName with
    | .error status => return status
    | .ok _ => return .ok

structure Shell where
  storage : Flat
  pins : Pins
  counter : Nat

namespace Shell

def Launched (st : Flat) (s : Shell) : Prop :=
  run (traced Flat.handle Pins.account) minirel ({ st with openCnt := fun _ => 0 }, 0) =
    some (.ok, s.storage, s.pins) ∧ s.counter = 0

def Started (s : Shell) : Prop :=
  ∃ st₀ st, (∀ name, st₀.files name = none ∧ st₀.openCnt name = 0) ∧
    Flat.run dbcreate st₀ = some (.ok, st) ∧ Launched st s

inductive Event
  | statement (env : Environment) (failures : Failures) (node : Node)
  | restart

/-- Which statements may be made, in which environment and with which calls failing. -/
abbrev Condition := Shell → Environment → Failures → Node → Prop

inductive Step (allowed : Condition) : Shell → Event → Shell → Prop
  | statement {s t : Shell} {env : Environment} {failures : Failures} {node : Node} {fuel calls : Nat}
      {printed : List Printed} (wellFormed : node.WellFormed) (admitted : allowed s env failures node)
      (returned : run (Erratic.handle failures) (interp env fuel s.counter node)
        ⟨s.storage, s.pins, 0⟩ = some ((printed, t.counter), ⟨t.storage, t.pins, calls⟩)) :
      Step allowed s (.statement env failures node) t
  | restart {s t : Shell} (launched : Launched s.storage t) : Step allowed s .restart t

def Anything : Condition := fun _ _ _ _ => True

end Shell

def Database.launched (db : Database) : Database :=
  (Database.leaveOpen { db with openCnt := fun _ => 0 } relCatName).leaveOpen attrCatName

theorem Database.launched_openCnt (db : Database) {name : Name} (user : UserName name) :
    db.launched.openCnt name = 0 := by
  simp [Database.launched, Database.leaveOpen, user.1, user.2]

variable {st st' : Flat} {db : Database} {s t : Shell} {name : Name}

/-- The objects of the catalogs are never deleted. -/
theorem minirel_tidy : Tidy minirel := by
  refine .bind (HeapFile.new_handling relCatName) fun reply held has => ?_
  cases reply with
  | error => exact .pure has
  | ok h =>
    refine .bind (HeapFile.new_handling attrCatName).beside ?_
    rintro reply' _ ⟨held', has', rfl⟩
    have first : held ∈ Holdings.backed := HeapFile.Has.mem_backed has
    cases reply' with
    | error =>
      obtain rfl : held' = 0 := has'
      rw [zero_add]
      exact .abandon first rfl
    | ok h' => exact .abandon (Holdings.backed.add_mem (HeapFile.Has.mem_backed has') first) rfl

theorem minirel_spec {cat : Catalog} (rep : Represents st cat) :
    Flat.run minirel st = some (.ok, (st.opened relCatName).opened attrCatName) := by
  obtain ⟨⟨rels, ⟨f, hdr, chain, there, heap, _⟩, _⟩, rows, ⟨f', hdr', chain', there', heap', _⟩,
    _⟩ := rep
  have new := HeapFile.new_spec heap there relCatName_named
  have new' := HeapFile.new_spec heap'
    (show (st.opened relCatName).files attrCatName = some f' from there') attrCatName_named
  rw [minirel, Flat.run, run_bind_of _ _ new]
  simp only
  rw [run_bind_of _ _ new']
  rfl

theorem Sound.closed_all (sound : Sound st db) :
    Sound { st with openCnt := fun _ => 0 } { db with openCnt := fun _ => 0 } := by
  refine ⟨⟨sound.real.catalogs.congr rfl rfl, sound.real.directory.present, rfl,
    sound.real.directory.creatable⟩,
    sound.sizes, fun name user there => ?_, fun name isOpen => absurd rfl isOpen⟩
  obtain ⟨records, table⟩ := sound.heaps name user there
  exact ⟨records, table.congr rfl⟩

theorem Shell.Launched.sound (sound : Sound st db) (launched : Launched st s) :
    Sound s.storage db.launched ∧ ∀ name, UserName name → ∀ n, s.pins (name, n) = 0 := by
  obtain ⟨returned, -⟩ := launched
  have closed := sound.closed_all
  obtain ⟨-, same⟩ := Prod.mk.inj
    (Option.some.inj ((minirel_spec closed.real.catalogs).symm.trans (run_of_traced returned)))
  obtain ⟨⟨rels, relTable, _⟩, rows, attrTable, _⟩ := closed.real.catalogs
  have opened := (closed.leftOpen relTable.raw.there).leftOpen
    (show st.files attrCatName ≠ none from attrTable.raw.there)
  rw [same] at opened
  refine ⟨opened, fun name user n => ?_⟩
  obtain ⟨held, rfl, kept⟩ := Handles.flat minirel_tidy returned
  have unopened : s.storage.openCnt name = 0 := by
    rw [← opened.real.directory.openCnt]
    exact db.launched_openCnt user
  have pins := (kept name).2 (by rw [unopened]; rfl) n
  rw [pins]
  rfl

theorem dbcreate_sound {st₀ : Flat} (vacant : ∀ name, st₀.files name = none ∧ st₀.openCnt name = 0)
    (ran : Flat.run dbcreate st₀ = some (.ok, st)) :
    Sound st (.initial st) ∧ ∀ name, UserName name → st.files name = none ∧
      st.openCnt name = 0 := by
  obtain ⟨st', ran', real, beside⟩ := dbcreate_spec (vacant_of_dbcreate ran)
  rw [ran] at ran'
  cases ran'
  have absent (name : Name) (user : UserName name) : st.files name = none :=
    (beside.files name user).trans (vacant name).1
  have unopened (name : Name) : st.openCnt name = 0 := by
    rw [beside.openCnt]
    exact (vacant name).2
  refine ⟨⟨real, fun relation => ?_, fun name user there => absurd (absent name user) there,
    fun name isOpen => absurd (unopened name) isOpen⟩, fun name user =>
      ⟨absent name user, unopened name⟩⟩
  · simp only [Database.initial]
    split
    · exact ⟨by decide, by decide, by decide⟩
    · split
      · exact ⟨by decide, by decide, by decide⟩
      · exact ⟨by decide, by decide, by decide⟩

namespace Shell

def Realized (inv : Database → Pins → Prop) (s : Shell) : Prop := ∃ db, Sound s.storage db ∧
    inv db s.pins

/-- What holds of a new database and is kept by the effects of the statements
that are allowed, and when a process starts, holds after every event. -/
theorem invariant {allowed : Condition} (inv : Database → Pins → Prop)
    (start : ∀ db, (∀ name, UserName name → db.rel name = none ∧ db.present name = false ∧
      db.openCnt name = 0) → inv db 0)
    (relaunch : ∀ db pins pins', inv db pins → (∀ name, UserName name → ∀ n, pins' (name, n) = 0) →
      inv db.launched pins')
    (reliable : ∀ s env failures node, allowed s env failures node →
      failures = noFailures ∧ ∀ name ∈ node.writes, UserName name)
    (step : ∀ s env node db db' pins, Sound s.storage db → inv db s.pins →
      allowed s env noFailures node → Effect env s.counter db node db' →
      (∀ name, db'.openCnt name = db.openCnt name → ∀ n, pins (name, n) = s.pins (name, n)) →
        inv db' pins)
    (reached : Reachable Started (Step allowed) s) : s.Realized inv := by
  refine reached.invariant ?_ ?_
  · rintro s ⟨st₀, st, vacant, ran, launched⟩
    obtain ⟨sound, absent⟩ := dbcreate_sound vacant ran
    obtain ⟨sound', unpinned⟩ := launched.sound sound
    refine ⟨_, sound', relaunch _ 0 _ (start _ fun name user => ⟨?_, ?_, (absent name user).2⟩)
      unpinned⟩
    · simp [Database.initial, user.1, user.2]
    · simp [Database.initial, (absent name user).1]
  · rintro s event t ⟨db, sound, holds⟩ taken
    cases taken with
    | restart launched =>
      obtain ⟨sound', unpinned⟩ := launched.sound sound
      exact ⟨_, sound', relaunch _ _ _ holds unpinned⟩
    | @statement _ env failures node fuel calls printed wellFormed admitted returned =>
      obtain ⟨rfl, writes⟩ := reliable s env failures node admitted
      have returned := Erratic.flat_of_run returned
      obtain ⟨db', effect, sound'⟩ := interp_effect sound wellFormed writes (run_of_traced returned)
      refine ⟨db', sound', step s env node db db' t.pins sound holds admitted effect
        fun name same n => ?_⟩
      obtain ⟨held, rfl, kept⟩ := Handles.flat (interp_tidy env fuel s.counter node) returned
      rw [sound'.real.directory.openCnt, sound.real.directory.openCnt] at same
      exact ((kept name).2 (by rw [same]; exact (add_zero _).symm) n).trans (add_zero _)

end Shell

/-! Runs that there are. -/

/-- The name can be given to a new relation. -/
structure Database.Free (db : Database) (name : Name) : Prop where
  unlisted : db.rel name = none
  absent : db.present name = false
  unopened : db.openCnt name = 0
  creatable : db.creatable name = true

/-- A relation whose name is free and whose attributes are accepted is created. -/
theorem Sound.creates {attrList : List AttrInfo} (sound : Sound st db) (free : db.Free name)
    (terminated : 0 ∉ name) (declarable : Declarable attrList)
    (accepted : db.Acceptable name attrList) (short : ∀ attr ∈ attrList, attr.Short) :
    ∃ st', Returns Flat.handle (RelCatalog.createRel · name attrList) st (.ok, st') ∧
      Sound st' { db.entered name attrList with present := update db.present name true } ∧
      (∀ other, UserName other → other ≠ name → st'.files other = st.files other) ∧
      Table st' name (id : List UInt8 → _) [] := by
  have user := Database.userName_of_unlisted accepted.unlisted
  obtain ⟨st', returns, -⟩ := createRel_refines sound.real terminated declarable.terminated
  obtain ⟨fuel, ran⟩ := returns
  obtain ⟨-, -, only⟩ :=
    RelCatalog.createRel_run sound.real terminated declarable.terminated (ran fuel le_rfl)
  have sound' := (sound.createRel declarable terminated (ran fuel le_rfl)).2
  rw [Database.createRel_ok accepted short free.unopened free.absent free.creatable] at ran sound'
  refine ⟨st', ⟨fuel, ran⟩, sound', (only user).others, ?_⟩
  have there : (st'.files name).isSome = true := by
    rw [← sound'.real.directory.present]
    exact update_self ..
  rcases (only user).own with kept | absent | new
  · have absent := free.absent
    rw [sound.real.directory.present, ← kept, there] at absent
    cases absent
  · rw [absent] at there
    cases there
  · exact new

theorem findResult_none {cat : Catalog} (rep : Represents st cat)
    (unlisted : cat.rel tmpResult = none) :
    Returns Flat.handle (findResult · none) st (.ok none, st) := by
  have looked := RelCatalog.getInfo_spec rep (show 0 ∉ tmpResult by decide) (by decide)
  rw [unlisted] at looked
  exact .bind looked (.of_run rfl)

/-- No files besides the database, and memory that is zero. -/
def Environment.bare : Environment :=
  ⟨fun _ => 0, .nlJoin, ⟨fun _ _ => 0, fun _ => 0⟩, fun _ => none⟩

namespace Shell
variable {allowed : Condition} {env : Environment} {node : Node}

theorem exists_started :
    ∃ s, Started s ∧ s.counter = 0 ∧ ∃ db, Sound s.storage db ∧ ∀ name, UserName name →
      db.Free name := by
  have vacant : Vacant .empty := ⟨⟨rfl, rfl⟩, ⟨rfl, rfl⟩, rfl, rfl⟩
  obtain ⟨st, ran, -, beside⟩ := dbcreate_spec vacant
  obtain ⟨sound, absent⟩ := dbcreate_sound (fun _ => ⟨rfl, rfl⟩) ran
  obtain ⟨pins, launch⟩ :=
    exists_run_traced Pins.account (minirel_spec sound.closed_all.real.catalogs) 0
  have launched : Launched st ⟨_, pins, 0⟩ := ⟨launch, rfl⟩
  obtain ⟨sound', -⟩ := launched.sound sound
  refine ⟨_, ⟨.empty, st, fun _ => ⟨rfl, rfl⟩, ran, launched⟩, rfl, _, sound', fun name user =>
    ⟨?_, ?_, ?_, ?_⟩⟩
  · simp [Database.launched, Database.leaveOpen, Database.initial, user.1, user.2]
  · simp [Database.launched, Database.leaveOpen, Database.initial, (absent name user).1]
  · exact Database.launched_openCnt _ user
  · change st.creatable name = true
    rw [beside.creatable]
    rfl

theorem Step.of_returns {printed : List Printed} {counter : Nat} (wellFormed : node.WellFormed)
    (admitted : allowed s env noFailures node)
    (returns : Returns Flat.handle (interp env · s.counter node) s.storage
      ((printed, counter), st')) :
    ∃ t : Shell, t.storage = st' ∧ t.counter = counter ∧
      Step allowed s (.statement env noFailures node) t := by
  obtain ⟨fuel, returns⟩ := returns
  obtain ⟨pins, ran⟩ := exists_run_traced Pins.account (returns fuel le_rfl) s.pins
  obtain ⟨calls, ran⟩ := Erratic.exists_run_of_flat (s := ⟨s.storage, s.pins, 0⟩) ran
  exact ⟨⟨st', pins, counter⟩, rfl, rfl, .statement wellFormed admitted ran⟩

structure Usable (name : Name) : Prop where
  named : name ≠ []
  terminated : 0 ∉ name
  fits : name.length < maxName

theorem exists_create {relname attrname : Name} (env : Environment) (sound : Sound s.storage db)
    (free : db.Free relname) (usable : Usable relname) (usable' : Usable attrname)
    (admitted : allowed s env noFailures (.create relname [⟨attrname, 105 - 128⟩])) :
    ∃ t db', Step allowed s (.statement env noFailures (.create relname [⟨attrname, 105 - 128⟩]))
      t ∧ t.counter = s.counter ∧ Sound t.storage db' ∧
        Table t.storage relname (id : List UInt8 → _) [] ∧ db'.openCnt relname = 0 ∧
      db'.rows relname = [⟨relname, attrname, 0, 1, 4⟩] ∧
      ∀ other ≠ relname, db'.rows other = db.rows other ∧ (db.Free other → db'.Free other) := by
  have wellFormed : (Node.create relname [⟨attrname, 105 - 128⟩]).WellFormed :=
    ⟨usable.terminated, List.forall_mem_singleton.mpr usable'.terminated⟩
  have made : mkAttrDescrs relname maxAttrs [⟨attrname, 105 - 128⟩] =
    .ok [⟨relname, attrname, 1, 4, none⟩] := rfl
  have fits : entriesFit [⟨relname, attrname, 1, 4, none⟩] = true := by
    simp [entriesFit, usable.fits, usable'.fits]
  have short : ∀ attr ∈ [(⟨relname, attrname, 1, 4, none⟩ : AttrInfo)], attr.Short :=
    List.forall_mem_singleton.mpr usable'.fits
  have accepted : db.Acceptable relname [⟨relname, attrname, 1, 4, none⟩] :=
    ⟨usable.named, List.cons_ne_nil _ _, usable.fits, free.unlisted, List.nodup_singleton _, by
      simp only [RelCatalog.tupleWidth, List.map_cons, List.map_nil]
      decide⟩
  obtain ⟨st', returns, sound', -, empty⟩ := sound.creates free wellFormed.1
    (mkAttrDescrs_declarable le_rfl wellFormed.2 made).2 accepted short
  have created : Returns Flat.handle (interpCreate · relname [⟨attrname, 105 - 128⟩]) s.storage
      ([], st') := by
    simp only [interpCreate, made, fits, Bool.true_eq_false, if_false]
    exact .bind returns (.of_run rfl)
  obtain ⟨t, rfl, same, step⟩ := Step.of_returns wellFormed admitted (.bind created (.of_run rfl))
  refine ⟨t, _, step, same, sound', empty, free.unopened, ?_, fun other apart => ⟨?_, fun free' => ?_⟩⟩
  · simp only [Database.entered, Database.rows_enter, update_self, storable_of_short short]
    rfl
  · simp [Database.entered, update_of_ne apart]
  · obtain ⟨unlisted, absent, unopened, creatable⟩ := free'
    exact ⟨by simp [Database.entered, update_of_ne apart, unlisted],
      by simp [update_of_ne apart, absent], unopened, creatable⟩

/-- `select r.a from r`. -/
def selectAll : QueryNode := ⟨none, [⟨chars "r", chars "a"⟩], none⟩

/-- On a relation without tuples the result relation is there when the query was
made, and it is printed and destroyed. -/
theorem exists_select (env : Environment) (sound : Sound s.storage db)
    (empty : Table s.storage (chars "r") id [])
    (rows : db.rows (chars "r") = [⟨chars "r", chars "a", 0, 1, 4⟩]) (free : db.Free tmpResult)
    (admitted : allowed s env noFailures (.query selectAll)) :
    ∃ mid t, Returns Flat.handle (runQuery env.atof env.joinMethod · selectAll s.counter) s.storage
        ((.ok .ok, s.counter), mid) ∧ mid.files tmpResult ≠ none ∧
      Step allowed s (.statement env noFailures (.query selectAll)) t ∧
      Returns Flat.handle (interp env · s.counter (.query selectAll)) s.storage
        (([], s.counter), t.storage) := by
  let columns : List AttrInfo := [⟨tmpResult, chars "a", 1, 4, none⟩]
  have user : UserName tmpResult := by decide
  have terminated : 0 ∉ tmpResult := by decide
  -- the result relation is created
  have looked := AttrCatalog.getInfo_spec sound.real.catalogs (show 0 ∉ chars "r" by decide) (by decide)
    (show chars "a" ≠ [] by decide)
  rw [rows] at looked
  have accepted : db.Acceptable tmpResult columns :=
    ⟨by decide, by decide, by decide, free.unlisted, by decide, by decide⟩
  have declarable : Declarable columns := ⟨by decide, by decide, by decide⟩
  obtain ⟨st₁, creates, sound₁, others, results⟩ :=
    sound.creates free terminated declarable accepted (by decide)
  -- nothing is selected
  have relation : Relation st₁ (chars "r") [⟨chars "r", chars "a", 0, 1, 4⟩] [] := {
    named := by decide
    terminated := by decide
    described := ⟨_, sound₁.real.catalogs, by
      rw [Database.entered, Database.rows_enter, update_of_ne (by decide), rows]⟩
    distinct := by decide
    placed := by decide
    table := empty.congr (others _ (by decide) (by decide))
    width := fun _ member => by cases member }
  have projects : Projects _ (selectAll.attrlist.map QualAttr.info) [⟨chars "r", chars "a", 0, 1, 4⟩] :=
    .cons ⟨List.mem_singleton_self _, rfl⟩ .nil
  obtain ⟨g, results', selects, table, -⟩ := quSelect_spec env.atof relation projects (by decide)
    (by decide) (by decide)
    (show Where env.atof _ .lt none none none from .always none) results (by decide) (by decide)
  have ran : Returns Flat.handle (runQuery env.atof env.joinMethod · selectAll s.counter) s.storage
      ((.ok .ok, s.counter), st₁.put tmpResult g) := by
    refine .bind (findResult_none sound.real.catalogs free.unlisted) ?_
    exact .bind (.bind (.bind looked (.of_run rfl)) (.bind creates (.of_run rfl)))
      (.bind selects (.of_run rfl))
  -- it is printed and destroyed
  let db₁ : Database :=
    { db.entered tmpResult columns with present := update db.present tmpResult true }
  have sound₂ : Sound (st₁.put tmpResult g) db₁ := (Rewritten.put results.there table).sound user sound₁
  have rows₁ : db₁.rows tmpResult = [⟨tmpResult, chars "a", 0, 1, 4⟩] :=
    (congrFun (Database.rows_enter ..) tmpResult).trans ((update_self ..).trans (by decide))
  have listed : db₁.rel tmpResult = some (int columns.length) :=
    (congrFun (Database.rel_enter ..) tmpResult).trans (update_self ..)
  have described : db₁.rows tmpResult ≠ [] ∧ ∀ d ∈ db₁.rows tmpResult, d.attrName ≠ [] := by
    rw [rows₁]
    decide
  have prints := utPrint_spec sound₂ terminated (by decide) listed described.1 table
  obtain ⟨st₂, destroys, -⟩ := destroyRel_refines sound₂.real terminated
  have present : db₁.present tmpResult = true := by simp [db₁]
  rw [Database.destroyRel_ok (by decide) user described.1 described.2 free.unopened present] at destroys
  have returns : Returns Flat.handle (interp env · s.counter (.query selectAll)) s.storage
      (([], s.counter), st₂) :=
    .bind ran (.bind (.bind prints (.bind destroys (.of_run rfl))) (.of_run rfl))
  have wellFormed : (Node.query selectAll).WellFormed :=
    ⟨by rintro _ ⟨⟩, by decide, by decide, by rintro _ ⟨⟩⟩
  obtain ⟨t, rfl, -, step⟩ := Step.of_returns wellFormed admitted returns
  exact ⟨_, t, ran, table.there, step, returns⟩

end Shell

end Minirel
