import Minirel.Interp.Shell

/-! Statements release what they acquire: no page of a user relation stays pinned
and no file of one stays open, unless a deletion names an attribute that there is
not, or tuples are loaded that do not fit on a page. -/
namespace Minirel
open Program Transition

namespace Database
variable {db : Database} {relation : Name} {attrList : List AttrInfo}

/-- No file of the user is open, and each belongs to a relation. -/
structure Released (db : Database) : Prop where
  unopened : ∀ name, UserName name → db.openCnt name = 0
  listed : ∀ name, UserName name → db.present name = true → db.rel name ≠ none

theorem destroyRel_unopened (unopened : db.openCnt relation = 0) :
    (db.destroyRel relation).1 ≠ .fileOpen := by
  have outcome := db.destroyRel_cases relation
  generalize db.destroyRel relation = result at outcome
  cases outcome with
  | refused | unknown | stopped | destroyed => exact nofun
  | left _ _ _ _ cause =>
    rcases cause with ⟨-, isOpen⟩ | ⟨rfl, -⟩
    · exact absurd unopened (Nat.pos_iff_ne_zero.mp isOpen)
    · exact nofun

namespace Released

/-- Whatever is entered, the file is not there before. -/
theorem createRel (released : db.Released) : (db.createRel relation attrList).2.Released := by
  have entered (name : Name) (user : UserName name) (there : db.present name = true) :
      (db.entered relation attrList).rel name ≠ none := by
    rw [Database.entered, rel_enter]
    by_cases same : name = relation
    · simp [same]
    · rw [Function.update_of_ne same]
      exact released.listed name user there
  have outcome := db.createRel_cases relation attrList
  generalize db.createRel relation attrList = result at outcome
  cases outcome with
  | refused => exact released
  | stopped | uncreatable => exact ⟨released.unopened, entered⟩
  | known accepted _ known =>
    have user := userName_of_unlisted accepted.unlisted
    rw [released.unopened relation user] at known
    exact absurd accepted.unlisted
      (released.listed relation user (known.resolve_left (Nat.lt_irrefl 0)))
  | created =>
    refine ⟨released.unopened, fun name user there => ?_⟩
    by_cases same : name = relation
    · simp [Database.entered, same]
    · refine entered name user ?_
      simpa [same] using there

theorem destroyRel (released : db.Released) : (db.destroyRel relation).2.Released := by
  have outcome := db.destroyRel_cases relation
  generalize db.destroyRel relation = result at outcome
  cases outcome with
  | refused | unknown | stopped => exact ⟨released.unopened, released.listed⟩
  | left _ user _ _ cause =>
    refine ⟨released.unopened, fun name user' there => ?_⟩
    have apart : name ≠ relation := by
      rintro rfl
      rcases cause with ⟨-, isOpen⟩ | ⟨-, absent⟩
      · exact absurd (released.unopened name user) (Nat.pos_iff_ne_zero.mp isOpen)
      · rw [show db.present name = true from there] at absent
        cases absent
    rw [rel_remove, Function.update_of_ne apart]
    exact released.listed name user' there
  | destroyed user =>
    refine ⟨released.unopened, fun name user' there => ?_⟩
    have apart : name ≠ relation := by
      rintro rfl
      simp at there
    rw [rel_remove, Function.update_of_ne apart]
    exact released.listed name user' (by simpa [apart] using there)

end Released
end Database

/-- No call to the storage fails, the statement does not return early from an
object that it made, and the catalogs are not written to by hand. -/
def Shell.Closes : Condition := fun s env failures node =>
  failures = noFailures ∧ (∀ name ∈ node.writes, UserName name) ∧
    ∀ db relation, Realizes s.storage db → db.present relation = true →
      ¬ LeavesOpen env db relation node

variable {s : Shell} {env : Environment} {node : Node} {db db' : Database} {counter : Nat}

theorem Effect.released (effect : Effect env counter db node db') (released : db.Released)
    (closes : ∀ relation, db.present relation = true → ¬ LeavesOpen env db relation node) :
    db'.Released := by
  cases effect with
  | same => exact released
  | leftOpen leaves _ there => exact absurd leaves (closes _ there)
  | create | result => exact released.createRel
  | destroy | dropped => exact released.destroyRel
  | printed => exact released.createRel.destroyRel

/-- After any statements of this kind, in any processes, no page of a user
relation is pinned and its file is not open, so that it can be destroyed. -/
theorem statements_release (reached : Reachable Shell.Started (Shell.Step Shell.Closes) s) :
    ∀ name, UserName name → 0 ∉ name → s.storage.openCnt name = 0 ∧ (∀ n, s.pins (name, n) = 0) ∧
      ∃ status st', Returns Flat.handle (RelCatalog.destroyRel · name) s.storage (status, st') ∧
        status ≠ .fileOpen := by
  intro name user terminated
  obtain ⟨db, sound, released, unpinned⟩ : s.Realized fun db pins =>
      db.Released ∧ ∀ name, UserName name → ∀ n, pins (name, n) = 0 := by
    refine reached |> Shell.invariant _ ?_ ?_ ?_ ?_
    · intro db vacant
      refine ⟨⟨fun name user => (vacant name user).2.2, fun name user there => ?_⟩, fun _ _ _ => rfl⟩
      rw [(vacant name user).2.1] at there
      cases there
    · rintro db _ pins ⟨released, -⟩ unpinned
      exact ⟨⟨fun name user => db.launched_openCnt user, released.listed⟩, unpinned⟩
    · exact fun s env failures node closes => ⟨closes.1, closes.2.1⟩
    · rintro s env node db db' pins sound ⟨released, unpinned⟩ closes effect kept
      have released' := effect.released released fun relation => closes.2.2 db relation sound.real
      refine ⟨released', fun name user n => ?_⟩
      rw [kept name ((released'.unopened name user).trans (released.unopened name user).symm) n]
      exact unpinned name user n
  have unopened := released.unopened name user
  obtain ⟨st', returns, -⟩ := destroyRel_refines sound.real terminated
  refine ⟨?_, unpinned name user, _, st', returns, Database.destroyRel_unopened unopened⟩
  rw [← sound.real.directory.openCnt]
  exact unopened

/-- In a new database `r` is created and read by `select r.a from r`. -/
theorem statements_release_selected : ∃ s t, Reachable Shell.Started (Shell.Step Shell.Closes) s ∧
    s.storage.files (chars "r") ≠ none ∧
    Shell.Step Shell.Closes s (.statement .bare noFailures (.query Shell.selectAll)) t ∧
    Returns Flat.handle (interp .bare · s.counter (.query Shell.selectAll)) s.storage
      (([], s.counter), t.storage) ∧
    t.storage.openCnt (chars "r") = 0 ∧ (∀ n, t.pins (chars "r", n) = 0) ∧
    ∃ status st', Returns Flat.handle (RelCatalog.destroyRel · (chars "r")) t.storage
      (status, st') ∧ status ≠ .fileOpen := by
  obtain ⟨s₀, started, -, db₀, sound₀, free⟩ := Shell.exists_started
  have creates : s₀.Closes .bare noFailures (.create (chars "r") [⟨chars "a", 105 - 128⟩]) :=
    ⟨rfl, by decide, fun _ _ _ _ => id⟩
  obtain ⟨s, db, created, -, sound, empty, -, rows, others⟩ := Shell.exists_create .bare sound₀
    (free (chars "r") (by decide)) ⟨by decide, by decide, by decide⟩
      ⟨by decide, by decide, by decide⟩ creates
  have closes : s.Closes .bare noFailures (.query Shell.selectAll) :=
    ⟨rfl, by decide, fun _ _ _ _ => id⟩
  obtain ⟨-, t, -, -, step, returns⟩ := Shell.exists_select .bare sound empty rows
    ((others tmpResult (by decide)).2 (free tmpResult (by decide))) closes
  have reached : Reachable Shell.Started (Shell.Step Shell.Closes) s := .next (.initial started) created
  exact ⟨s, t, reached, empty.there, step, returns,
    statements_release (.next reached step) (chars "r") (by decide) (by decide)⟩

/-- A deletion names an attribute that the relation does not have: the file stays
open, and the relation cannot be destroyed. -/
theorem open_after_unknown_attribute :
    ∃ s t, Reachable Shell.Started (Shell.Step Shell.Anything) s ∧
    Shell.Step Shell.Anything s (.statement .bare noFailures (.delete (chars "r")
      (some (.select ⟨chars "r", chars "z"⟩ .eq ⟨.integer, chars "1"⟩)))) t ∧
    t.storage.openCnt (chars "r") = 1 ∧
    ∃ st', Returns Flat.handle (RelCatalog.destroyRel · (chars "r")) t.storage
      (.fileOpen, st') := by
  have any (s : Shell) (node : Node) : s.Anything .bare noFailures node := trivial
  obtain ⟨s₀, started, -, db₀, sound₀, free⟩ := Shell.exists_started
  obtain ⟨s, db, created, -, sound, table, unopened, rows, -⟩ :=
    Shell.exists_create .bare sound₀ (free (chars "r") (by decide))
    ⟨by decide, by decide, by decide⟩
      (show Shell.Usable (chars "a") from ⟨by decide, by decide, by decide⟩) (any _ _)
  have there : db.present (chars "r") = true := by
    rw [sound.real.directory.present, Option.isSome_iff_ne_none]
    exact table.there
  obtain ⟨scan, new, -⟩ := table.open (by decide)
  have opened := sound.leftOpen table.there
  have looked := AttrCatalog.getInfo_spec opened.real.catalogs (show 0 ∉ chars "r" by decide)
    (by decide)
    (show chars "z" ≠ [] by decide)
  rw [show (db.leaveOpen (chars "r")).rows (chars "r") = _ from rows] at looked
  have deleted : Returns Flat.handle
    (quDelete Environment.bare.atof · (chars "r") (chars "z") .eq .integer (chars "1")) s.storage
      (.attrNotFound, s.storage.opened (chars "r")) := .after new (.bind looked (.of_run rfl))
  have wellFormed : (Node.delete (chars "r")
    (some (.select ⟨chars "r", chars "z"⟩ .eq ⟨.integer, chars "1"⟩))).WellFormed :=
    show 0 ∉ chars "r" by decide
  obtain ⟨t, same, -, step⟩ := Shell.Step.of_returns wellFormed (any s _)
    (.bind (.bind deleted (.of_run rfl)) (.of_run rfl))
  obtain ⟨st', destroys, -⟩ := destroyRel_refines opened.real (show 0 ∉ chars "r" by decide)
  have counted : (db.leaveOpen (chars "r")).openCnt (chars "r") = 1 := by
    simp [Database.leaveOpen, unopened]
  have refused : ((db.leaveOpen (chars "r")).destroyRel (chars "r")).1 = .fileOpen := by
    have rows' : (db.leaveOpen (chars "r")).rows (chars "r") = _ := rows
    have outcome := (db.leaveOpen (chars "r")).destroyRel_cases (chars "r")
    generalize (db.leaveOpen (chars "r")).destroyRel (chars "r") = result at outcome
    cases outcome with
    | refused own => exact absurd own (by decide)
    | unknown none =>
      rw [rows'] at none
      cases none
    | stopped _ _ nameless =>
      rw [rows'] at nameless
      exact absurd nameless (by decide)
    | left _ _ _ _ cause =>
      rcases cause with ⟨rfl, -⟩ | ⟨-, absent⟩
      · rfl
      · rw [show (db.leaveOpen (chars "r")).present (chars "r") = true from there] at absent
        cases absent
    | destroyed _ _ _ unopened' =>
      rw [counted] at unopened'
      cases unopened'
  rw [refused, ← same] at destroys
  refine ⟨s, t, .next (.initial started) created, step, ?_, st', destroys⟩
  rw [same, ← opened.real.directory.openCnt]
  exact counted

end Minirel
