import Minirel.Interp.Shell

/-! The temporary result relation: it is gone after every statement, unless a
column of it gets a name that is too long, or a relation of its name comes about
in another way. -/
namespace Minirel
open Program Transition Function

namespace Database
variable {db : Database} {relation : Name} {attrList : List AttrInfo}

structure Clean (db : Database) : Prop where
  unlisted : db.rel tmpResult = none
  absent : db.present tmpResult = false
  unopened : db.openCnt tmpResult = 0

theorem destroyRel_filed (db : Database) (relation : Name) :
    (db.destroyRel relation).2.openCnt = db.openCnt ∧
    ∀ name, (db.destroyRel relation).2.present name = true → db.present name = true := by
  have outcome := db.destroyRel_cases relation
  generalize db.destroyRel relation = result at outcome
  cases outcome with
  | refused | unknown | stopped | left => exact ⟨rfl, fun _ there => there⟩
  | destroyed =>
    refine ⟨rfl, fun name there => ?_⟩
    by_cases same : name = relation
    · simp [same] at there
    · simpa [same] using there

namespace Clean

theorem createRel (clean : db.Clean) (apart : relation ≠ tmpResult) :
    (db.createRel relation attrList).2.Clean := by
  have unlisted := (db.createRel_others attrList apart.symm).1.trans clean.unlisted
  obtain ⟨filed, -⟩ := db.createRel_filed relation attrList
  cases filed with
  | same present openCnt =>
    exact ⟨unlisted, by rw [present, clean.absent], by rw [openCnt, clean.unopened]⟩
  | leftOpen _ _ present openCnt =>
    exact ⟨unlisted, by rw [present, clean.absent],
      by rw [openCnt, update_of_ne apart.symm, clean.unopened]⟩
  | created present openCnt =>
    exact ⟨unlisted, by rw [present, update_of_ne apart.symm, clean.absent],
      by rw [openCnt, clean.unopened]⟩

theorem destroyRel (clean : db.Clean) : (db.destroyRel relation).2.Clean := by
  obtain ⟨openCnt, present⟩ := db.destroyRel_filed relation
  refine ⟨?_, Bool.eq_false_iff.mpr fun there => ?_, by rw [openCnt, clean.unopened]⟩
  · by_cases same : relation = tmpResult
    · subst same
      have none := db.described tmpResult clean.unlisted
      have outcome := db.destroyRel_cases tmpResult
      generalize db.destroyRel tmpResult = result at outcome
      cases outcome with
      | refused | unknown => exact clean.unlisted
      | stopped _ _ nameless =>
        rw [none] at nameless
        obtain ⟨_, member, _⟩ := nameless
        cases member
      | left _ _ described | destroyed _ described => exact absurd none described
    · exact (db.destroyRel_others (Ne.symm same)).1.trans clean.unlisted
  · have before := present tmpResult there
    rw [clean.absent] at before
    cases before

/-- With short names the relation is created, or nothing is entered. -/
theorem createResult (clean : db.Clean) (creatable : db.creatable tmpResult = true)
    (short : ∀ attr ∈ attrList, attr.Short) :
    (db.createRel tmpResult attrList).1 ≠ .ok ∧ (db.createRel tmpResult attrList).2 = db ∨
      (db.createRel tmpResult attrList).1 = .ok ∧ attrList ≠ [] ∧
        (db.createRel tmpResult attrList).2 =
          { db.entered tmpResult attrList with present := update db.present tmpResult true } := by
  have outcome := db.createRel_cases tmpResult attrList
  generalize db.createRel tmpResult attrList = result at outcome
  cases outcome with
  | refused refused =>
    refine .inl ⟨?_, rfl⟩
    rcases refusal_cases refused with rfl | rfl | ⟨rfl, -⟩ | ⟨rfl | rfl, -⟩ <;> exact nofun
  | stopped _ long => exact absurd short long
  | known _ _ known =>
    rw [clean.unopened, clean.absent] at known
    simp at known
  | uncreatable _ _ uncreatable =>
    rw [creatable] at uncreatable
    cases uncreatable
  | created accepted => exact .inr ⟨rfl, accepted.nonempty, rfl⟩

/-- Once it is created, the relation can be destroyed. -/
theorem of_destroyRel (described : db.rows tmpResult ≠ [])
    (named : ∀ d ∈ db.rows tmpResult, d.attrName ≠ [])
    (unopened : db.openCnt tmpResult = 0) (there : db.present tmpResult = true) :
    (db.destroyRel tmpResult).2.Clean := by
  have outcome := db.destroyRel_cases tmpResult
  generalize db.destroyRel tmpResult = result at outcome
  cases outcome with
  | refused own => exact absurd own (by decide)
  | unknown none => exact absurd none described
  | stopped _ _ nameless =>
    obtain ⟨d, member, empty⟩ := nameless
    exact absurd empty (named d member)
  | left _ _ _ _ cause =>
    rcases cause with ⟨-, isOpen⟩ | ⟨-, absent⟩
    · exact absurd unopened (Nat.pos_iff_ne_zero.mp isOpen)
    · rw [there] at absent
      cases absent
  | destroyed => exact ⟨by simp, by simp, unopened⟩

end Clean
end Database

/-- No call to the storage fails; the names of the columns fit into the catalog,
and UNIX lets the file be created; the name is not used for another relation, and
the catalogs are not written to by hand. -/
def Shell.KeepsResults : Condition := fun s _ failures node =>
  failures = noFailures ∧ match node with
    | .create relname _ => relname ≠ tmpResult
    | .insert relname _ => UserName relname
    | .query q => UserName q.target ∧ (q.target = tmpResult →
        s.storage.creatable tmpResult = true ∧ ∀ name ∈ q.columns s.counter, name.length < maxName)
    | _ => True

variable {s : Shell} {env : Environment} {node : Node} {db db' : Database}

theorem Created.short {query : QueryNode} {counter : Nat} {attrs : List AttrInfo}
    (created : Created query counter attrs)
    (columns : ∀ name ∈ query.columns counter, name.length < maxName) :
    ∀ attr ∈ attrs, attr.Short := by
  intro attr member
  refine columns attr.attrName ?_
  rw [← created.names]
  exact List.mem_map_of_mem member

theorem Effect.clean (effect : Effect env s.counter db node db') (sound : Sound s.storage db)
    (clean : db.Clean) (keeps : s.KeepsResults env noFailures node) : db'.Clean := by
  obtain ⟨-, keeps⟩ := keeps
  cases effect with
  | same => exact clean
  | @leftOpen _ relation leaves user there =>
    have apart : tmpResult ≠ relation := by
      rintro rfl
      rw [clean.absent] at there
      cases there
    exact ⟨clean.unlisted, clean.absent, by simp [Database.leaveOpen, apart, clean.unopened]⟩
  | create => exact clean.createRel keeps
  | destroy | dropped => exact clean.destroyRel
  | @result query attrs created stays =>
    by_cases target : query.target = tmpResult
    · obtain ⟨creatable, columns⟩ := keeps.2 target
      rw [← sound.real.directory.creatable] at creatable
      have failed := stays.resolve_left (not_not.mpr target)
      rw [target] at failed ⊢
      rcases clean.createResult creatable (created.short columns) with ⟨-, same⟩ | ⟨ok, -⟩
      · rw [same]
        exact clean
      · exact absurd ok failed
    · exact clean.createRel target
  | @printed query attrs created target ok =>
    obtain ⟨creatable, columns⟩ := keeps.2 target
    rw [← sound.real.directory.creatable] at creatable
    have short := created.short columns
    rcases clean.createResult creatable short with ⟨failed, -⟩ | ⟨-, nonempty, same⟩
    · exact absurd ok failed
    · rw [same]
      have rows : (describe tmpResult 0 (storable attrs)).map AttrDesc.attrName =
          attrs.map AttrInfo.attrName := by
        rw [describe_names, storable_of_short short]
      refine .of_destroyRel ?_ ?_ clean.unopened (by simp)
      · simp only [Database.entered, Database.rows_enter, update_self]
        intro none
        rw [none] at rows
        exact nonempty (List.map_eq_nil_iff.mp rows.symm)
      · simp only [Database.entered, Database.rows_enter, update_self]
        intro d member empty
        have listed : d.attrName ∈ attrs.map AttrInfo.attrName := rows ▸ List.mem_map_of_mem member
        obtain ⟨attr, member', same'⟩ := List.mem_map.mp listed
        exact created.named attr member' (same'.trans empty)

/-- A query that ends before its call. -/
theorem query_stopped {st st' : Flat} {query : QueryNode} {p : Plan} {status : Status}
    {counter counter' : Nat} (fits : namesFit query.target query = true)
    (planned : plan env.atof env.joinMethod query.target query = .ok p)
    (found : Returns Flat.handle (findResult · query.relname) st (.ok none, st))
    (prepared : Returns Flat.handle (prepareResult · query.target none p counter) st
      ((status, counter'), st'))
    (failed : status ≠ .ok) :
    Returns Flat.handle (interp env · counter (.query query)) st
      (([.error (.status status)], counter'), st') := by
  have performed : Returns Flat.handle
    (performQuery env.atof env.joinMethod · query.target none query counter) st
      ((.error (.status status), counter'), st') := by
    simp only [performQuery, planned, fits, Bool.true_eq_false, if_false]
    refine .bind prepared ?_
    cases status with
    | ok => exact absurd rfl failed
    | _ => exact .of_run rfl
  exact .bind (.bind found performed) (.of_run rfl)

/-- After any statements of this kind, in any processes, the catalogs have no row
for the temporary result relation, and a query without `INTO` is not refused. -/
theorem tmpResult_gone (reached : Reachable Shell.Started (Shell.Step Shell.KeepsResults) s) :
    ∃ db, Realizes s.storage db ∧ db.rel tmpResult = none ∧ db.rows tmpResult = [] ∧
      Returns Flat.handle (findResult · none) s.storage (.ok none, s.storage) := by
  have user : UserName tmpResult := by decide
  obtain ⟨db, sound, clean⟩ : s.Realized fun db _ => db.Clean := by
    refine reached |> Shell.invariant _ ?_ ?_ ?_ ?_
    · intro db vacant
      obtain ⟨unlisted, absent, unopened⟩ := vacant tmpResult user
      exact ⟨unlisted, absent, unopened⟩
    · exact fun db _ _ clean _ => ⟨clean.unlisted, clean.absent, db.launched_openCnt user⟩
    · rintro s env failures node ⟨reliable, keeps⟩
      refine ⟨reliable, fun name written => ?_⟩
      cases node with
      | query q =>
        cases written
        exact keeps.1
      | insert =>
        cases written
        exact keeps
      | _ => cases written
    · exact fun s env node db db' _ sound clean keeps effect _ => effect.clean sound clean keeps
  exact ⟨db, sound.real, clean.unlisted, db.described _ clean.unlisted,
    findResult_none sound.real.catalogs clean.unlisted⟩

/-- In a new database `r` is created, and `select r.a from r` makes and destroys
the result relation. -/
theorem tmpResult_gone_selected :
    ∃ s mid t, Reachable Shell.Started (Shell.Step Shell.KeepsResults) s ∧
    Returns Flat.handle (runQuery Environment.bare.atof Environment.bare.joinMethod ·
      Shell.selectAll 0) s.storage ((.ok .ok, 0), mid) ∧ mid.files tmpResult ≠ none ∧
    Shell.Step Shell.KeepsResults s (.statement .bare noFailures (.query Shell.selectAll)) t ∧
    ∃ db, Realizes t.storage db ∧ db.rel tmpResult = none ∧ db.rows tmpResult = [] ∧
      Returns Flat.handle (findResult · none) t.storage (.ok none, t.storage) := by
  obtain ⟨s₀, started, counter₀, db₀, sound₀, free⟩ := Shell.exists_started
  have creates : s₀.KeepsResults .bare noFailures (.create (chars "r") [⟨chars "a", 105 - 128⟩]) :=
    ⟨rfl, show chars "r" ≠ tmpResult by decide⟩
  obtain ⟨s, db, created, counter, sound, empty, -, rows, others⟩ := Shell.exists_create .bare sound₀
    (free (chars "r") (by decide)) ⟨by decide, by decide, by decide⟩
      ⟨by decide, by decide, by decide⟩ creates
  have freeTmp := (others tmpResult (by decide)).2 (free tmpResult (by decide))
  have keeps : s.KeepsResults .bare noFailures (.query Shell.selectAll) := by
    refine ⟨rfl, by decide, fun _ => ⟨?_, show ∀ name ∈ [chars "a"], name.length < maxName by decide⟩⟩
    rw [← sound.real.directory.creatable]
    exact freeTmp.creatable
  obtain ⟨mid, t, ran, there, step, -⟩ := Shell.exists_select .bare sound empty rows freeTmp keeps
  rw [counter, counter₀] at ran
  have reached : Reachable Shell.Started (Shell.Step Shell.KeepsResults) s :=
    .next (.initial started) created
  exact ⟨s, mid, t, reached, ran, there, step, tmpResult_gone (.next reached step)⟩

def longName : Name := chars "aaaaaaaaaaaaaaaaaaaaaaaaaaaaaaa"

/-- Two relations with the same column of 31 characters are joined: the second
column of the result gets a name that is too long, the row of the result relation
stays, and the next query is refused. -/
theorem tmpResult_left_by_join : ∃ s t, Reachable Shell.Started (Shell.Step Shell.Anything) s ∧
    Shell.Step Shell.Anything s
      (.statement .bare noFailures (.query ⟨none, [⟨chars "r", longName⟩, ⟨chars "s", longName⟩],
      some (.join ⟨chars "r", longName⟩ .eq ⟨chars "s", longName⟩)⟩)) t ∧
    (∃ db, Realizes t.storage db ∧ db.rel tmpResult = some 2) ∧
    Returns Flat.handle (findResult · none) t.storage (.error .tmpResExists, t.storage) := by
  obtain ⟨s₀, started, counter₀, db₀, sound₀, free⟩ := Shell.exists_started
  have any (s : Shell) (node : Node) : s.Anything .bare noFailures node := trivial
  have long : Shell.Usable longName := ⟨by decide, by decide, by decide⟩
  have freeR := free (chars "r") (by decide)
  obtain ⟨s₁, db₁, step₁, counter₁, sound₁, -, -, rowsR, others₁⟩ :=
    Shell.exists_create .bare sound₀ freeR ⟨by decide, by decide, by decide⟩ long (any _ _)
  have freeS := (others₁ (chars "s") (by decide)).2 (free (chars "s") (by decide))
  have freeTmp := (others₁ tmpResult (by decide)).2 (free tmpResult (by decide))
  obtain ⟨s, db, step₂, counter₂, sound, -, -, rowsS, others₂⟩ :=
    Shell.exists_create .bare sound₁ freeS ⟨by decide, by decide, by decide⟩ long (any _ _)
  have reached : Reachable Shell.Started (Shell.Step Shell.Anything) s :=
    .next (.next (.initial started) step₁) step₂
  have counter : s.counter = 0 := by rw [counter₂, counter₁, counter₀]
  have unlisted : db.rel tmpResult = none := ((others₂ tmpResult (by decide)).2 freeTmp).unlisted
  have rowsR' : db.rows (chars "r") = [⟨chars "r", longName, 0, 1, 4⟩] :=
    (others₂ _ (by decide)).1.trans rowsR
  -- the columns of the result
  let columns : List AttrInfo :=
    [⟨tmpResult, longName, 1, 4, none⟩, ⟨tmpResult, suffixed longName 0, 1, 4, none⟩]
  have lookedR := AttrCatalog.getInfo_spec sound.real.catalogs (show 0 ∉ chars "r" by decide)
    (by decide) long.named
  have lookedS := AttrCatalog.getInfo_spec sound.real.catalogs (show 0 ∉ chars "s" by decide)
    (by decide) long.named
  rw [rowsR'] at lookedR
  rw [rowsS] at lookedS
  let query : QueryNode := ⟨none, [⟨chars "r", longName⟩, ⟨chars "s", longName⟩],
    some (.join ⟨chars "r", longName⟩ .eq ⟨chars "s", longName⟩)⟩
  obtain ⟨p, planned, list, renamed⟩ :
    ∃ p, plan Environment.bare.atof Environment.bare.joinMethod query.target query = .ok p ∧
      p.attrList = query.attrlist.map QualAttr.info ∧ p.rename = true := ⟨_, rfl, rfl, rfl⟩
  have created : Returns Flat.handle (createAttrs · query.target p.rename [] s.counter p.attrList)
    s.storage
      ((.ok columns, 1), s.storage) := by
    rw [list, renamed, counter]
    exact .bind lookedR (.bind (.bind lookedS (.of_run rfl)) (.of_run rfl))
  -- the relation is entered before the second name is found to be too long
  have accepted : db.Acceptable tmpResult columns :=
    ⟨by decide, by decide, by decide, unlisted, by decide, by decide⟩
  have stopped : db.createRel tmpResult columns = (.nameTooLong, db.entered tmpResult columns) := by
    simp only [Database.createRel, Database.refusal_eq_none.mpr accepted]
    exact if_neg (by decide)
  obtain ⟨st', creates, real⟩ := createRel_refines sound.real (show 0 ∉ tmpResult by decide)
    (show ∀ attr ∈ columns, 0 ∉ attr.attrName by decide)
  rw [stopped] at creates real
  have statement := query_stopped (by decide) planned (findResult_none sound.real.catalogs unlisted)
    (.bind created (.bind creates (.of_run rfl))) (show Status.nameTooLong ≠ .ok by decide)
  have wellFormed : (Node.query query).WellFormed := ⟨by rintro _ ⟨⟩, by decide, by decide, by
    rintro _ ⟨⟩
    exact ⟨by decide, by decide⟩⟩
  obtain ⟨t, rfl, -, step⟩ := Shell.Step.of_returns wellFormed (any _ _) statement
  have listed : (db.entered tmpResult columns).rel tmpResult = some 2 := by
    rw [Database.entered, Database.rel_enter, update_self]
    exact congrArg some (show int (2 : Nat) = 2 by decide)
  have refused := RelCatalog.getInfo_spec real.catalogs (show 0 ∉ tmpResult by decide) (by decide)
  rw [listed] at refused
  exact ⟨s, t, reached, step, ⟨_, real, listed⟩, .bind refused (.of_run rfl)⟩

end Minirel
