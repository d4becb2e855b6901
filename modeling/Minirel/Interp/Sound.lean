import Mathlib.Algebra.Order.BigOperators.Group.List
import Minirel.Catalog.Runs
import Minirel.Interp.Statements
import Minirel.Query.Effects
import Minirel.Query.Source

/-! The storage between statements: it realizes a database, and the files of the
relations are heap files. What the statements on the tuples of a relation do to
it, whatever they return. -/
namespace Minirel
open Program

structure Sizes (attrs : List AttrDesc) : Prop where
  distinct : (attrs.map AttrDesc.attrName).Nodup
  lengths : ∀ d ∈ attrs, 1 ≤ d.attrLen
  total : AttrDesc.total attrs ≤ pageSize

structure Sound (st : Flat) (db : Database) : Prop where
  real : Realizes st db
  sizes : ∀ relation, Sizes (db.rows relation)
  heaps : ∀ name, UserName name → st.files name ≠ none → ∃ records, Table st name id records
  opens : ∀ name, st.openCnt name ≠ 0 → st.files name ≠ none

def Database.leaveOpen (db : Database) (name : Name) : Database :=
  { db with openCnt := Function.update db.openCnt name (db.openCnt name + 1) }

section sizes
variable {attrs descs : List AttrDesc} {d : AttrDesc}

theorem Sizes.attrLen (sizes : Sizes attrs) (listed : d ∈ attrs) : 1 ≤ d.attrLen ∧
    d.attrLen ≤ pageSize := by
  refine ⟨sizes.lengths d listed, le_trans ?_ sizes.total⟩
  refine List.single_le_sum ?_ _ (List.mem_map_of_mem listed)
  refine List.forall_mem_map.mpr fun d listed => ?_
  have := sizes.lengths d listed
  omega

theorem int_total (lengths : ∀ d ∈ descs, 1 ≤ d.attrLen ∧ d.attrLen ≤ pageSize)
    (few : descs.length ≤ pageSize) :
    int (AttrDesc.total descs) = AttrDesc.total descs ∧
      (descs ≠ [] → 1 ≤ AttrDesc.total descs) := by
  obtain ⟨low, high⟩ := AttrDesc.total_bounds lengths
  simp only [pageSize] at few high
  refine ⟨Int.bmod_eq_of_le (by omega) (by omega), fun nonempty => ?_⟩
  have := List.length_pos_iff.mpr nonempty
  omega

theorem Sizes.few (sizes : Sizes attrs) : attrs.length ≤ pageSize := by
  have := (AttrDesc.total_bounds fun d => sizes.attrLen).1
  have := sizes.total
  omega

end sizes

variable {st st' : Flat} {db : Database} {name relation : Name} {fuel : Nat} {status : Status}

namespace Sound

theorem table (sound : Sound st db) (there : st.files name ≠ none) :
    ∃ records, Table st name id records := by
  by_cases user : UserName name
  · exact sound.heaps name user there
  · obtain ⟨⟨rels, relTable, _⟩, rows, attrTable, _⟩ := sound.real.catalogs
    rcases not_and_or.mp user with catalog | catalog
    · rw [not_not.mp catalog]
      exact ⟨_, relTable.raw⟩
    · rw [not_not.mp catalog]
      exact ⟨_, attrTable.raw⟩

theorem unopened (sound : Sound st db) (absent : st.files name = none) : st.openCnt name = 0 := by
  by_contra isOpen
  exact sound.opens name isOpen absent

theorem leftOpen (sound : Sound st db) (there : st.files name ≠ none) :
    Sound (st.opened name) (db.leaveOpen name) := by
  refine ⟨⟨sound.real.catalogs.congr rfl rfl, sound.real.directory.present, ?_,
    sound.real.directory.creatable⟩,
    sound.sizes, fun other user there => ?_, fun other isOpen => ?_⟩
  · simp only [Database.leaveOpen, sound.real.directory.openCnt]
    rfl
  · obtain ⟨records, table⟩ := sound.heaps other user there
    exact ⟨records, table.congr rfl⟩
  · by_cases same : other = name
    · rw [same]
      exact there
    · simp only [Flat.opened, Function.update_of_ne same] at isOpen
      exact sound.opens other isOpen

end Sound

theorem Rewritten.sound (rewritten : Rewritten name st st') (user : UserName name)
    (sound : Sound st db) : Sound st' db := by
  cases rewritten with
  | nothing => exact sound
  | @put g records there table =>
    have files (other : Name) (apart : other ≠ name) : (st.put name g).files other = st.files other :=
      Flat.files_put_of_ne g apart
    refine ⟨⟨sound.real.catalogs.congr (files _ user.1.symm) (files _ user.2.symm),
      sound.real.directory.put there⟩,
      sound.sizes, fun other user' there' => ?_, fun other isOpen => ?_⟩
    · by_cases same : other = name
      · exact ⟨records, same ▸ table⟩
      · rw [files other same] at there'
        obtain ⟨records', table'⟩ := sound.heaps other user' there'
        exact ⟨records', table'.congr (files other same)⟩
    · by_cases same : other = name
      · rw [same, Flat.files_put]
        exact Option.some_ne_none g
      · rw [files other same]
        exact sound.opens other isOpen

theorem Rewritten.there (rewritten : Rewritten name st st') (there : st.files name ≠ none) :
    st'.files name ≠ none := by
  cases rewritten with
  | nothing => exact there
  | put _ table => exact table.there

theorem HeapFileScan.new_absent (absent : st.files name = none) (unopened : st.openCnt name = 0)
    (named : name ≠ []) :
    Flat.run (HeapFileScan.new name) st = some (.error .unixErr, st) := by
  have object : Flat.run (HeapFile.new name) st = some (.error .unixErr, st) := by
    rw [HeapFile.new, Flat.run, run_bind_of _ _ (Flat.run_openFile_absent absent unopened named)]
    rfl
  rw [HeapFileScan.new, Flat.run, run_bind_of _ _ object]
  rfl

/-- Statements that begin by looking a relation and its attributes up. -/
theorem Sound.described {next : RelDesc → List AttrDesc → Prog Status} (sound : Sound st db)
    (terminated : 0 ∉ relation) (returned : Flat.run (do
      match ← RelCatalog.getInfo fuel relation with
      | .error status => return status
      | .ok rd =>
        match ← AttrCatalog.getRelInfo fuel rd.relName with
        | .error status => return status
        | .ok attrs => next rd attrs) st = some (status, st')) :
    st' = st ∨ ∃ rd, rd.relName = relation ∧ relation ≠ [] ∧ db.rows relation ≠ [] ∧
      Flat.run (next rd (db.rows relation)) st = some (status, st') := by
  obtain ⟨listed, st, looked, rest⟩ := run_bind_inv _ _ returned
  obtain ⟨rfl, known⟩ := RelCatalog.getInfo_found sound.real.catalogs terminated looked
  cases listed with
  | error =>
    cases rest
    exact .inl rfl
  | ok rd =>
    obtain ⟨named, same, -⟩ := known rd rfl
    obtain ⟨described, st, looked', rest'⟩ := run_bind_inv _ _ rest
    rw [same] at looked'
    obtain ⟨rfl, found⟩ := AttrCatalog.getRelInfo_found sound.real.catalogs terminated looked'
    cases described with
    | error =>
      cases rest'
      exact .inl rfl
    | ok attrs =>
      obtain ⟨rfl, some'⟩ := found attrs rfl
      exact .inr ⟨rd, same, named, some', rest'⟩

/-! Insertion. -/

section insert
variable {atof : Name → Nat} {memory : Memory} {totalLength : Int} {attrList : List AttrInfo}

theorem copyColumn_fits {attr : AttrDesc} {j : Nat} {pointer pointer' : Option (Nat → UInt8)}
    {output output' : List UInt8} (fits : output.length ≤ totalLength)
    (copied : copyColumn atof memory totalLength attr j attrList pointer output =
      some (pointer', output')) :
    output'.length ≤ totalLength := by
  induction attrList generalizing j pointer output with
  | nil =>
    cases copied
    exact fits
  | cons given attrList ih =>
    rw [copyColumn] at copied
    split at copied
    · split at copied
      · cases copied
      · split at copied
        next room =>
          refine ih ?_ copied
          simp only [List.length_append, fetch, List.length_map, List.length_range, Nat.cast_add]
          omega
        next => cases copied
    · exact ih fits copied

theorem copyColumns_fits {attrs : List AttrDesc} {pointer : Option (Nat → UInt8)}
    {output output' : List UInt8} (fits : output.length ≤ totalLength)
    (copied : copyColumns atof memory totalLength attrList attrs pointer output = some output') :
    output'.length ≤ totalLength := by
  induction attrs generalizing pointer output with
  | nil =>
    cases copied
    exact fits
  | cons attr attrs ih =>
    rw [copyColumns] at copied
    split at copied
    next => cases copied
    next column => exact ih (copyColumn_fits fits column) copied

theorem Memory.rest_length {output : List UInt8} (fits : output.length ≤ totalLength) :
    totalLength = (memory.rest totalLength output).length := by
  rw [Memory.rest, List.length_append, List.length_map, List.length_range]
  omega

theorem quInsert_run (sound : Sound st db) (terminated : 0 ∉ relation) (nonempty : attrList ≠ [])
    (returned : Flat.run (quInsert atof memory fuel relation attrList) st = some (status, st')) :
    Rewritten relation st st' := by
  obtain rfl | ⟨_, -, named, some', rest⟩ := sound.described terminated returned
  · exact .nothing
  simp only [insertValues] at rest
  split at rest
  · cases rest
  next enough =>
  split at rest
  next => cases rest
  next output copied =>
    have sizes := sound.sizes relation
    have taken : (db.rows relation).take attrList.length ≠ [] := by
      simp [nonempty, some']
    obtain ⟨whole, low⟩ := int_total (fun d member => sizes.attrLen (List.mem_of_mem_take member))
      ((List.length_take_le' _ _).trans sizes.few)
    have positive : 1 ≤ int (AttrDesc.total ((db.rows relation).take attrList.length)) :=
      whole.symm ▸ low taken
    have fits := copyColumns_fits (show (([] : List UInt8).length : Int) ≤ int (AttrDesc.total _) from
      Int.le_of_lt positive) copied
    by_cases there : st.files relation = none
    · rw [insertTuple, Flat.run,
        run_bind_of _ _ (InsertFileScan.new_absent there (sound.unopened there) named)] at rest
      cases rest
    · obtain ⟨records, table⟩ := sound.table there
      exact insertTuple_run (Memory.rest_length fits) positive table named rest

end insert

/-! Deletion. -/

/-- The file is left open if the attribute is not one of the relation. -/
theorem quDelete_run {atof : Name → Nat} {attrName : Name} {op : Operator} {type : Datatype}
    {text : Name} (sound : Sound st db) (terminated : 0 ∉ relation)
    (returned : Flat.run (quDelete atof fuel relation attrName op type text) st =
      some (status, st')) :
    (UserName relation ∧ Rewritten relation st st') ∨ st' = st ∨ UserName relation ∧
      st' = st.opened relation ∧ st.files relation ≠ none ∧ attrName ≠ [] ∧ ∀ d ∈ db.rows relation,
        d.attrName ≠ attrName := by
  simp only [quDeleteBy, monadLift_self] at returned
  split at returned
  · cases returned
    exact .inr (.inl rfl)
  next foreign =>
  obtain ⟨named, user⟩ := not_or.mp foreign
  have user : UserName relation := not_or.mp user
  by_cases there : st.files relation = none
  · rw [Flat.run, run_bind_of _ _
      (HeapFileScan.new_absent there (sound.unopened there) named)] at returned
    cases returned
    exact .inr (.inl rfl)
  · obtain ⟨records, table⟩ := sound.table there
    obtain ⟨s, new, fresh, cursor⟩ := table.open named
    rw [Flat.run, run_bind_of _ _ new] at returned
    simp only at returned
    split at returned
    · exact .inl ⟨user, deleteScan_run cursor fresh returned⟩
    next attrNamed =>
      obtain ⟨found, st₁, looked, rest⟩ := run_bind_inv _ _ returned
      have rep : Represents (st.opened relation) db.toCatalog := sound.real.catalogs.congr rfl rfl
      obtain ⟨same, known⟩ := AttrCatalog.getInfo_run rep terminated looked
      subst same
      cases found with
      | ok d => exact .inl ⟨user, deleteScan_run cursor fresh rest⟩
      | error status =>
        cases rest
        refine .inr (.inr ⟨user, rfl, there, attrNamed, fun d listed same => ?_⟩)
        have sought : ((db.rows relation).find? fun d => d.attrName = attrName).isSome := by
          rw [List.find?_isSome]
          exact ⟨d, listed, decide_eq_true same⟩
        obtain ⟨d', sought⟩ := Option.isSome_iff_exists.mp sought
        cases (known d').mpr ⟨named, attrNamed, sought⟩

/-! Loading. -/

/-- The file is left open if there are tuples that do not fit on a page. -/
theorem utLoad_run {unix : Name → Option (List UInt8)} {fileName : Name} (sound : Sound st db)
    (terminated : 0 ∉ relation)
    (returned : Flat.run (utLoad unix fuel relation fileName) st = some (status, st')) :
    (UserName relation ∧ Rewritten relation st st') ∨ st' = st ∨ UserName relation ∧
      ∃ mid, Rewritten relation st mid ∧ st' = mid.opened relation ∧ st.files relation ≠ none ∧
        1000 < AttrDesc.total (db.rows relation) ∧
      ∃ data, unix fileName = some data ∧ AttrDesc.total (db.rows relation) ≤ data.length := by
  rw [utLoad] at returned
  split at returned
  · cases returned
    exact .inr (.inl rfl)
  next foreign =>
  obtain ⟨named, -, user⟩ := (not_or.mp foreign).imp_right not_or.mp
  have user : UserName relation := not_or.mp user
  cases contents : unix fileName with
  | none =>
    rw [contents] at returned
    cases returned
    exact .inr (.inl rfl)
  | some data =>
    rw [contents] at returned
    obtain same | ⟨rd, name, -, some', rest'⟩ := sound.described terminated returned
    · exact .inr (.inl same)
    simp only [name, Flat.run] at rest'
    by_cases there : st.files relation = none
    · rw [run_bind_of _ _ (InsertFileScan.new_absent there (sound.unopened there) named)] at rest'
      cases rest'
      exact .inr (.inl rfl)
    obtain ⟨records, table⟩ := sound.table there
    obtain ⟨h, new, inserter⟩ := table.openInserter named
    obtain ⟨whole, low⟩ := int_total (fun d => (sound.sizes relation).attrLen)
      (sound.sizes relation).few
    have positive : 1 ≤ int ((db.rows relation).map AttrDesc.attrLen).sum := whole.symm ▸ low some'
    rw [run_bind_of _ _ new] at rest'
    simp only [not_lt.mpr (show 0 ≤ int ((db.rows relation).map AttrDesc.attrLen).sum by omega),
      if_false] at rest'
    obtain ⟨reply, mid, loop, last⟩ := run_bind_inv _ _ rest'
    obtain ⟨g, records', rfl, table', file, failed⟩ := loadLoop_run (by omega) inserter loop
    cases reply with
    | ok h' =>
      have isOpen : ((st.opened relation).put relation g).openCnt relation ≠ 0 := by simp
      rw [run_bind_of _ _ (InsertFileScan.delete_spec (file h' rfl) isOpen), Flat.closed_put,
        Flat.closed_opened] at last
      cases last
      exact .inl ⟨user, .put there (table'.congr rfl)⟩
    | error status =>
      obtain ⟨wide, enough⟩ := failed status rfl
      have total : int ((db.rows relation).map AttrDesc.attrLen).sum =
        AttrDesc.total (db.rows relation) := whole
      cases last
      refine .inr (.inr ⟨user, st.put relation g, .put there (table'.congr rfl), rfl, there, ?_,
        data, rfl, ?_⟩) <;> omega

/-! Printing. -/

theorem utPrint_run (sound : Sound st db) (terminated : 0 ∉ relation)
    (returned : Flat.run (utPrint fuel relation) st = some (status, st')) : st' = st := by
  rw [utPrint] at returned
  have terminated' : 0 ∉ (if relation = [] then relCatName else relation) := by
    split
    · decide
    · exact terminated
  simp only at returned
  generalize (if relation = [] then relCatName else relation) = relation at returned terminated'
  obtain same | ⟨rd, name, named, -, rest'⟩ := sound.described terminated' returned
  · exact same
  simp only [name, Flat.run] at rest'
  by_cases there : st.files relation = none
  · rw [run_bind_of _ _ (HeapFileScan.new_absent there (sound.unopened there) named)] at rest'
    cases rest'
    rfl
  obtain ⟨records, table⟩ := sound.table there
  obtain ⟨s, new, fresh, cursor⟩ := table.open named
  rw [run_bind_of _ _ new] at rest'
  simp only [Cursor.startScan_none fresh, ne_eq, not_true_eq_false, if_false] at rest'
  obtain ⟨printed, mid, loop, last⟩ := run_bind_inv _ _ rest'
  obtain ⟨t, returns, cursor'⟩ := printLoop_spec cursor
  cases (printLoop_steady s).unique loop returns
  obtain ⟨u, ended, closed⟩ := cursor'.end_delete
  rw [run_bind_of _ _ ended] at last
  simp only [not_true_eq_false, if_false] at last
  rw [run_bind_of _ _ closed] at last
  cases last
  rfl

/-- Printing opens the file, reads all records and closes it. -/
theorem utPrint_spec {records : List Entry} {n : Int} (sound : Sound st db)
    (terminated : 0 ∉ relation) (named : relation ≠ []) (listed : db.rel relation = some n)
    (described : db.rows relation ≠ []) (table : Table st relation id records) :
    Returns Flat.handle (utPrint · relation) st (.ok, st) := by
  have looked := RelCatalog.getInfo_spec sound.real.catalogs terminated named
  have looked' := AttrCatalog.getRelInfo_spec sound.real.catalogs terminated named
  rw [listed] at looked
  rw [if_neg described] at looked'
  obtain ⟨s, new, fresh, cursor⟩ := table.open named
  obtain ⟨t, loop, cursor'⟩ := printLoop_spec cursor
  obtain ⟨u, ended, closed⟩ := cursor'.end_delete
  simp only [utPrint, named, if_false]
  refine .bind looked (.bind looked' (.after new ?_))
  simp only [Cursor.startScan_none fresh, ne_eq, not_true_eq_false, if_false]
  exact .bind loop (.after ended (.after closed (.of_run rfl)))

theorem help_run (sound : Sound st db) (terminated : 0 ∉ relation)
    (returned : Flat.run (RelCatalog.help fuel relation) st = some (status, st')) : st' = st := by
  rw [RelCatalog.help] at returned
  split at returned
  · exact utPrint_run sound (by decide) returned
  obtain ⟨listed, st, looked, rest⟩ := run_bind_inv _ _ returned
  obtain ⟨rfl, -⟩ := RelCatalog.getInfo_found sound.real.catalogs terminated looked
  cases listed with
  | error =>
    cases rest
    rfl
  | ok rd =>
    obtain ⟨described, st, looked', rest'⟩ := run_bind_inv _ _ rest
    obtain ⟨rfl, -⟩ := AttrCatalog.getRelInfo_found sound.real.catalogs terminated looked'
    cases described <;> cases rest' <;> rfl

end Minirel
