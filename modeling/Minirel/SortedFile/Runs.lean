import Minirel.SortedFile.Merge

/-! Run generation. `generateRun` destroys the file that it has just created and
then opens an `InsertFileScan` on it, which does not create files: no run is ever
written, and only an empty file can be sorted. -/
namespace Minirel
open Program

namespace SortedFile
variable {st : Flat} {hfs : HeapFileScan} {name fileName : Name} {records todo : List Entry}
    {offset length : Int}
  {type : Datatype} {qsort : (SortRec → SortRec → Option Int) → List SortRec → List SortRec}
  {maxItems : Nat}

def sortRec (offset length : Int) (e : Entry) : SortRec :=
  ⟨e.1, (e.2.drop offset.toNat).take length.toNat, length⟩

theorem sortField_eq {rec : List UInt8} (inside : (sortField offset length rec).isSome) :
    sortField offset length rec = some ((rec.drop offset.toNat).take length.toNat) := by
  unfold sortField at inside ⊢
  split
  · rfl
  · rename_i outside
    simp [outside] at inside

/-- The buffer takes the next records, up to its size. -/
theorem fillBuffer_spec (offset length : Int) (items : Nat)
    (cursor : Cursor hfs st name id records todo)
    (inside : ∀ e ∈ todo, (sortField offset length e.2).isSome) :
    ∃ hfs', Returns Flat.handle (fillBuffer · offset length items hfs) st
        ((.ok ((todo.take items).map (sortRec offset length)), hfs'), st) ∧
      Cursor hfs' st name id records (todo.drop items) := by
  induction items generalizing hfs todo with
  | zero => exact ⟨hfs, .of_run rfl, cursor⟩
  | succ items ih =>
    cases todo with
    | nil =>
      obtain ⟨hfs', scan, cursor'⟩ := cursor.eof
      exact ⟨hfs', .bind scan (.of_run rfl), cursor'⟩
    | cons e todo =>
      rw [List.forall_mem_cons] at inside
      obtain ⟨hfs', scan, on⟩ := cursor.next
      obtain ⟨hfs'', rest, cursor''⟩ := ih on.cursor inside.2
      refine ⟨hfs'', .bind scan (.after on.getRecord ?_), cursor''⟩
      simp only [id, sortField_eq inside.1, on.curRec]
      exact .bind rest (.of_run rfl)

theorem runName_ne_nil (fileName : Name) (number : Nat) : runName fileName number ≠ [] := by
  simp [runName]

theorem insertFileScan_destroyed (st : Flat) (unopened : st.openCnt name = 0) (named : name ≠ []) :
    Flat.run (InsertFileScan.new name) { st with files := Function.update st.files name none } =
      some (.error .unixErr, { st with files := Function.update st.files name none }) := by
  exact InsertFileScan.new_absent (Function.update_self ..) unopened named

/-- No run is written, whatever there is. -/
theorem generateRun_fails (number : Nat) (buffer : List SortRec) (st : Flat) :
    ∃ status st', Flat.run (generateRun qsort fileName type number buffer) st = some (status, st') ∧
      status ≠ .ok := by
  have named := runName_ne_nil fileName number
  unfold generateRun
  by_cases known : 0 < st.openCnt (runName fileName number) ∨ st.files (runName fileName number) ≠ none
  · refine ⟨.fileExists, st, ?_, by decide⟩
    rw [Flat.run, run_bind_of _ _ (Flat.run_createFile_known known named)]
    rfl
  obtain ⟨unopened, absent⟩ := not_or.mp known
  replace unopened : st.openCnt (runName fileName number) = 0 := by omega
  replace absent := not_not.mp absent
  cases creatable : st.creatable (runName fileName number) with
  | false =>
    refine ⟨.unixErr, st, ?_, by decide⟩
    rw [Flat.run, run_bind_of _ _ (Flat.run_createFile_refused absent unopened named creatable)]
    rfl
  | true =>
    rw [Flat.run, run_bind_of _ _ (Flat.run_createFile absent unopened named creatable)]
    simp only [ne_eq, not_true_eq_false, if_false]
    rw [run_bind_of _ _ (Flat.run_destroyFile (Flat.files_put ..) unopened named)]
    simp only [not_true_eq_false, if_false]
    rw [run_bind_of _ _ (insertFileScan_destroyed (st.put (runName fileName number) st.emptyFile)
      unopened named)]
    exact ⟨.unixErr, _, rfl, by decide⟩

/-- With a record in the file no object is made. -/
theorem sortFile_fails (table : Table st fileName id records) (named : fileName ≠ [])
    (inside : ∀ e ∈ records, (sortField offset length e.2).isSome) (some : records ≠ [])
    (room : 0 < maxItems) :
    ∃ status st', Returns Flat.handle (sortFile qsort · fileName offset length type maxItems) st
      (.error status, st') := by
  obtain ⟨hfs, new, fresh, cursor⟩ := table.open named
  obtain ⟨hfs', fill, _⟩ := fillBuffer_spec offset length maxItems cursor inside
  obtain ⟨e, rest, rfl⟩ := List.exists_cons_of_ne_nil some
  obtain ⟨items, rfl⟩ : ∃ items, maxItems = items + 1 := ⟨maxItems - 1, by omega⟩
  obtain ⟨status, st', run, bad⟩ := @generateRun_fails fileName type qsort 1
    (((e :: rest).take (items + 1)).map (sortRec offset length)) (st.opened fileName)
  have loop : Returns Flat.handle
    (generateRuns qsort fileName type offset length (items + 1) · 0 hfs) (st.opened fileName)
      ((.error status, hfs'), st') := by
    refine .round (.bind fill (.after run ?_)) fun fuel => rfl
    simp only [ne_eq, bad, not_false_eq_true, if_true]
    exact .of_run rfl
  refine ⟨status, st', .after new ?_⟩
  simp only [Cursor.startScan_none fresh, ne_eq, not_true_eq_false, if_false]
  exact .bind loop (.of_run rfl)

theorem sortFile_empty (table : Table st fileName id []) (named : fileName ≠ []) :
    Returns Flat.handle (sortFile qsort · fileName offset length type maxItems) st
      (.ok [], st) := by
  obtain ⟨hfs, new, fresh, cursor⟩ := table.open named
  obtain ⟨hfs', fill, cursor'⟩ := fillBuffer_spec offset length maxItems cursor (by simp)
  rw [List.take_nil] at fill
  have loop : Returns Flat.handle (generateRuns qsort fileName type offset length maxItems · 0 hfs)
    (st.opened fileName)
      ((.ok 0, hfs'), st.opened fileName) := .round (.bind fill (.of_run rfl)) fun fuel => rfl
  refine .after new ?_
  simp only [Cursor.startScan_none fresh, ne_eq, not_true_eq_false, if_false]
  exact .bind loop (.after cursor'.delete (.of_run rfl))

/-- The constructor succeeds, and the records of the source file are distributed
over as many runs as they need, each sorted and not too long. -/
def Partitions (qsort : (SortRec → SortRec → Option Int) → List SortRec → List SortRec)
    (fileName : Name) (offset length : Int) (type : Datatype) (maxItems : Int)
    (records : List Entry) (st : Flat) : Prop :=
  ∃ sf st', Returns Flat.handle (new qsort · fileName offset length type maxItems) st (.ok sf, st') ∧
    sf.runs.length = (records.length + maxItems.toNat - 1) / maxItems.toNat ∧
    ∃ parts : List (List Entry), List.Forall₂ (fun run part => Table st' run.name id part) sf.runs
      parts ∧
      (∀ part ∈ parts, part.length ≤ maxItems.toNat ∧ part.Pairwise fun e e' =>
        sf.NotGreater e.2 e'.2) ∧
      (parts.flatten.map Prod.snd).Perm (records.map Prod.snd)

theorem new_of_sortFile {maxItems : Int} {r : Except Status (List Run)} {st' : Flat}
    (parameters : accepted offset length type = true) (room : 2 ≤ maxItems)
    (sorted : Returns Flat.handle (sortFile qsort · fileName offset length type maxItems.toNat) st
      (r, st')) :
    Returns Flat.handle (new qsort · fileName offset length type maxItems) st
      (r.map fun runs => ⟨runs, type, offset, length⟩, st') := by
  have large : ¬maxItems < 2 := by omega
  simp only [new, parameters, Bool.true_eq_false, if_false, large]
  refine .bind sorted ?_
  cases r with
  | error status => exact .of_run rfl
  | ok runs => exact .of_run rfl

theorem not_partitions {maxItems : Int} (table : Table st fileName id records)
    (named : fileName ≠ []) (parameters : accepted offset length type = true)
    (inside : ∀ e ∈ records, (sortField offset length e.2).isSome) (room : 2 ≤ maxItems)
    (some : records ≠ []) :
    ¬Partitions qsort fileName offset length type maxItems records st := by
  rintro ⟨sf, st', returns, _⟩
  have positive : 0 < maxItems.toNat := by omega
  obtain ⟨status, st'', fails⟩ := sortFile_fails table named inside some positive
  cases returns.unique (new_of_sortFile parameters room fails)

/-- That is so for an empty file and for no other, whatever files there are. -/
theorem partitions_iff (qsort : (SortRec → SortRec → Option Int) → List SortRec → List SortRec)
    {maxItems : Int} (table : Table st fileName id records) (named : fileName ≠ [])
    (parameters : accepted offset length type = true)
    (inside : ∀ e ∈ records, (sortField offset length e.2).isSome) (room : 2 ≤ maxItems) :
    Partitions qsort fileName offset length type maxItems records st ↔ records = [] := by
  constructor
  · intro partitions
    by_contra some
    exact not_partitions table named parameters inside room some partitions
  · rintro rfl
    refine ⟨⟨[], type, offset, length⟩, st,
      new_of_sortFile parameters room (sortFile_empty table named), ?_, [], .nil, by simp, by simp⟩
    refine (Nat.div_eq_of_lt ?_).symm
    rw [List.length_nil]
    omega

/-- A file without records has no runs. -/
theorem partitions_iff_empty :
    ∃ st, Partitions (fun _ buffer => buffer) (chars "a") 0 1 .string 2 [] st :=
  ⟨_, (partitions_iff _ (newFile_table .empty (chars "a")) (by decide) rfl (by simp)
    (by decide)).mpr rfl⟩

/-- A file of one record, without any other file. -/
theorem single_record_not_sorted : ∃ st rid, Table st (chars "a") id [(rid, [7])] ∧
    (∀ k, st.files (runName (chars "a") k) = none) ∧
    ∀ qsort, ¬Partitions qsort (chars "a") 0 1 .string 2 [(rid, [7])] st := by
  obtain ⟨f, rid, table⟩ := exists_single_table .empty (chars "a") [7] (by decide) (by decide)
    (by decide)
  refine ⟨_, rid, table, fun k => ?_, fun qsort => ?_⟩
  · refine Flat.files_put_of_ne f fun same => ?_
    have longer := congrArg List.length same
    simp [runName] at longer
  · exact not_partitions table (by decide) rfl (by simp [sortField]) (by decide) (by simp)

end SortedFile
end Minirel
