import Minirel.HeapFile.Calls
import Minirel.HeapFile.Length
import Minirel.Insert
import Minirel.Query.Delete
import Minirel.Utility

/-! What queries and utilities do to the files, whatever they return: one file is
written and stays a heap file. Nothing is assumed of the files that are only
read, which may be the same one. -/
namespace Minirel
open Program

variable {st st' : Flat} {name result : Name} {h h' : HeapFile} {s s' : HeapFileScan}
    {records : List Entry}
  {fuel : Nat} {status : Status} {reclen : Int} {descs : List AttrDesc}

/-- Only the contents of this file change, if it is there. -/
inductive Rewritten (name : Name) (st : Flat) : Flat → Prop
  | nothing : Rewritten name st st
  | put {g : FlatFile} {records : List Entry} (there : st.files name ≠ none)
      (table : Table (st.put name g) name id records) : Rewritten name st (st.put name g)

theorem Table.there (table : Table st name id records) : st.files name ≠ none := by
  obtain ⟨f, _, _, there, _⟩ := table
  simp [there]

/-! Insertion. -/

/-- A record of any length but 0. -/
theorem Inserter.attempt {data : List UInt8} {n : Int} {reply : Except Status RID}
    (inserter : Inserter h st name records) (length : n = data.length) (low : 1 ≤ n)
    (returned : Flat.run (InsertFileScan.insertRecord h ⟨data, n⟩) st = some ((reply, h'), st')) :
    h'.filePtr = name ∧ ∃ g records', st' = st.put name g ∧ Table st' name id records' ∧
      (n ≤ 1000 → ∃ rid, reply = .ok rid) ∧ ∀ rid, reply = .ok rid →
        Inserter h' st' name records' := by
  obtain ⟨f, hdr, chain, there, heap, list, opened⟩ := id inserter
  by_cases small : n ≤ 1000
  · have same : (⟨data, n⟩ : Record) = .ofBytes data := by rw [Record.ofBytes, length]
    obtain ⟨rid, h₁, g, front, back, insert, -, inserter'⟩ :=
      inserter.insert (show 0 < data.length by omega) (by omega)
    rw [same, insert] at returned
    cases returned
    exact ⟨inserter'.file, g, _, rfl, inserter'.table, fun _ => ⟨rid, rfl⟩, fun _ _ => inserter'⟩
  · by_cases large : 1004 < n
    · rw [InsertFileScan.insertRecord_invalid (.inr large)] at returned
      cases returned
      exact ⟨inserter.file, f, records, (Flat.put_self there).symm, inserter.table, fun small' =>
        absurd small' small, fun _ inserted => by cases inserted⟩
    · obtain ⟨p, pre, rfl⟩ := heap.last_page
      obtain ⟨h₁, g, insert, file, linked⟩ :=
        InsertFileScan.insertRecord_noSpace ⟨data, n⟩ heap there opened
        (show 1000 < n by omega) (show n ≤ 1004 by omega)
      rw [insert] at returned
      cases returned
      obtain ⟨hdr', chain', heap', same⟩ := linked.heap heap
      refine ⟨file, g, records, rfl, ⟨g, hdr', chain', Flat.files_put .., heap', ?_⟩, fun small' =>
        absurd small' small, fun _ inserted => by cases inserted⟩
      rw [same, list]
      simp [stored]

/-- An output record is as long as the attributes it is made of. -/
theorem copyAttrs_run {source : AttrDesc → List UInt8} {given : List (Option AttrDesc)}
    {data : List UInt8} (returned : Flat.run (copyAttrs source given) st = some (data, st')) :
    st' = st ∧ ∃ descs, given = descs.map some ∧ (data.length : Int) = AttrDesc.total descs := by
  induction given generalizing data st' with
  | nil =>
    cases returned
    exact ⟨rfl, [], rfl, rfl⟩
  | cons desc given ih =>
    cases desc with
    | none => cases returned
    | some d =>
      rw [copyAttrs] at returned
      split at returned
      next inside =>
        obtain ⟨rest, mid, copied, last⟩ := run_bind_inv _ _ returned
        obtain ⟨rfl, descs, rfl, length⟩ := ih copied
        cases last
        refine ⟨rfl, d :: descs, rfl, ?_⟩
        have first := AttrDesc.field_length inside
        simp only [List.length_append, Nat.cast_add, AttrDesc.total, List.map_cons,
          List.sum_cons] at length ⊢
        omega
      next => cases returned

/-- The length that is passed with an output record is that of its attributes. -/
def Measures (given : List (Option AttrDesc)) (reclen : Int) : Prop :=
  ∀ descs, given = descs.map some → reclen = AttrDesc.total descs ∧ 1 ≤ reclen

theorem Inserter.output {given : List (Option AttrDesc)} {source : AttrDesc → List UInt8}
    {data : List UInt8} {reply : Except Status RID} (inserter : Inserter h st name records)
    (measures : Measures given reclen)
    (copied : Flat.run (copyAttrs source given) st = some (data, st))
    (returned : Flat.run (InsertFileScan.insertRecord h ⟨data, reclen⟩) st =
      some ((reply, h'), st')) :
    h'.filePtr = name ∧ ∃ g records', st' = st.put name g ∧ Table st' name id records' ∧
      ∀ rid, reply = .ok rid → Inserter h' st' name records' := by
  obtain ⟨-, descs, rfl, length⟩ := copyAttrs_run copied
  obtain ⟨total, low⟩ := measures descs rfl
  obtain ⟨file, g, records', same, table, -, more⟩ :=
    inserter.attempt (total.trans length.symm) low returned
  exact ⟨file, g, records', same, table, more⟩

/-! Selection. -/

theorem selectLoop_run {given : List (Option AttrDesc)} (measures : Measures given reclen)
    (inserter : Inserter h st result records)
    (returned : Flat.run (selectLoop given reclen fuel s h) st = some ((status, s', h'), st')) :
    s'.filePtr = s.filePtr ∧ h'.filePtr = result ∧ ∃ g records', st' = st.put result g ∧
      Table st' result id records' := by
  induction fuel generalizing st s h records with
  | zero => cases returned
  | succ fuel ih =>
    obtain ⟨f, _, _, there, _⟩ := id inserter
    have unchanged : ∃ g records', st = st.put result g ∧ Table st result id records' :=
      ⟨f, records, (Flat.put_self there).symm, inserter.table⟩
    obtain ⟨⟨next, t⟩, mid, scanned, rest⟩ := run_bind_inv _ _ returned
    obtain ⟨file, rfl⟩ := HeapFileScan.scanNext_run scanned
    simp only at rest
    split at rest
    next =>
      cases rest
      exact ⟨file, inserter.file, unchanged⟩
    next =>
      obtain ⟨found, mid, got, rest⟩ := run_bind_inv _ _ rest
      cases HeapFileScan.getRecord_run got
      cases found with
      | error =>
        cases rest
        exact ⟨file, inserter.file, unchanged⟩
      | ok rec =>
        obtain ⟨data, mid, copied, rest⟩ := run_bind_inv _ _ rest
        cases (copyAttrs_run copied).1
        obtain ⟨⟨reply, h₁⟩, mid, inserted, rest⟩ := run_bind_inv _ _ rest
        obtain ⟨own, g, records', rfl, table, more⟩ := inserter.output measures copied inserted
        cases reply with
        | error =>
          cases rest
          exact ⟨file, own, g, records', rfl, table⟩
        | ok rid =>
          obtain ⟨file', own', g', records'', rfl, table'⟩ := ih (more rid rfl) rest
          rw [Flat.put_put] at table' ⊢
          exact ⟨file'.trans file, own', g', records'', rfl, table'⟩

theorem close_both {source : Name} {g : FlatFile} (file : s.filePtr = source)
    (own : h.filePtr = result) (returned : Flat.run (do
      s.delete
      InsertFileScan.delete h
      return status) (((st.opened result).opened source).put result g) = some (reply, st')) :
    st' = st.put result g := by
  have isOpen : (((st.opened result).opened source).put result g).openCnt source ≠ 0 := by simp
  rw [Flat.run, run_bind_of _ _ (HeapFileScan.delete_spec file isOpen), Flat.closed_put,
    Flat.closed_opened] at returned
  have isOpen' : ((st.opened result).put result g).openCnt result ≠ 0 := by simp
  rw [run_bind_of _ _ (InsertFileScan.delete_spec own isOpen'), Flat.closed_put,
    Flat.closed_opened] at returned
  cases returned
  rfl

theorem scanSelect_run {given : List (Option AttrDesc)} {filter : Option Filter}
    (measures : Measures given reclen) (table : Table st result id records) (named : result ≠ [])
    (returned : Flat.run (scanSelect fuel result given filter reclen) st = some (status, st')) :
    Rewritten result st st' := by
  obtain ⟨h, new, inserter⟩ := table.openInserter named
  simp only [scanSelectBy, monadLift_self] at returned
  rw [Flat.run, run_bind_of _ _ new] at returned
  rcases given with _ | ⟨_ | first, descs⟩
  · cases returned
  · cases returned
  · obtain ⟨found, mid, opened, scan⟩ := run_bind_inv _ _ returned
    rcases HeapFileScan.new_run opened with ⟨⟨status, rfl⟩, rfl⟩ | ⟨s, rfl, file, rfl⟩
    · cases scan
    · have file' := (s.startScan_file filter).trans file
      have inserter' : Inserter h ((st.opened result).opened first.relName) result records :=
        inserter.congr rfl
      simp only at scan
      split at scan
      · obtain ⟨f, _, _, there, _⟩ := id inserter'
        have there' : st.files result = some f := there
        rw [← Flat.put_self there] at scan
        rw [close_both file' inserter.file scan, Flat.put_self there']
        exact .nothing
      · obtain ⟨⟨status', s', h'⟩, mid, loop, rest⟩ := run_bind_inv _ _ scan
        obtain ⟨last, own, g, records', rfl, table'⟩ := selectLoop_run measures inserter' loop
        rw [close_both (last.trans file') own rest]
        exact .put table.there (table'.congr rfl)

/-! Joins. -/

theorem innerLoop_run {outer : Name} {outerRec : List UInt8}
    (measures : Measures (descs.map some) reclen) (inserter : Inserter h st result records)
    (returned : Flat.run (innerLoop descs reclen outer outerRec fuel s h) st =
      some ((s', h'), st')) :
    s'.filePtr = s.filePtr ∧ ∃ g records', st' = st.put result g ∧
      Inserter h' st' result records' := by
  induction fuel generalizing st s h records with
  | zero => cases returned
  | succ fuel ih =>
    obtain ⟨⟨next, t⟩, mid, scanned, rest⟩ := run_bind_inv _ _ returned
    obtain ⟨file, rfl⟩ := HeapFileScan.scanNext_run scanned
    simp only at rest
    split at rest
    next =>
      obtain ⟨f, _, _, there, _⟩ := id inserter
      cases rest
      exact ⟨file, f, records, (Flat.put_self there).symm, inserter⟩
    next =>
      obtain ⟨found, mid, got, rest⟩ := run_bind_inv _ _ rest
      cases HeapFileScan.getRecord_run got
      cases found with
      | error => cases rest
      | ok rec =>
        obtain ⟨data, mid, copied, rest⟩ := run_bind_inv _ _ rest
        cases (copyAttrs_run copied).1
        obtain ⟨⟨reply, h₁⟩, mid, inserted, rest⟩ := run_bind_inv _ _ rest
        obtain ⟨-, g, records', rfl, -, more⟩ := inserter.output measures copied inserted
        cases reply with
        | error => cases rest
        | ok rid =>
          obtain ⟨file', g', records'', rfl, inserter'⟩ := ih (more rid rfl) rest
          rw [Flat.put_put] at inserter' ⊢
          exact ⟨file'.trans file, g', records'', rfl, inserter'⟩

theorem startInner_file (attrDesc1 attrDesc2 : AttrDesc) (myop : Operator) (outerRec : List UInt8)
    (s : HeapFileScan) :
    (startInner attrDesc1 attrDesc2 myop outerRec s).2.filePtr = s.filePtr := by
  unfold startInner
  cases datatypeOf? attrDesc2.attrType with
  | none => rfl
  | some type => exact s.startScan_file _

theorem outerLoop_run {attrDesc1 attrDesc2 : AttrDesc} {myop : Operator}
    (measures : Measures (descs.map some) reclen) (inserter : Inserter h st result records)
    (returned : Flat.run (outerLoop descs reclen attrDesc1 attrDesc2 myop fuel s h) st =
      some ((status, s', h'), st')) :
    s'.filePtr = s.filePtr ∧ ∃ g records', st' = st.put result g ∧
      Inserter h' st' result records' := by
  induction fuel generalizing st s h records with
  | zero => cases returned
  | succ fuel ih =>
    obtain ⟨f, _, _, there, _⟩ := id inserter
    have unchanged : ∃ g records', st = st.put result g ∧ Inserter h st result records' :=
      ⟨f, records, (Flat.put_self there).symm, inserter⟩
    obtain ⟨⟨next, t⟩, mid, scanned, rest⟩ := run_bind_inv _ _ returned
    obtain ⟨file, rfl⟩ := HeapFileScan.scanNext_run scanned
    simp only at rest
    split at rest
    next =>
      cases rest
      exact ⟨file, unchanged⟩
    next =>
      obtain ⟨found, mid, got, rest⟩ := run_bind_inv _ _ rest
      cases HeapFileScan.getRecord_run got
      cases found with
      | error => cases rest
      | ok outerRec =>
        obtain ⟨made, mid', opened, scan⟩ := run_bind_inv _ _ rest
        rcases HeapFileScan.new_run opened with ⟨⟨_, rfl⟩, rfl⟩ | ⟨inner, rfl, innerFile, rfl⟩
        · cases scan
        have innerFile' := (startInner_file attrDesc1 attrDesc2 myop outerRec inner).trans innerFile
        have isOpen : (mid.opened attrDesc2.relName).openCnt attrDesc2.relName ≠ 0 := by simp
        simp only [monadLift_self] at scan
        split at scan
        next =>
          rw [run_bind_of _ _ (HeapFileScan.delete_spec innerFile' isOpen), Flat.closed_opened] at scan
          cases scan
          exact ⟨file, unchanged⟩
        next =>
          obtain ⟨⟨inner', h₁⟩, mid', loop, last⟩ := run_bind_inv _ _ scan
          have opened' : Inserter h (mid.opened attrDesc2.relName) result records := inserter.congr rfl
          obtain ⟨same, g, records', rfl, inserter'⟩ := innerLoop_run measures opened' loop
          rw [run_bind_of _ _ (HeapFileScan.delete_spec (same.trans innerFile') (by simp)),
            Flat.closed_put, Flat.closed_opened] at last
          have closed : Inserter h₁ (mid.put result g) result records' := inserter'.congr rfl
          obtain ⟨file', g', records'', rfl, inserter''⟩ := ih closed last
          rw [Flat.put_put] at inserter'' ⊢
          exact ⟨file'.trans file, g', records'', rfl, inserter''⟩

theorem joinScan_run {attrDesc1 attrDesc2 : AttrDesc} {op : Operator}
    (measures : Measures (descs.map some) (int (descs.map AttrDesc.attrLen).sum))
    (table : Table st result id records)
    (named : result ≠ [])
    (returned : Flat.run (joinScan fuel result descs attrDesc1 op attrDesc2) st =
      some (status, st')) :
    Rewritten result st st' := by
  obtain ⟨h, new, inserter⟩ := table.openInserter named
  simp only [joinScanBy, monadLift_self] at returned
  rw [Flat.run, run_bind_of _ _ new] at returned
  obtain ⟨found, mid, opened, rest⟩ := run_bind_inv _ _ returned
  rcases HeapFileScan.new_run opened with ⟨⟨_, rfl⟩, rfl⟩ | ⟨s, rfl, file, rfl⟩
  · cases rest
  · obtain ⟨⟨status', s', h'⟩, mid, loop, rest⟩ := run_bind_inv _ _ rest
    have inserter' : Inserter h ((st.opened result).opened attrDesc1.relName) result records :=
      inserter.congr rfl
    obtain ⟨last, g, records', rfl, inserter''⟩ := outerLoop_run measures inserter' loop
    rw [close_both (last.trans file) inserter''.file rest]
    exact .put table.there (inserter''.table.congr rfl)

/-! Single tuples. -/

theorem insertTuple_run {data : List UInt8} {n : Int} (length : n = data.length) (low : 1 ≤ n)
    (table : Table st name id records) (named : name ≠ [])
    (returned : Flat.run (insertTuple name ⟨data, n⟩) st = some (status, st')) :
    Rewritten name st st' := by
  obtain ⟨h, new, inserter⟩ := table.openInserter named
  rw [insertTuple, Flat.run, run_bind_of _ _ new] at returned
  obtain ⟨⟨reply, h'⟩, mid, inserted, rest⟩ := run_bind_inv _ _ returned
  obtain ⟨own, g, records', rfl, table', -, -⟩ := inserter.attempt length low inserted
  have isOpen : ((st.opened name).put name g).openCnt name ≠ 0 := by simp
  rw [run_bind_of _ _ (InsertFileScan.delete_spec own isOpen), Flat.closed_put,
    Flat.closed_opened] at rest
  cases reply <;> cases rest <;> exact .put table.there (table'.congr rfl)

/-- The loop is left early only if tuples do not fit on a page. -/
theorem loadLoop_run {width : Nat} {data : List UInt8} {r : Except Status HeapFile}
    (low : 1 ≤ width) (inserter : Inserter h st name records)
    (returned : Flat.run (loadLoop width fuel data h) st = some (r, st')) :
    ∃ g records', st' = st.put name g ∧ Table st' name id records' ∧
      (∀ h', r = .ok h' → h'.filePtr = name) ∧ ∀ status, r = .error status → 1000 < width ∧
        width ≤ data.length := by
  induction fuel generalizing st h records data with
  | zero => cases returned
  | succ fuel ih =>
    rw [loadLoop] at returned
    split at returned
    next =>
      obtain ⟨f, _, _, there, _⟩ := id inserter
      cases returned
      refine ⟨f, records, (Flat.put_self there).symm, inserter.table, ?_, nofun⟩
      rintro _ ⟨⟩
      exact inserter.file
    next enough =>
      have length : (width : Int) = (data.take width).length := by
        rw [List.length_take]
        omega
      obtain ⟨⟨reply, h₁⟩, mid, inserted, rest⟩ := run_bind_inv _ _ returned
      obtain ⟨-, g, records', rfl, table, fits, more⟩ := inserter.attempt length (by omega) inserted
      cases reply with
      | error status =>
        have wide : 1000 < width := by
          by_contra small
          obtain ⟨rid, ok⟩ := fits (by omega)
          cases ok
        cases rest
        exact ⟨g, records', rfl, table, nofun, fun _ _ => ⟨wide, by omega⟩⟩
      | ok rid =>
        obtain ⟨g', records'', rfl, table', file, failed⟩ := ih (more rid rfl) rest
        rw [Flat.put_put] at table' ⊢
        refine ⟨g', records'', rfl, table', file, fun status error => ?_⟩
        obtain ⟨wide, left⟩ := failed status error
        rw [List.length_drop] at left
        exact ⟨wide, by omega⟩

/-! Deletion. -/

theorem deleteWhile_steady (status : Status) (s : HeapFileScan) :
    Steady Flat.handle (deleteWhile · status s) := by
  intro fuel
  induction fuel generalizing status s with
  | zero => exact .halt _
  | succ fuel ih =>
    refine .ite (.refl _)
      (.bind (HeapFileScan.scanNext_steady s fuel) fun ⟨status, s⟩ => .ite (.refl _) ?_)
    exact .bind (.refl _) fun ⟨_, s⟩ => ih status s

theorem Cursor.some_rows (cursor : Cursor s st name id records records) (fresh : s.filter = none)
    (filter : Option Filter) :
    ∃ todo, Cursor (s.startScan filter).2 st name id records todo ∧ todo.Sublist records := by
  cases filter with
  | none =>
    rw [Cursor.startScan_none fresh]
    exact ⟨records, cursor, .refl _⟩
  | some φ =>
    cases accepted : φ.accepted with
    | true =>
      obtain ⟨t, start, cursor'⟩ := cursor.startScan fresh accepted
      rw [start]
      exact ⟨_, cursor', List.filter_sublist⟩
    | false =>
      simp only [HeapFileScan.startScan, accepted]
      exact ⟨records, cursor, .refl _⟩

theorem deleteScan_run {filter : Option Filter}
    (cursor : Cursor s (st.opened name) name id records records)
    (fresh : s.filter = none)
    (returned : Flat.run (deleteScan fuel s filter) (st.opened name) = some (status, st')) :
    Rewritten name st st' := by
  obtain ⟨todo, cursor', part⟩ := cursor.some_rows fresh filter
  have distinct := cursor.table.distinct.of_map.sublist part
  obtain ⟨t, g, loop, ended⟩ := deleteWhile_spec cursor' (fun r member => part.subset member) distinct
  obtain ⟨t', mid, looped, rest⟩ := run_bind_inv _ _ returned
  cases (deleteWhile_steady .ok (s.startScan filter).2).unique looped loop
  rw [← Flat.opened_put] at rest ended
  simp only [monadLift_self] at rest
  rw [run_bind_of _ _ ended.delete] at rest
  cases rest
  exact .put cursor.table.there (ended.table.congr rfl)

/-! Printing. -/

theorem printLoop_steady (s : HeapFileScan) : Steady Flat.handle (printLoop · s) := by
  intro fuel
  induction fuel generalizing s with
  | zero => exact .halt _
  | succ fuel ih =>
    refine .bind (HeapFileScan.scanNext_steady s fuel) fun ⟨status, s⟩ =>
      .ite (.refl _) (.bind (.refl _) fun found => ?_)
    cases found with
    | error => exact .refl _
    | ok => exact ih s

theorem printLoop_spec {todo : List Entry} (cursor : Cursor s st name id records todo) :
    ∃ t, Returns Flat.handle (printLoop · s) st (.ok t, st) ∧ Cursor t st name id records [] := by
  induction todo generalizing s with
  | nil =>
    obtain ⟨t, next, cursor'⟩ := cursor.eof
    exact ⟨t, .round (.bind next (.of_run rfl)) (fun _ => rfl), cursor'⟩
  | cons r todo ih =>
    obtain ⟨t, next, on⟩ := cursor.next
    obtain ⟨u, rest, cursor'⟩ := ih on.cursor
    exact ⟨u, .round (.bind next (.after on.getRecord rest)) (fun _ => rfl), cursor'⟩

end Minirel
