import Mathlib.Data.List.Induction
import Mathlib.Data.List.Nodup
import Minirel.HeapFile.Scan
import Minirel.HeapFile.Insert

/-! A heap file as the list of its rows, in the order in which scans meet them,
and scans as cursors over that list. Clients of the heap file layer are
verified against these two alone. A front part of the rows can be sealed:
whatever is inserted later comes behind it. -/
namespace Minirel
open Program

variable {α : Type} {enc : α → List UInt8} {st st' : Flat} {name : Name}
    {rows todo front back : List (RID × α)}
  {r : RID × α} {a : α} {s t : HeapFileScan}

def stored (enc : α → List UInt8) (rows : List (RID × α)) : List Entry := rows.map fun r =>
    (r.1, enc r.2)

@[simp] theorem stored_nil : stored enc [] = [] := rfl

@[simp] theorem stored_cons : stored enc (r :: rows) = (r.1, enc r.2) :: stored enc rows := rfl

@[simp] theorem stored_append : stored enc (front ++ back) = stored enc front ++ stored enc back :=
  List.map_append

theorem stored_rids : (stored enc rows).map Prod.fst = rows.map Prod.fst := by
  rw [stored, List.map_map]
  rfl

def Table (st : Flat) (name : Name) (enc : α → List UInt8) (rows : List (RID × α)) : Prop :=
  ∃ f hdr chain, st.files name = some f ∧ Heap f hdr chain ∧ chain.entries = stored enc rows

theorem Table.congr (table : Table st name enc rows) (same : st'.files name = st.files name) :
    Table st' name enc rows := by
  obtain ⟨f, hdr, chain, there, rest⟩ := table
  exact ⟨f, hdr, chain, same.trans there, rest⟩

theorem Table.distinct (table : Table st name enc rows) : (rows.map Prod.fst).Nodup := by
  obtain ⟨f, hdr, chain, _, heap, list⟩ := table
  rw [← stored_rids, ← list]
  exact heap.entries_nodup

theorem Table.raw (table : Table st name enc rows) : Table st name id (stored enc rows) := by
  obtain ⟨f, hdr, chain, there, heap, list⟩ := table
  refine ⟨f, hdr, chain, there, heap, list.trans ?_⟩
  simp [stored]

/-- Records can be inserted into another file. -/
theorem Table.sized {records : List Entry} (table : Table st name id records) :
    ∀ e ∈ records, 0 < e.2.length ∧ e.2.length ≤ 1000 := by
  obtain ⟨f, hdr, chain, _, heap, list⟩ := table
  have same : chain.entries = records := by simpa [stored] using list
  exact fun e member => heap.entry_length (same ▸ member)

theorem Table.unique {raw raw' : List Entry} (table : Table st name id raw)
    (table' : Table st name id raw') :
    raw = raw' := by
  obtain ⟨f, hdr, chain, there, heap, list⟩ := table
  obtain ⟨f', hdr', chain', there', heap', list'⟩ := table'
  cases there.symm.trans there'
  rw [heap.unique heap', list'] at list
  simpa [stored] using list.symm

theorem newFile_table (st : Flat) (name : Name) : Table (st.put name (newFile st)) name enc [] :=
  ⟨newFile st, _, _, Flat.files_put .., newFile_heap st, newFile_entries st⟩

/-! Insertion. -/

def Sealed (chain : Chain) (front : List Entry) : Prop := ∀ e, front.getLast? = some e →
    Packed chain e.1

def TableAt (st : Flat) (name : Name) (enc : α → List UInt8) (front back : List (RID × α)) : Prop :=
  ∃ f hdr chain, st.files name = some f ∧ Heap f hdr chain ∧
    chain.entries = stored enc (front ++ back) ∧ Sealed chain (stored enc front)

theorem Table.at (table : Table st name enc rows) : TableAt st name enc [] rows := by
  obtain ⟨f, hdr, chain, there, heap, list⟩ := table
  exact ⟨f, hdr, chain, there, heap, list, fun _ last => by cases last⟩

theorem TableAt.table (table : TableAt st name enc front back) :
    Table st name enc (front ++ back) := by
  obtain ⟨f, hdr, chain, there, heap, list, _⟩ := table
  exact ⟨f, hdr, chain, there, heap, list⟩

/-- A record that joins comes behind the sealed entries. -/
theorem Joined.behind_sealed {chain chain' : Chain} {rid : RID} {bytes : List UInt8}
    {before after : List Entry} (joined : Joined chain rid bytes chain')
    (split : chain.entries = before ++ after) (sealedFront : Sealed chain before) :
    ∃ mid rest, after = mid ++ rest ∧ chain'.entries = before ++ mid ++ (rid, bytes) :: rest := by
  obtain ⟨front, back, old, new, behind⟩ := joined.lists
  rw [old] at split
  rcases List.append_eq_append_iff.mp split with ⟨tail, rfl, rfl⟩ | ⟨mid, rfl, rfl⟩
  · rcases List.eq_nil_or_concat' tail with rfl | ⟨tail, e, rfl⟩
    · exact ⟨[], after, rfl, by simpa using new⟩
    · exact absurd (sealedFront e (by simp)) (behind e (by simp))
  · exact ⟨mid, back, rfl, by simpa using new⟩

theorem TableAt.insert (table : TableAt st name enc front back) (named : name ≠ [])
    (nonempty : 0 < (enc a).length) (small : (enc a).length ≤ 1000) :
    ∃ h rid h' g, Flat.run (InsertFileScan.new name) st = some (.ok h, st.opened name) ∧
      Flat.run (InsertFileScan.insertRecord h (.ofBytes (enc a))) (st.opened name) =
        some ((.ok rid, h'), (st.opened name).put name g) ∧
      Flat.run (InsertFileScan.delete h') ((st.opened name).put name g) = some ((), st.put name g) ∧
      ∃ mid rest, back = mid ++ rest ∧
        TableAt (st.put name g) name enc (front ++ mid ++ [(rid, a)]) rest := by
  obtain ⟨f, hdr, chain, there, heap, list, sealedFront⟩ := table
  obtain ⟨h, new, opened⟩ := InsertFileScan.new_spec heap there named
  have there' : (st.opened name).files name = some f := there
  obtain ⟨rid, h', g, hdr', chain', insert, heap', opened', joined⟩ :=
    InsertFileScan.insertRecord_spec heap there' opened nonempty small
  rw [stored_append] at list
  obtain ⟨mid, rest, split, list'⟩ := joined.behind_sealed list sealedFront
  obtain ⟨mid, rest, rfl, rfl, rfl⟩ := List.map_eq_append_iff.mp split
  have isOpen : ((st.opened name).put name g).openCnt name ≠ 0 := by simp
  have close := InsertFileScan.delete_spec opened'.file isOpen
  rw [Flat.closed_put, Flat.closed_opened] at close
  refine ⟨h, rid, h', g, new, insert, close, mid, rest, rfl, g, hdr', chain', Flat.files_put ..,
    heap', ?_, ?_⟩
  · rw [list']
    simp [stored]
  · intro e last
    simp only [stored, List.map_append, List.map_cons, List.map_nil, List.getLast?_concat,
      Option.some.injEq] at last
    rw [← last]
    exact joined.packed

/-- There are files of any records that fit on a page. -/
theorem exists_table (st : Flat) (name : Name) (records : List (List UInt8)) (named : name ≠ [])
    (fits : ∀ bytes ∈ records, 0 < bytes.length ∧ bytes.length ≤ 1000) :
    ∃ g rows, rows.map Prod.snd = records ∧ Table (st.put name g) name id rows := by
  have sealedRows : ∃ g rows, rows.map Prod.snd = records ∧
      TableAt (st.put name g) name id rows [] := by
    induction records using List.reverseRecOn with
    | nil => exact ⟨newFile st, [], rfl, (newFile_table st name).at⟩
    | append_singleton front bytes ih =>
      obtain ⟨g, rows, same, table⟩ := ih fun bytes member => fits bytes (List.mem_append_left _ member)
      obtain ⟨nonempty, small⟩ := fits bytes (by simp)
      obtain ⟨_, rid, _, g', _, _, _, mid, rest, none, table⟩ := table.insert named nonempty small
      obtain ⟨rfl, rfl⟩ : mid = [] ∧ rest = [] := by simpa using none.symm
      rw [Flat.put_put, List.append_nil] at table
      exact ⟨g', rows ++ [(rid, bytes)], by simp [same], table⟩
  obtain ⟨g, rows, same, table⟩ := sealedRows
  have all := table.table
  rw [List.append_nil] at all
  exact ⟨g, rows, same, all⟩

theorem exists_single_table (st : Flat) (name : Name) (bytes : List UInt8) (named : name ≠ [])
    (nonempty : 0 < bytes.length) (small : bytes.length ≤ 1000) :
    ∃ g rid, Table (st.put name g) name id [(rid, bytes)] := by
  obtain ⟨g, rows, same, table⟩ := exists_table st name [bytes] named (by simp [nonempty, small])
  obtain ⟨⟨rid, _⟩, rfl, rfl⟩ := List.map_eq_singleton_iff.mp same
  exact ⟨g, rid, table⟩

def Inserter (h : HeapFile) (st : Flat) (name : Name) (records : List Entry) : Prop :=
  ∃ f hdr chain, st.files name = some f ∧ Heap f hdr chain ∧ chain.entries = records ∧
    h.Opened name f hdr.lastPage

namespace Inserter
variable {h : HeapFile} {records : List Entry} {bytes : List UInt8}

theorem congr (inserter : Inserter h st name records) (same : st'.files name = st.files name) :
    Inserter h st' name records := by
  obtain ⟨f, hdr, chain, there, rest⟩ := inserter
  exact ⟨f, hdr, chain, same.trans there, rest⟩

theorem table (inserter : Inserter h st name records) : Table st name id records := by
  obtain ⟨f, hdr, chain, there, heap, list, _⟩ := inserter
  exact ⟨f, hdr, chain, there, heap, by simpa [stored] using list⟩

theorem file (inserter : Inserter h st name records) : h.filePtr = name := by
  obtain ⟨_, _, _, _, _, _, opened⟩ := inserter
  exact opened.file

theorem insert (inserter : Inserter h st name records) (nonempty : 0 < bytes.length)
    (small : bytes.length ≤ 1000) :
    ∃ rid h' g front back, Flat.run (InsertFileScan.insertRecord h (.ofBytes bytes)) st =
        some ((.ok rid, h'), st.put name g) ∧
      records = front ++ back ∧
        Inserter h' (st.put name g) name (front ++ (rid, bytes) :: back) := by
  obtain ⟨f, hdr, chain, there, heap, rfl, opened⟩ := inserter
  obtain ⟨rid, h', g, hdr', chain', insert, heap', opened', joined⟩ :=
    InsertFileScan.insertRecord_spec heap there opened nonempty small
  obtain ⟨front, back, before, after, _⟩ := joined.lists
  exact ⟨rid, h', g, front, back, insert, before, g, hdr', chain', Flat.files_put .., heap', after,
    opened'⟩

theorem delete (inserter : Inserter h (st.opened name) name records) :
    Flat.run (InsertFileScan.delete h) (st.opened name) = some ((), st) := by
  have isOpen : (st.opened name).openCnt name ≠ 0 := by simp
  rw [InsertFileScan.delete_spec inserter.file isOpen, Flat.closed_opened]

end Inserter

theorem Table.openInserter {records : List Entry} (table : Table st name id records)
    (named : name ≠ []) :
    ∃ h, Flat.run (InsertFileScan.new name) st = some (.ok h, st.opened name) ∧
      Inserter h (st.opened name) name records := by
  obtain ⟨f, hdr, chain, there, heap, list⟩ := table
  obtain ⟨h, new, opened⟩ := InsertFileScan.new_spec heap there named
  exact ⟨h, new, f, hdr, chain, there, heap, by simpa [stored] using list, opened⟩

theorem InsertFileScan.new_absent (absent : st.files name = none) (unopened : st.openCnt name = 0)
    (named : name ≠ []) :
    Flat.run (InsertFileScan.new name) st = some (.error .unixErr, st) := by
  have object : Flat.run (HeapFile.new name) st = some (.error .unixErr, st) := by
    rw [HeapFile.new, Flat.run, run_bind_of _ _ (Flat.run_openFile_absent absent unopened named)]
    rfl
  rw [InsertFileScan.new, Flat.run, run_bind_of _ _ object]
  rfl

/-! Scans. -/

/-- The scan is open on the file and returns the rows `todo` next. -/
def Cursor (s : HeapFileScan) (st : Flat) (name : Name) (enc : α → List UInt8)
    (rows todo : List (RID × α)) : Prop :=
  ∃ f hdr chain, st.files name = some f ∧ Heap f hdr chain ∧ chain.entries = stored enc rows ∧
    s.Ahead name f chain (stored enc todo)

def CursorOn (s : HeapFileScan) (st : Flat) (name : Name) (enc : α → List UInt8)
    (rows : List (RID × α)) (r : RID × α) (todo : List (RID × α)) : Prop :=
  ∃ f hdr chain, st.files name = some f ∧ Heap f hdr chain ∧ chain.entries = stored enc rows ∧
    s.Stands name f chain (r.1, enc r.2) (stored enc todo)

theorem Table.open (table : Table st name enc rows) (named : name ≠ []) :
    ∃ s, Flat.run (HeapFileScan.new name) st = some (.ok s, st.opened name) ∧ s.filter = none ∧
      Cursor s (st.opened name) name enc rows rows := by
  obtain ⟨f, hdr, chain, there, heap, list⟩ := table
  obtain ⟨s, run, fresh, ahead⟩ := HeapFileScan.new_ahead heap there named
  exact ⟨s, run, fresh, f, hdr, chain, there, heap, list, list ▸ ahead⟩

namespace Cursor

theorem table (cursor : Cursor s st name enc rows todo) : Table st name enc rows := by
  obtain ⟨f, hdr, chain, there, heap, list, _⟩ := cursor
  exact ⟨f, hdr, chain, there, heap, list⟩

theorem congr (cursor : Cursor s st name enc rows todo) (same : st'.files name = st.files name) :
    Cursor s st' name enc rows todo := by
  obtain ⟨f, hdr, chain, there, rest⟩ := cursor
  exact ⟨f, hdr, chain, same.trans there, rest⟩

theorem restrict {filter : Filter} (cursor : Cursor s st name enc rows todo)
    (fresh : s.filter = none) (accepted : filter.accepted = true) :
    ∃ t, s.startScan (some filter) = (.ok, t) ∧ t.filter = some filter ∧
      Cursor t st name enc rows (todo.filter fun r => filter.matchRec (enc r.2)) := by
  obtain ⟨f, hdr, chain, there, heap, list, ahead⟩ := cursor
  obtain ⟨t, run, set, ahead'⟩ := ahead.startScan fresh accepted
  refine ⟨t, run, set, f, hdr, chain, there, heap, list, ?_⟩
  rw [stored, List.filter_map] at ahead'
  exact ahead'

theorem startScan {filter : Filter} (cursor : Cursor s st name enc rows todo)
    (fresh : s.filter = none) (accepted : filter.accepted = true) :
    ∃ t, s.startScan (some filter) = (.ok, t) ∧
      Cursor t st name enc rows (todo.filter fun r => filter.matchRec (enc r.2)) := by
  obtain ⟨t, run, _, cursor'⟩ := cursor.restrict fresh accepted
  exact ⟨t, run, cursor'⟩

theorem startScan_none (fresh : s.filter = none) : s.startScan none = (.ok, s) := by
  simp [HeapFileScan.startScan, ← fresh]

theorem start {filter : Option Filter} (cursor : Cursor s st name enc rows todo)
    (fresh : s.filter = none) (accepted : ∀ φ, filter = some φ → φ.accepted = true) :
    ∃ t, s.startScan filter = (.ok, t) ∧ t.filter = filter ∧
      Cursor t st name enc rows (todo.filter fun r => filter.all (·.matchRec (enc r.2))) := by
  cases filter with
  | none =>
    refine ⟨s, startScan_none fresh, fresh, ?_⟩
    simpa using cursor
  | some φ => simpa using cursor.restrict fresh (accepted φ rfl)

theorem eof (cursor : Cursor s st name enc rows []) :
    ∃ t, Returns Flat.handle (HeapFileScan.scanNext · s) st ((.fileEof, t), st) ∧
      Cursor t st name enc rows [] := by
  obtain ⟨f, hdr, chain, there, heap, list, ahead⟩ := cursor
  obtain ⟨t, run, _, ahead'⟩ := ahead.eof heap there
  exact ⟨t, run, f, hdr, chain, there, heap, list, ahead'⟩

theorem advance (cursor : Cursor s st name enc rows (r :: todo)) :
    ∃ t, Returns Flat.handle (HeapFileScan.scanNext · s) st ((.ok, t), st) ∧ t.filter = s.filter ∧
      CursorOn t st name enc rows r todo := by
  obtain ⟨f, hdr, chain, there, heap, list, ahead⟩ := cursor
  obtain ⟨t, run, filter, stands⟩ := ahead.next heap there
  exact ⟨t, run, filter, f, hdr, chain, there, heap, list, stands⟩

theorem next (cursor : Cursor s st name enc rows (r :: todo)) :
    ∃ t, Returns Flat.handle (HeapFileScan.scanNext · s) st ((.ok, t), st) ∧
      CursorOn t st name enc rows r todo := by
  obtain ⟨t, run, _, on⟩ := cursor.advance
  exact ⟨t, run, on⟩

theorem file (cursor : Cursor s st name enc rows todo) : s.filePtr = name := by
  obtain ⟨_, _, _, _, _, _, ahead⟩ := cursor
  exact ahead.file

theorem page (cursor : Cursor s st name enc rows todo) : s.curPage = some s.curPageNo := by
  obtain ⟨_, _, _, _, _, _, _, here, _⟩ := cursor
  obtain ⟨_, _, _, _, _, opened, _⟩ := here.place
  rw [opened.page, opened.number]

theorem delete (cursor : Cursor s (st.opened name) name enc rows todo) :
    Flat.run s.delete (st.opened name) = some ((), st) := by
  have isOpen : (st.opened name).openCnt name ≠ 0 := by simp
  rw [HeapFileScan.delete_spec cursor.file isOpen, Flat.closed_opened]

theorem end_delete (cursor : Cursor s (st.opened name) name enc rows todo) :
    ∃ t, Flat.run s.endScan (st.opened name) = some ((.ok, t), st.opened name) ∧
      Flat.run t.delete (st.opened name) = some ((), st) := by
  obtain ⟨t, run, same⟩ := HeapFileScan.endScan_spec s (st.opened name)
  have isOpen : (st.opened name).openCnt name ≠ 0 := by simp
  refine ⟨t, run, ?_⟩
  rw [HeapFileScan.delete_spec (same.trans cursor.file) isOpen, Flat.closed_opened]

end Cursor

namespace CursorOn

theorem cursor (on : CursorOn s st name enc rows r todo) : Cursor s st name enc rows todo := by
  obtain ⟨f, hdr, chain, there, heap, list, stands⟩ := on
  exact ⟨f, hdr, chain, there, heap, list, stands.ahead⟩

theorem congr (on : CursorOn s st name enc rows r todo) (same : st'.files name = st.files name) :
    CursorOn s st' name enc rows r todo := by
  obtain ⟨f, hdr, chain, there, rest⟩ := on
  exact ⟨f, hdr, chain, same.trans there, rest⟩

theorem curRec (on : CursorOn s st name enc rows r todo) : s.curRec = r.1 := by
  obtain ⟨_, _, _, _, _, _, stands⟩ := on
  exact stands.curRec

theorem pageNo_pos (on : CursorOn s st name enc rows r todo) : 1 ≤ r.1.pageNo := by
  obtain ⟨_, _, _, _, heap, _, _, here, _⟩ := on
  obtain ⟨_, _, _, rfl, _, _, _⟩ := here.place
  exact heap.page_self.2.1

theorem getRecord (on : CursorOn s st name enc rows r todo) :
    Flat.run s.getRecord st = some (.ok (enc r.2), st) := by
  obtain ⟨f, hdr, chain, there, heap, list, stands⟩ := on
  exact stands.getRecord heap there

theorem deleteRecord (on : CursorOn s st name enc rows r todo) (listed : r ∈ rows) :
    ∃ t g front back, Flat.run s.deleteRecord st = some ((.ok, t), st.put name g) ∧
      rows = front ++ r :: back ∧ Cursor t (st.put name g) name enc (front ++ back) todo := by
  have distinct := on.cursor.table.distinct
  obtain ⟨f, hdr, chain, there, heap, list, stands⟩ := on
  obtain ⟨t, g, hdr', chain', front, back, run, _, heap', ahead, before, after⟩ :=
    stands.deleteRecord heap there
  rw [list] at before
  obtain ⟨front, rest, rfl, rfl, tail⟩ := List.map_eq_append_iff.mp before
  obtain ⟨row, back, rfl, same, rfl⟩ := List.map_eq_cons_iff.mp tail
  have rid : row.1 = r.1 := (Prod.mk.inj same).1
  obtain rfl : row = r :=
    List.inj_on_of_nodup_map distinct (List.mem_append_right _ List.mem_cons_self) listed rid
  refine ⟨t, g, front, back, run, rfl, g, hdr', chain', Flat.files_put .., heap', ?_, ahead⟩
  rw [after]
  simp [stored]

end CursorOn
end Minirel
