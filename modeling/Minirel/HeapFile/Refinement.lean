import Minirel.HeapFile.Scan
import Minirel.HeapFile.Insert
import Minirel.Lib.Transition
import Minirel.Lib.Listing

/-! A heap file as a finite map from record identifiers to byte strings, over
any sequence of sessions that insert, or scan and delete. -/
namespace Minirel
open Transition

/-- A scan and what its client has seen of it: the filter that `startScan`
accepted, the map when the scan was opened, the records returned so far, whether
the last call returned a record that has not been deleted since, and whether
the end was reported. -/
structure ScanSession where
  scan : HeapFileScan
  filter : Option Filter
  start : RID → Option (List UInt8)
  returned : List RID
  standing : Bool
  ended : Bool

namespace ScanSession

/-- `startScan` on a new scan. Without a filter that was accepted there is none. -/
abbrev begun (s : HeapFileScan) (filter : Option Filter) (live : RID → Option (List UInt8)) :
    ScanSession :=
  ⟨(s.startScan filter).2, if (s.startScan filter).1 = .ok then filter else none, live, [],
    false, false⟩

abbrev found (s : ScanSession) (t : HeapFileScan) : ScanSession :=
  { s with scan := t, returned := s.returned ++ [t.curRec], standing := true }

abbrev finished (s : ScanSession) (t : HeapFileScan) : ScanSession :=
  { s with scan := t, standing := false, ended := true }

abbrev removed (s : ScanSession) (t : HeapFileScan) : ScanSession :=
  { s with scan := t, standing := false }

end ScanSession

inductive Session
  | idle
  | inserting (h : HeapFile)
  | scanning (s : ScanSession)

/-- Sessions on one file; `live` are the records inserted and not deleted. -/
structure Sessions where
  storage : Flat
  session : Session
  live : RID → Option (List UInt8)

namespace Sessions

inductive Action
  | openInsert
  | insertRecord (bytes : List UInt8)
  | closeInsert
  | openScan (filter : Option Filter)
  | scanNext
  | deleteRecord
  | closeScan

inductive Step (name : Name) : Sessions → Action → Sessions → Prop
  | openInsert (call : Flat.run (InsertFileScan.new name) st = some (.ok h, st')) :
      Step name ⟨st, .idle, records⟩ .openInsert ⟨st', .inserting h, records⟩
  | insertRecord (nonempty : 0 < bytes.length) (small : bytes.length ≤ 1000)
      (call : Flat.run (InsertFileScan.insertRecord h (.ofBytes bytes)) st =
        some ((.ok rid, h'), st')) :
      Step name ⟨st, .inserting h, records⟩ (.insertRecord bytes)
        ⟨st', .inserting h', Function.update records rid (some bytes)⟩
  | closeInsert (call : Flat.run (InsertFileScan.delete h) st = some ((), st')) :
      Step name ⟨st, .inserting h, records⟩ .closeInsert ⟨st', .idle, records⟩
  | openScan (call : Flat.run (HeapFileScan.new name) st = some (.ok s, st')) :
      Step name ⟨st, .idle, records⟩ (.openScan filter)
        ⟨st', .scanning (.begun s filter records), records⟩
  | scanFound (call : Program.Returns Flat.handle (HeapFileScan.scanNext · scan.scan) st
      ((.ok, t), st')) :
      Step name ⟨st, .scanning scan, records⟩ .scanNext ⟨st', .scanning (scan.found t), records⟩
  | scanEnded (call : Program.Returns Flat.handle (HeapFileScan.scanNext · scan.scan) st
      ((.fileEof, t), st')) :
      Step name ⟨st, .scanning scan, records⟩ .scanNext ⟨st', .scanning (scan.finished t), records⟩
  | deleteRecord (standing : scan.standing = true)
      (call : Flat.run scan.scan.deleteRecord st = some ((.ok, t), st')) :
      Step name ⟨st, .scanning scan, records⟩ .deleteRecord
        ⟨st', .scanning (scan.removed t), Function.update records scan.scan.curRec none⟩
  | closeScan (call : Flat.run scan.scan.delete st = some ((), st')) :
      Step name ⟨st, .scanning scan, records⟩ .closeScan ⟨st', .idle, records⟩

def Created (name : Name) (w : Sessions) : Prop :=
  ∃ st, Flat.run (createHeapFile name) st = some (.ok, w.storage) ∧ w.session = .idle ∧
    w.live = fun _ => none

structure ScanRefines (w : Sessions) (s : ScanSession) : Prop where
  filter : s.scan.filter = s.filter
  distinct : s.returned.Nodup
  sound : ∀ rid ∈ s.returned, ∃ b, s.start rid = some b ∧ s.scan.matchRec b = true
  complete : s.ended = true → ∀ rid b, s.start rid = some b → s.scan.matchRec b = true →
    rid ∈ s.returned
  next : ∃ status t, Program.Returns Flat.handle (HeapFileScan.scanNext · s.scan) w.storage
    ((status, t), w.storage) ∧ (status = .ok ∧ s.ended = false ∨ status = .fileEof)
  standing : s.standing = true → ∃ b t st, w.live s.scan.curRec = some b ∧
    Flat.run s.scan.getRecord w.storage = some (.ok b, w.storage) ∧
    Flat.run s.scan.deleteRecord w.storage = some ((.ok, t), st)

/-- The file is sound and stands for the map. -/
structure Refines (name : Name) (w : Sessions) : Prop where
  file : ∃ f hdr, w.storage.files name = some f ∧ f.page f.firstPage = .header hdr ∧
    (∃ numbers, Follows f hdr.firstPage numbers ∧ numbers.Nodup ∧ numbers.getLast? = some hdr.lastPage ∧
      hdr.pageCnt = numbers.length) ∧
    ∃ rids : Finset RID, (∀ rid, rid ∈ rids ↔ w.live rid ≠ none) ∧ hdr.recCnt = rids.card
  getRecord : ∀ rid b, w.live rid = some b → ∃ h st h', Flat.run (HeapFile.new name) w.storage =
    some (.ok h, st) ∧ Flat.run (h.getRecord rid) st = some ((.ok b, h'), st)
  idle : w.session = .idle → (∃ h st, Flat.run (InsertFileScan.new name) w.storage = some (.ok h, st)) ∧
    ∃ s st, Flat.run (HeapFileScan.new name) w.storage = some (.ok s, st)
  insertRecord : ∀ h bytes, w.session = .inserting h → 0 < bytes.length → bytes.length ≤ 1000 →
    ∃ rid h' st, Flat.run (InsertFileScan.insertRecord h (.ofBytes bytes)) w.storage =
      some ((.ok rid, h'), st) ∧ w.live rid = none
  scan : ∀ s, w.session = .scanning s → ScanRefines w s
  close : (∀ h, w.session = .inserting h → ∃ st, Flat.run (InsertFileScan.delete h) w.storage =
    some ((), st)) ∧
    ∀ s, w.session = .scanning s → ∃ st, Flat.run s.scan.delete w.storage = some ((), st)

/-- The position of a scan among the records that were there when it was
opened: those it has passed and those ahead. -/
structure Progress (name : Name) (f : FlatFile) (chain : Chain) (s : ScanSession)
    (passed todo : List Entry) : Prop where
  filter : s.scan.filter = s.filter
  ahead : s.scan.At name f chain todo
  start : Enumerates (passed ++ todo) s.start
  returned : s.returned = (passed.filter fun e => s.scan.matchRec e.2).map Prod.fst
  ended : s.ended = true → todo = []
  standing : s.standing = true → ∃ b, s.scan.On name f chain s.scan.curRec b todo

def InSession (name : Name) (st : Flat) (f : FlatFile) (hdr : FileHdrPage) (chain : Chain) :
    Session → Prop
  | .idle => True
  | .inserting h => st.openCnt name ≠ 0 ∧ h.Opened name f hdr.lastPage
  | .scanning s => st.openCnt name ≠ 0 ∧ ∃ passed todo, Progress name f chain s passed todo

structure Invariant (name : Name) (w : Sessions) : Prop where
  named : name ≠ []
  file : ∃ f hdr chain, w.storage.files name = some f ∧ Heap f hdr chain ∧
    Enumerates chain.entries w.live ∧ InSession name w.storage f hdr chain w.session

variable {name : Name} {st : Flat} {live : RID → Option (List UInt8)} {rid : RID}
    {s t : HeapFileScan}
  {scan : ScanSession}

theorem Created.invariant {w : Sessions} (created : Created name w) : Invariant name w := by
  obtain ⟨storage, session, live⟩ := w
  obtain ⟨st, run, rfl, rfl⟩ := created
  obtain ⟨r, run', creation⟩ := createHeapFile_cases st name
  rw [run] at run'
  cases Option.some.inj run'
  cases creation with
  | created named absent unopened creatable =>
    refine ⟨named, newFile st, _, _, Flat.files_put .., newFile_heap st, ?_, trivial⟩
    rw [newFile_entries]
    exact Enumerates.nil

section progress
variable {f g : FlatFile} {hdr : FileHdrPage} {chain chain' : Chain} {passed todo rest : List Entry}

theorem Progress.found {front : List Entry} {b : List UInt8}
    (progress : Progress name f chain scan passed todo) (filter : t.filter = scan.scan.filter)
    (split : todo = front ++ (rid, b) :: rest)
    (skipped : ∀ e ∈ front, scan.scan.matchRec e.2 = false) (hit : scan.scan.matchRec b = true)
    (on : t.On name f chain rid b rest) :
    Progress name f chain (scan.found t) (passed ++ front ++ [(rid, b)]) rest := by
  have same : ∀ rec, t.matchRec rec = scan.scan.matchRec rec := fun rec => by
    simp only [HeapFileScan.matchRec, filter]
  refine ⟨filter.trans progress.filter, on.at, ?_, ?_, ?_, ?_⟩
  · have start := progress.start
    rw [split] at start
    simpa using start
  · simp only [same, List.filter_append, HeapFileScan.filter_skipped skipped, progress.returned, on.cur]
    simp [hit]
  · intro ended
    have := progress.ended ended
    simp [split] at this
  · intro _
    exact ⟨b, on.cur ▸ on⟩

theorem Progress.ended_eof (progress : Progress name f chain scan passed todo)
    (filter : t.filter = scan.scan.filter) (ended : t.At name f chain [])
    (skipped : ∀ e ∈ todo, scan.scan.matchRec e.2 = false) :
    Progress name f chain (scan.finished t) (passed ++ todo) [] := by
  have same : ∀ rec, t.matchRec rec = scan.scan.matchRec rec := fun rec => by
    simp only [HeapFileScan.matchRec, filter]
  refine ⟨filter.trans progress.filter, ended, ?_, ?_, fun _ => rfl, fun standing => by cases standing⟩
  · simpa using progress.start
  · simp only [same, List.filter_append, HeapFileScan.filter_skipped skipped, progress.returned,
      List.append_nil]

theorem Progress.deleted (progress : Progress name f chain scan passed todo)
    (filter : t.filter = scan.scan.filter) (ahead : t.At name g chain' todo) :
    Progress name g chain' (scan.removed t) passed todo := by
  have same : ∀ rec, t.matchRec rec = scan.scan.matchRec rec := fun rec => by
    simp only [HeapFileScan.matchRec, filter]
  refine ⟨filter.trans progress.filter, ahead, progress.start, ?_, progress.ended, fun standing =>
    by cases standing⟩
  simp only [same]
  exact progress.returned

theorem Progress.begun (filter : Option Filter) (unfiltered : s.filter = none)
    (ahead : s.At name f chain todo) (lists : Enumerates todo live) :
    Progress name f chain (.begun s filter live) [] todo := by
  refine ⟨?_, ahead.startScan filter, lists, rfl, fun ended => (by cases ended), fun standing =>
    (by cases standing)⟩
  cases filter with
  | none => rfl
  | some φ =>
    by_cases accepted : φ.accepted = true <;> simp [HeapFileScan.startScan, accepted, unfiltered]

end progress

/-- What one call preserves, whatever it returns. -/
theorem Step.invariant {w w' : Sessions} {a : Action} (inv : Invariant name w)
    (step : Step name w a w') :
    Invariant name w' := by
  obtain ⟨named, f, hdr, chain, there, heap, lists, session⟩ := inv
  refine ⟨named, ?_⟩
  cases step with
  | openInsert call =>
    obtain ⟨h, run, opened⟩ := InsertFileScan.new_spec heap there named
    rw [run] at call
    cases call
    exact ⟨f, hdr, chain, there, heap, lists, by simp, opened⟩
  | insertRecord nonempty small call =>
    obtain ⟨isOpen, opened⟩ := session
    obtain ⟨rid, h', g, hdr', chain', run, heap', opened', joined⟩ :=
      InsertFileScan.insertRecord_spec heap there opened nonempty small
    rw [run] at call
    cases call
    obtain ⟨front, back, before, after, _⟩ := joined.lists
    rw [before] at lists
    have distinct := heap'.entries_nodup
    rw [after] at distinct
    refine ⟨g, hdr', chain', Flat.files_put .., heap', ?_, isOpen, opened'⟩
    rw [after]
    exact lists.insert distinct
  | closeInsert call =>
    rw [InsertFileScan.delete_spec session.2.file session.1] at call
    cases call
    exact ⟨f, hdr, chain, there, heap, lists, trivial⟩
  | openScan call =>
    obtain ⟨s, run, unfiltered, ahead⟩ := HeapFileScan.new_spec heap there named
    rw [run] at call
    cases call
    exact ⟨f, hdr, chain, there, heap, lists, by simp, [], chain.entries,
      .begun _ unfiltered ahead lists⟩
  | scanFound call =>
    obtain ⟨isOpen, passed, todo, progress⟩ := session
    obtain ⟨_, run, scanned⟩ := HeapFileScan.scanNext_spec heap there progress.ahead
    cases run.unique call
    cases scanned with
    | found _ front rid b rest filter split skipped hit on =>
      exact ⟨f, hdr, chain, there, heap, lists, isOpen, _, rest,
        progress.found filter split skipped hit on⟩
  | scanEnded call =>
    obtain ⟨isOpen, passed, todo, progress⟩ := session
    obtain ⟨_, run, scanned⟩ := HeapFileScan.scanNext_spec heap there progress.ahead
    cases run.unique call
    cases scanned with
    | eof _ filter ended skipped =>
      exact ⟨f, hdr, chain, there, heap, lists, isOpen, _, [], progress.ended_eof filter ended skipped⟩
  | deleteRecord standing call =>
    obtain ⟨isOpen, passed, todo, progress⟩ := session
    obtain ⟨b, on⟩ := progress.standing standing
    obtain ⟨t, g, chain', front, back, run, filter, heap', ahead, before, after⟩ :=
      HeapFileScan.deleteRecord_spec on heap there
    rw [run] at call
    cases call
    rw [before] at lists
    refine ⟨g, _, chain', Flat.files_put .., heap', ?_, isOpen, passed, todo,
      progress.deleted filter ahead⟩
    rw [after]
    exact lists.remove
  | closeScan call =>
    obtain ⟨isOpen, passed, todo, progress⟩ := session
    rw [HeapFileScan.delete_spec progress.ahead.file isOpen] at call
    cases call
    exact ⟨f, hdr, chain, there, heap, lists, trivial⟩

section consequences
variable {f : FlatFile} {hdr : FileHdrPage} {chain : Chain}

theorem getRecord_listed {b : List UInt8} (named : name ≠ []) (there : st.files name = some f)
    (heap : Heap f hdr chain) (listed : (rid, b) ∈ chain.entries) :
    ∃ h h', Flat.run (HeapFile.new name) st = some (.ok h, st.opened name) ∧
      Flat.run (h.getRecord rid) (st.opened name) = some ((.ok b, h'), st.opened name) := by
  obtain ⟨p, rest, first⟩ := heap.first_page
  obtain ⟨q, member, bound⟩ := heap.mem_entries.mp listed
  obtain ⟨target, low, high, _, inv, _⟩ := heap.pages _ q member
  have image := (heap.pages hdr.firstPage p (by rw [first]; exact List.mem_cons_self)).1
  have opened : HeapFile.Opened ⟨name, f.firstPage, false, some hdr.firstPage, hdr.firstPage, false,
    nullRid⟩
      name f hdr.firstPage := ⟨rfl, rfl, rfl, rfl⟩
  have there' : (st.opened name).files name = some f := there
  obtain ⟨h', run, _⟩ := HeapFile.getRecord_spec opened there' image target low high
  rw [Page.getRecord_spec inv bound] at run
  exact ⟨_, h', HeapFile.new_spec heap there named, run⟩

theorem Progress.refines {w : Sessions} {passed todo : List Entry}
    (progress : Progress name f chain scan passed todo)
    (there : w.storage.files name = some f) (heap : Heap f hdr chain)
    (lists : Enumerates chain.entries w.live) :
    ScanRefines w scan := by
  have returned := progress.returned
  refine ⟨progress.filter, ?_, ?_, ?_, ?_, ?_⟩
  · rw [returned]
    have distinct := progress.start.distinct
    rw [List.map_append, List.nodup_append] at distinct
    exact distinct.1.sublist (List.filter_sublist.map _)
  · intro rid member
    rw [returned] at member
    obtain ⟨⟨_, b⟩, kept, rfl⟩ := List.mem_map.mp member
    obtain ⟨listed, hit⟩ := List.mem_filter.mp kept
    exact ⟨b, (progress.start.mem_iff _ b).mpr (List.mem_append_left _ listed), hit⟩
  · intro ended rid b bound hit
    have listed := (progress.start.mem_iff rid b).mp bound
    rw [progress.ended ended, List.append_nil] at listed
    rw [returned]
    exact List.mem_map.mpr ⟨(rid, b), List.mem_filter.mpr ⟨listed, hit⟩, rfl⟩
  · obtain ⟨⟨status, t⟩, run, scanned⟩ := HeapFileScan.scanNext_spec heap there progress.ahead
    refine ⟨status, t, run, ?_⟩
    cases scanned with
    | eof => exact Or.inr rfl
    | found _ front rid b rest filter split =>
      refine Or.inl ⟨rfl, ?_⟩
      by_contra ended
      have none := progress.ended (by simpa using ended)
      simp [split] at none
  · intro standing
    obtain ⟨b, on⟩ := progress.standing standing
    obtain ⟨t, g, _, _, _, run, _⟩ := HeapFileScan.deleteRecord_spec on heap there
    obtain ⟨pre, p, post, split, _, bound, _⟩ := on.place
    have listed := heap.mem_entries.mpr ⟨p, by rw [split]; simp, bound⟩
    exact ⟨b, t, _, (lists.mem_iff _ b).mpr listed, on.getRecord heap there, run⟩

theorem Invariant.refines {w : Sessions} (inv : Invariant name w) : Refines name w := by
  obtain ⟨named, f, hdr, chain, there, heap, lists, session⟩ := inv
  refine ⟨⟨f, hdr, there, heap.header, ⟨_, heap.follows, heap.distinct, heap.last, heap.pageCnt⟩, ?_⟩,
    ?_, ?_, ?_, ?_, ?_, ?_⟩
  · obtain ⟨rids, keys, count⟩ := lists.card
    exact ⟨rids, keys, by rw [count]; exact heap.recCnt⟩
  · intro rid b bound
    obtain ⟨h, h', new, run⟩ := getRecord_listed named there heap ((lists.mem_iff rid b).mp bound)
    exact ⟨h, _, h', new, run⟩
  · intro _
    obtain ⟨h, newInsert, _⟩ := InsertFileScan.new_spec heap there named
    obtain ⟨s, newScan, _⟩ := HeapFileScan.new_spec heap there named
    exact ⟨⟨h, _, newInsert⟩, s, _, newScan⟩
  · intro h bytes inserting nonempty small
    rw [inserting] at session
    obtain ⟨rid, h', g, hdr', chain', run, heap', _, joined⟩ :=
      InsertFileScan.insertRecord_spec heap there session.2 nonempty small
    obtain ⟨front, back, before, after, _⟩ := joined.lists
    have distinct := heap'.entries_nodup
    rw [after] at distinct
    refine ⟨rid, h', _, run, lists.eq_none_iff.mpr ?_⟩
    rw [before]
    exact (Enumerates.distinct_middle.mp distinct).1
  · intro s scanning
    rw [scanning] at session
    obtain ⟨_, passed, todo, progress⟩ := session
    exact progress.refines there heap lists
  · intro h inserting
    rw [inserting] at session
    exact ⟨_, InsertFileScan.delete_spec session.2.file session.1⟩
  · intro s scanning
    rw [scanning] at session
    obtain ⟨isOpen, _, _, progress⟩ := session
    exact ⟨_, HeapFileScan.delete_spec progress.ahead.file isOpen⟩

end consequences

/-- A heap file refines a finite map, in every state that sessions reach. -/
theorem heapFile_refines_map {w : Sessions} (reached : Reachable (Created name) (Step name) w) :
    Refines name w :=
  (reached.invariant (fun _ => Created.invariant) (fun _ _ _ inv step => step.invariant inv)).refines

/-- A file is created, a record inserted and a scan opened. -/
theorem heapFile_refines_map_inserted :
    ∃ w scan, w.session = .scanning scan ∧ w.live ⟨2, 0⟩ = some [7, 7] ∧ Refines [97] w :=
  ⟨_, _, rfl, rfl, heapFile_refines_map (.next (a := .openScan none) (.next (a := .closeInsert)
    (.next (a := .insertRecord [7, 7]) (.next (a := .openInsert)
      (.initial (s := ⟨_, .idle, fun _ => none⟩) ⟨.empty, rfl, rfl, rfl⟩) (.openInsert rfl))
      (.insertRecord (by decide) (by decide) rfl)) (.closeInsert rfl)) (.openScan rfl))⟩

end Sessions
end Minirel
