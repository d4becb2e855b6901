import Minirel.HeapFile.Growth
import Minirel.HeapFile.Deletion

/-! The record count in the header of a heap file, under any calls of a scan.
Only `deleteRecord` writes to the file, and it counts the record down whether or
not there was one. -/
namespace Minirel
open Transition Program

def written : Contract StorageCall.Reply Bool where
  admits _ _ _ := True
  next
    | .createFile _, _, _ | .destroyFile _, _, _ | .allocPage _, _, _ | .store _ _ _, _, _ => true
    | _, before, _ => before

theorem handle_files {c : StorageCall} {s t : Flat} {before : Bool} {reply : c.Reply}
    (answer : Flat.handle c s = some (reply, t)) (unwritten : written.next c before reply = false) :
    t.files = s.files ∧ before = false := by
  cases c with
  | createFile => cases unwritten
  | destroyFile => cases unwritten
  | allocPage => cases unwritten
  | store => cases unwritten
  | openFile name =>
    refine ⟨?_, unwritten⟩
    simp only [Flat.handle] at answer
    split at answer
    · cases answer
      rfl
    · split at answer <;> cases answer <;> rfl
  | closeFile name =>
    refine ⟨?_, unwritten⟩
    simp only [Flat.handle] at answer
    split at answer <;> cases answer
    rfl
  | unPinPage =>
    cases answer
    exact ⟨rfl, unwritten⟩
  | flushFile =>
    cases answer
    exact ⟨rfl, unwritten⟩
  | _ =>
    obtain ⟨_, _, same⟩ := Option.map_eq_some_iff.mp answer
    cases same
    exact ⟨rfl, unwritten⟩

/-- What is not written to stays. -/
theorem files_of_unwritten {α : Type} {p : Prog α} {post : α → Prop} {st st' : Flat} {value : α}
    (ensures : p.Ensures written false fun value after => after = false ∧ post value)
    (returned : Flat.run p st = some (value, st')) : st'.files = st.files ∧ post value := by
  have keeps (c : StorageCall) (s : Flat) (before : Bool) (reply : c.Reply) (t : Flat)
      (related : before = false → s.files = st.files) (answer : Flat.handle c s = some (reply, t)) :
      True ∧ (written.next c before reply = false → t.files = st.files) :=
    ⟨trivial, fun unwritten =>
      (handle_files answer unwritten).1.trans (related (handle_files answer unwritten).2)⟩
  obtain ⟨after, related, rfl, holds⟩ :=
    ensures.sound (fun t after => after = false → t.files = st.files) keeps (fun _ => rfl) returned
  exact ⟨related rfl, holds⟩

def HeapFile.SameFile (h h' : HeapFile) : Prop := h'.filePtr = h.filePtr ∧
    h'.headerPageNo = h.headerPageNo

namespace HeapFileScan
variable {s : HeapFileScan}

theorem nextPages_reads (fuel : Nat) (s : HeapFileScan) : (nextPages fuel s).Ensures written false
    fun r after => after = false ∧ s.toHeapFile.SameFile r.2.toHeapFile := by
  induction fuel generalizing s with
  | zero => trivial
  | succ fuel ih =>
    simp only [nextPages, ensures_bind, ensures_ite, ensures_pure]
    refine HeapFile.page_ensures (fun _ _ => rfl) fun page _ =>
      ⟨fun _ => ⟨rfl, rfl, rfl⟩, fun _ status _ => ?_⟩
    refine ⟨fun _ => ⟨rfl, rfl, rfl⟩, fun _ status _ => ⟨fun _ => ⟨rfl, rfl, rfl⟩, fun _ => ?_⟩⟩
    refine HeapFile.page_ensures (fun _ _ => rfl) fun page _ => ?_
    cases page.firstRecord with
    | ok rid => exact ⟨rfl, rfl, rfl⟩
    | error => exact ih _

theorem advance_reads (fuel : Nat) (s : HeapFileScan) : (advance fuel s).Ensures written false
    fun r after => after = false ∧ s.toHeapFile.SameFile r.2.toHeapFile := by
  simp only [advance, ensures_bind]
  refine HeapFile.page_ensures (fun _ _ => rfl) fun page _ => ?_
  cases page.nextRecord s.curRec with
  | ok rid => exact ⟨rfl, rfl, rfl⟩
  | error => exact nextPages_reads fuel s

theorem scanLoop_reads (fuel : Nat) (s : HeapFileScan) : (scanLoop fuel s).Ensures written false
    fun r after => after = false ∧ s.toHeapFile.SameFile r.2.toHeapFile := by
  induction fuel generalizing s with
  | zero => trivial
  | succ fuel ih =>
    simp only [scanLoop, ensures_bind, ensures_ite]
    refine (advance_reads fuel s).mono fun r after ⟨unwritten, same⟩ =>
      ⟨fun _ => ⟨unwritten, same⟩, fun _ => ?_⟩
    subst unwritten
    refine HeapFile.page_ensures (fun _ _ => rfl) fun page _ => ?_
    cases page.getRecord r.2.curRec with
    | error => exact ⟨rfl, same⟩
    | ok rec =>
      simp only [ensures_ite]
      refine ⟨fun _ => ⟨rfl, same⟩, fun _ => (ih r.2).mono fun r' after ⟨unwritten, same'⟩ => ?_⟩
      exact ⟨unwritten, same'.1.trans same.1, same'.2.trans same.2⟩

theorem firstPage_reads (s : HeapFileScan) : s.firstPage.Ensures written false
    fun r after => after = false ∧ s.toHeapFile.SameFile r.2.toHeapFile := by
  simp only [firstPage, ensures_bind, ensures_ite, ensures_pure]
  refine Storage.header_ensures (fun _ => rfl) fun hdr =>
    ⟨fun _ => ⟨rfl, rfl, rfl⟩, fun _ status _ => ?_⟩
  refine ⟨fun _ => ⟨rfl, rfl, rfl⟩, fun _ => HeapFile.page_ensures (fun _ _ => rfl) fun page _ => ?_⟩
  cases page.firstRecord with
  | error =>
    simp only [ensures_bind, ensures_ite, ensures_pure]
    exact fun status _ => ⟨fun _ => ⟨rfl, rfl, rfl⟩, fun _ => ⟨rfl, rfl, rfl⟩⟩
  | ok rid =>
    simp only [ensures_bind]
    refine HeapFile.page_ensures (fun _ _ => rfl) fun page _ => ?_
    cases page.getRecord rid <;> exact ⟨rfl, rfl, rfl⟩

theorem scanNext_reads (fuel : Nat) (s : HeapFileScan) : (scanNext fuel s).Ensures written false
    fun r after => after = false ∧ s.toHeapFile.SameFile r.2.toHeapFile := by
  simp only [scanNext, ensures_ite, ensures_bind, ensures_pure]
  refine ⟨fun _ => ⟨trivial, rfl, rfl⟩, fun _ => ⟨fun _ => ?_, fun _ => scanLoop_reads fuel s⟩⟩
  refine (firstPage_reads s).mono fun r after reads => ?_
  obtain ⟨rfl, same⟩ := reads
  obtain ⟨status, t⟩ := r
  cases status with
  | some status => exact ⟨rfl, same⟩
  | none =>
    refine (scanLoop_reads fuel t).mono fun r' after reads' => ?_
    obtain ⟨unwritten, same'⟩ := reads'
    exact ⟨unwritten, same'.1.trans same.1, same'.2.trans same.2⟩

theorem endScan_reads (s : HeapFileScan) : s.endScan.Ensures written false
    fun r after => after = false ∧ s.toHeapFile.SameFile r.2.toHeapFile := by
  simp only [endScan, ensures_ite, ensures_bind, ensures_pure]
  exact ⟨fun _ status _ => ⟨rfl, rfl, rfl⟩, fun _ => ⟨trivial, rfl, rfl⟩⟩

theorem resetScan_reads (s : HeapFileScan) (mark : Mark) : (s.resetScan mark).Ensures written false
    fun r after => after = false ∧ s.toHeapFile.SameFile r.2.toHeapFile := by
  have restored : (s.restore mark).Ensures written false
      fun r after => after = false ∧ s.toHeapFile.SameFile r.2.toHeapFile := by
    simp only [restore, ensures_bind, ensures_ite, ensures_pure]
    exact fun status _ => ⟨fun _ => ⟨rfl, rfl, rfl⟩, fun _ => ⟨rfl, rfl, rfl⟩⟩
  simp only [resetScan, ensures_ite, ensures_bind, ensures_pure]
  exact ⟨fun _ => ⟨trivial, rfl, rfl⟩, fun _ =>
    ⟨fun _ => restored, fun _ status _ => ⟨fun _ => ⟨rfl, rfl, rfl⟩, fun _ => restored⟩⟩⟩

theorem fetch_reads (h : HeapFile) (rid : RID) : (h.fetch rid).Ensures written false
    fun r after => after = false ∧ h.SameFile r.2 := by
  simp only [HeapFile.fetch, ensures_bind, ensures_ite, ensures_pure]
  exact fun status _ => ⟨fun _ => ⟨rfl, rfl, rfl⟩, fun _ =>
    HeapFile.page_ensures (fun _ _ => rfl) fun page _ => ⟨rfl, rfl, rfl⟩⟩

theorem getRecordAt_reads (h : HeapFile) (rid : RID) : (h.getRecord rid).Ensures written false
    fun r after => after = false ∧ h.SameFile r.2 := by
  simp only [HeapFile.getRecord, ensures_bind, ensures_ite, ensures_pure]
  refine ⟨fun _ => fetch_reads h rid, fun _ => ⟨fun _ => ?_, fun _ status _ => ?_⟩⟩
  · exact HeapFile.page_ensures (fun _ _ => rfl) fun page _ => ⟨rfl, rfl, rfl⟩
  · exact ⟨fun _ => ⟨rfl, rfl, rfl⟩, fun _ => fetch_reads h rid⟩

theorem delete_reads (s : HeapFileScan) : s.delete.Ensures written false fun _ after =>
    after = false ∧ True := by
  simp only [HeapFileScan.delete, HeapFile.delete, ensures_ite, ensures_bind, ensures_pure]
  refine (endScan_reads s).mono fun r after reads => ?_
  obtain ⟨rfl, _⟩ := reads
  exact ⟨fun _ _ _ _ _ _ _ => ⟨rfl, trivial⟩, fun _ _ _ _ _ => ⟨rfl, trivial⟩⟩

theorem getRecord_reads (s : HeapFileScan) : s.getRecord.Ensures written false fun _ after =>
    after = false ∧ True := by
  simp only [HeapFileScan.getRecord, ensures_bind, ensures_pure]
  exact HeapFile.page_ensures (fun _ _ => rfl) fun page _ => ⟨rfl, trivial⟩

end HeapFileScan

structure Counts where
  storage : Flat
  scan : HeapFileScan
  mark : HeapFileScan.Mark

namespace Counts

inductive Action
  | startScan (filter : Option Filter)
  | endScan
  | markScan
  | resetScan
  | scanNext
  | getRecord
  | getRecordAt (rid : RID)
  | deleteRecord
  | markDirty
  | reopen

inductive Step (name : Name) : Counts → Action → Counts → Prop
  | startScan {st : Flat} {s : HeapFileScan} {m : HeapFileScan.Mark} {filter : Option Filter} :
      Step name ⟨st, s, m⟩ (.startScan filter) ⟨st, (s.startScan filter).2, m⟩
  | endScan {st st' : Flat} {s t : HeapFileScan} {m : HeapFileScan.Mark} {status : Status}
      (call : Flat.run s.endScan st = some ((status, t), st')) :
        Step name ⟨st, s, m⟩ .endScan ⟨st', t, m⟩
  | markScan {st : Flat} {s : HeapFileScan} {m : HeapFileScan.Mark} :
      Step name ⟨st, s, m⟩ .markScan ⟨st, s, s.markScan⟩
  | resetScan {st st' : Flat} {s t : HeapFileScan} {m : HeapFileScan.Mark} {status : Status}
      (call : Flat.run (s.resetScan m) st = some ((status, t), st')) :
        Step name ⟨st, s, m⟩ .resetScan ⟨st', t, m⟩
  | scanNext {st st' : Flat} {s t : HeapFileScan} {m : HeapFileScan.Mark} {status : Status}
      (call : Returns Flat.handle (HeapFileScan.scanNext · s) st ((status, t), st')) :
      Step name ⟨st, s, m⟩ .scanNext ⟨st', t, m⟩
  | getRecord {st st' : Flat} {s : HeapFileScan} {m : HeapFileScan.Mark}
      {result : Except Status (List UInt8)}
      (call : Flat.run s.getRecord st = some (result, st')) :
        Step name ⟨st, s, m⟩ .getRecord ⟨st', s, m⟩
  | getRecordAt {st st' : Flat} {s : HeapFileScan} {h : HeapFile} {m : HeapFileScan.Mark} {rid : RID}
      {result : Except Status (List UInt8)}
      (call : Flat.run (s.toHeapFile.getRecord rid) st = some ((result, h), st')) :
      Step name ⟨st, s, m⟩ (.getRecordAt rid) ⟨st', { s with toHeapFile := h }, m⟩
  | deleteRecord {st st' : Flat} {s t : HeapFileScan} {m : HeapFileScan.Mark} {status : Status}
      (call : Flat.run s.deleteRecord st = some ((status, t), st')) :
        Step name ⟨st, s, m⟩ .deleteRecord ⟨st', t, m⟩
  | markDirty {st : Flat} {s : HeapFileScan} {m : HeapFileScan.Mark} :
      Step name ⟨st, s, m⟩ .markDirty ⟨st, s.markDirty, m⟩
  | reopen {st st' st'' : Flat} {s t : HeapFileScan} {m m' : HeapFileScan.Mark}
      (close : Flat.run s.delete st = some ((), st'))
      (new : Flat.run (HeapFileScan.new name) st' = some (.ok t, st'')) :
        Step name ⟨st, s, m⟩ .reopen ⟨st'', t, m'⟩

/-- A call of `deleteRecord` finds the current record in the file. -/
def Safe (name : Name) (w : Counts) (a : Action) : Prop := a = .deleteRecord →
    w.scan.Current w.storage name

def SafeStep (name : Name) (w : Counts) (a : Action) (w' : Counts) : Prop := Step name w a w' ∧
    Safe name w a

def Start (name : Name) (w : Counts) : Prop :=
  name ≠ [] ∧ ∃ st f hdr chain, st.files name = some f ∧ Heap f hdr chain ∧
    Flat.run (HeapFileScan.new name) st = some (.ok w.scan, w.storage)

/-- `getRecCnt` tells how many slots of the pages of the file are in use. -/
def Exact (name : Name) (w : Counts) : Prop :=
  ∃ f hdr pages, w.storage.files name = some f ∧ f.page f.firstPage = .header hdr ∧
    Follows f hdr.firstPage (pages.map Prod.fst) ∧ (∀ n p, (n, p) ∈ pages → f.page n = .data p) ∧
    Flat.run w.scan.getRecCnt w.storage = some (((Chain.entries pages).length : Int), w.storage)

structure Invariant (name : Name) (w : Counts) : Prop where
  named : name ≠ []
  file : ∃ f hdr chain, w.storage.files name = some f ∧ Heap f hdr chain ∧ w.scan.filePtr = name ∧
    w.scan.headerPageNo = f.firstPage

variable {name : Name} {w w' : Counts} {a : Action}

theorem Start.invariant (start : Start name w) : Invariant name w := by
  obtain ⟨named, st, f, hdr, chain, there, heap, new⟩ := start
  obtain ⟨s, run, _, _, _, _, _, _, _, opened, _⟩ := HeapFileScan.new_spec heap there named
  rw [run] at new
  obtain ⟨same, storage⟩ := Prod.mk.inj (Option.some.inj new)
  cases same
  exact ⟨named, f, hdr, chain, by rw [← storage]; exact there, heap, opened.file, opened.header⟩

/-- Only `deleteRecord` changes the count, and it is safe only on a record. -/
theorem Step.invariant (inv : Invariant name w) (step : Step name w a w') (safe : Safe name w a) :
    Invariant name w' := by
  obtain ⟨named, f, hdr, chain, there, heap, file, header⟩ := inv
  have kept {st st' : Flat} {s t : HeapFileScan} {m : HeapFileScan.Mark} (was : st.files name = some f)
      (file : s.filePtr = name) (header : s.headerPageNo = f.firstPage)
      (reads : st'.files = st.files ∧ s.toHeapFile.SameFile t.toHeapFile) :
        Invariant name ⟨st', t, m⟩ :=
    ⟨named, f, hdr, chain, by rw [← was]; exact congrFun reads.1 name, heap, reads.2.1.trans file,
      reads.2.2.trans header⟩
  cases step with
  | @startScan st s m filter =>
    refine kept there file header ⟨rfl, ?_⟩
    cases filter with
    | none => exact ⟨rfl, rfl⟩
    | some φ =>
      simp only [HeapFileScan.startScan]
      split <;> exact ⟨rfl, rfl⟩
  | endScan call =>
    have reads := files_of_unwritten (HeapFileScan.endScan_reads _) call
    exact kept there file header reads
  | markScan => exact ⟨named, f, hdr, chain, there, heap, file, header⟩
  | resetScan call =>
    have reads := files_of_unwritten (HeapFileScan.resetScan_reads ..) call
    exact kept there file header reads
  | scanNext call =>
    obtain ⟨fuel, call⟩ := call
    have reads := files_of_unwritten (HeapFileScan.scanNext_reads ..) (call fuel (Nat.le_refl fuel))
    exact kept there file header reads
  | getRecord call =>
    exact kept there file header ⟨(files_of_unwritten (HeapFileScan.getRecord_reads _) call).1,
      rfl, rfl⟩
  | getRecordAt call =>
    have reads := files_of_unwritten (HeapFileScan.getRecordAt_reads ..) call
    exact kept there file header reads
  | @deleteRecord st _ s _ _ _ call =>
    obtain ⟨pre, n, p, post, rfl, page, live⟩ := (safe rfl).place heap there
    obtain ⟨q, g, run, _, heap', first⟩ :=
      HeapFileScan.deleteRecord_unbinds heap there file header page live
    rw [run] at call
    cases call
    exact ⟨named, g, _, _, Flat.files_put st name g, heap', file, header.trans first.symm⟩
  | markDirty => exact ⟨named, f, hdr, chain, there, heap, file, header⟩
  | @reopen st st' _ _ _ _ _ close new =>
    have there' : st'.files name = some f := by
      rw [(files_of_unwritten (HeapFileScan.delete_reads _) close).1]
      exact there
    exact Start.invariant ⟨named, st', f, hdr, chain, there', heap, new⟩

theorem Invariant.exact (inv : Invariant name w) : Exact name w := by
  obtain ⟨_, f, hdr, chain, there, heap, file, header⟩ := inv
  refine ⟨f, hdr, chain, there, heap.header, heap.follows, fun n p member =>
    (heap.pages n p member).1, ?_⟩
  have load : Flat.run w.scan.headerPage w.storage = some (hdr, w.storage) := by
    rw [HeapFile.headerPage, file, header]
    exact Flat.run_header there heap.header
  rw [HeapFile.getRecCnt, Flat.run, Program.run_bind_of _ _ load, heap.recCnt]
  rfl

/-- As long as `deleteRecord` is called on records that are there, the count is
exact after every call. -/
theorem recCnt_exact (reached : Reachable (Start name) (SafeStep name) w) : Exact name w :=
  (reached.invariant (fun _ => Start.invariant)
    (fun _ _ _ inv step => step.1.invariant inv step.2)).exact

/-- Two records, of which the first is deleted. -/
theorem recCnt_exact_deleted : ∃ w, Flat.run w.scan.getRecCnt w.storage = some (1, w.storage) ∧
    Exact [97] w := by
  have reached : Reachable (Sessions.Created [97]) (Sessions.Step [97]) _ := .next (a := .closeInsert)
    (.next (a := .insertRecord [8]) (.next (a := .insertRecord [7, 7]) (.next (a := .openInsert)
      (.initial (s := ⟨_, .idle, fun _ => none⟩) ⟨.empty, rfl, rfl, rfl⟩) (.openInsert rfl))
      (.insertRecord (by decide) (by decide) rfl)) (.insertRecord (by decide) (by decide) rfl))
        (.closeInsert rfl)
  obtain ⟨named, f, hdr, chain, there, heap, lists, _⟩ :=
    reached.invariant (fun _ => Sessions.Created.invariant) (fun _ _ _ inv step => step.invariant inv)
  have start : Start [97] ⟨_, _, ⟨0, nullRid⟩⟩ := ⟨named, _, f, hdr, chain, there, heap, rfl⟩
  have next : Reachable (Start [97]) (SafeStep [97]) _ :=
    .next (a := .scanNext) (.initial start) ⟨.scanNext ((HeapFileScan.scanNext_steady _).returns
      (show Flat.run (HeapFileScan.scanNext 2 _) _ = some ((_, _), _) from rfl)), fun other => by
        cases other⟩
  exact ⟨_, rfl, recCnt_exact (.next (a := .deleteRecord) next ⟨.deleteRecord rfl, fun _ =>
    ⟨f, hdr, chain, 2, [7, 7], there, heap, rfl, (lists.mem_iff ⟨2, 0⟩ [7, 7]).mp rfl⟩⟩)⟩

/-- The only record is deleted twice. The second call fails and counts it again. -/
theorem deleted_twice : ∃ w, Reachable (Start [97]) (Step [97]) w ∧
    Flat.run w.scan.getRecCnt w.storage = some (-1, w.storage) ∧ ¬ Exact [97] w := by
  have reached : Reachable (Sessions.Created [97]) (Sessions.Step [97]) _ := .next (a := .closeInsert)
    (.next (a := .insertRecord [7, 7]) (.next (a := .openInsert)
      (.initial (s := ⟨_, .idle, fun _ => none⟩) ⟨.empty, rfl, rfl, rfl⟩) (.openInsert rfl))
      (.insertRecord (by decide) (by decide) rfl)) (.closeInsert rfl)
  obtain ⟨named, f, hdr, chain, there, heap, _, _⟩ :=
    reached.invariant (fun _ => Sessions.Created.invariant) (fun _ _ _ inv step => step.invariant inv)
  have start : Start [97] ⟨_, _, ⟨0, nullRid⟩⟩ := ⟨named, _, f, hdr, chain, there, heap, rfl⟩
  have next : Reachable (Start [97]) (Step [97]) _ :=
    .next (a := .scanNext) (.initial start) (.scanNext ((HeapFileScan.scanNext_steady _).returns
      (show Flat.run (HeapFileScan.scanNext 2 _) _ = some ((_, _), _) from rfl)))
  refine ⟨_, .next (a := .deleteRecord) (.next (a := .deleteRecord) next (.deleteRecord rfl))
    (.deleteRecord rfl), rfl, ?_⟩
  rintro ⟨_, _, pages, _, _, _, _, count⟩
  have same : (-1 : Int) = (Chain.entries pages).length := congrArg Prod.fst (Option.some.inj count)
  omega

end Counts
end Minirel
