import Minirel.HeapFile.Contract
import Minirel.HeapFile.Refinement

/-! Deleting while scanning: which records go, and that every page written to is
released as dirty. -/
namespace Minirel
open Transition Program

namespace HeapFileScan

/-- `while (scanNext(rid) == OK) deleteRecord();` -/
def deleteLoop : Nat → HeapFileScan → Prog (Status × HeapFileScan)
  | 0, _ => .halt
  | fuel + 1, s => do
    let (status, s) ← s.scanNext fuel
    if status ≠ .ok then return (status, s)
    let (_, s) ← s.deleteRecord
    deleteLoop fuel s

def deleteMatching (name : Name) (filter : Option Filter) (fuel : Nat) : Prog Status := do
  match ← HeapFileScan.new name with
  | .error status => return status
  | .ok s =>
    let (_, s) := s.startScan filter
    let (status, s) ← deleteLoop fuel s
    s.delete
    return status

/-! The records. -/

section records
variable {st : Flat} {name : Name} {f : FlatFile} {hdr : FileHdrPage} {chain : Chain}
    {s : HeapFileScan}
  {records : List Entry}

/-- The loop deletes every record that the scan has ahead. -/
theorem deleteLoop_spec (heap : Heap f hdr chain) (there : st.files name = some f)
    (ahead : s.Ahead name f chain records) :
    ∃ t g hdr' chain', Returns Flat.handle (deleteLoop · s) st ((.fileEof, t), st.put name g) ∧
      Heap g hdr' chain' ∧ t.Ahead name g chain' [] ∧
        chain'.entries = chain.entries.filter (· ∉ records) := by
  -- along the records ahead: each round deletes the first of them
  induction records generalizing s st f hdr chain with
  | nil =>
    obtain ⟨t, eof, _, ended⟩ := ahead.eof heap there
    refine ⟨t, f, hdr, chain, ?_, heap, ended, by simp⟩
    rw [Flat.put_self there]
    exact .round (.bind eof (.of_run rfl)) (fun _ => rfl)
  | cons e records ih =>
    obtain ⟨t, next, _, stands⟩ := ahead.next heap there
    obtain ⟨u, g, hdr', chain', front, back, delete, _, heap', ahead', before, after⟩ :=
      stands.deleteRecord heap there
    obtain ⟨v, g', hdr'', chain'', rest, heap'', ended, list⟩ :=
      ih heap' (Flat.files_put st name g) ahead'
    refine ⟨v, g', hdr'', chain'', ?_, heap'', ended, ?_⟩
    · rw [Flat.put_put] at rest
      exact .round (.bind next (.after delete rest)) (fun _ => rfl)
    · have distinct := heap.entries_nodup.of_map
      rw [before, List.nodup_middle, List.nodup_cons] at distinct
      have same : ∀ e' ∈ front ++ back, decide (e' ∉ records) = decide (e' ∉ e :: records) :=
        fun e' member => by
        have apart : e' ≠ e := fun same => distinct.1 (same ▸ member)
        simp [apart]
      rw [list, after, before, List.filter_congr same, List.filter_append, List.filter_append,
        List.filter_cons_of_neg (by simp)]

/-- The records that do not match stay, where they were. -/
theorem deleteMatching_spec (heap : Heap f hdr chain) (there : st.files name = some f)
    (named : name ≠ []) {filter : Option Filter}
    (accepted : ∀ φ, filter = some φ → φ.accepted = true) :
    ∃ g hdr' chain', Returns Flat.handle (deleteMatching name filter) st (.fileEof, st.put name g) ∧
      Heap g hdr' chain' ∧
      chain'.entries = chain.entries.filter fun e => !filter.all (·.matchRec e.2) := by
  obtain ⟨s, new, fresh, ahead⟩ := new_ahead heap there named
  have started : ∃ t, (s.startScan filter).2 = t ∧
      t.Ahead name f chain (chain.entries.filter fun e => filter.all (·.matchRec e.2)) := by
    cases filter with
    | none =>
      have same : (s.startScan none).2 = s := by simp [startScan, ← fresh]
      exact ⟨s, same, by simpa using ahead⟩
    | some φ =>
      obtain ⟨t, start, _, ahead'⟩ := ahead.startScan fresh (accepted φ rfl)
      exact ⟨t, by rw [start], by simpa using ahead'⟩
  obtain ⟨t, start, ahead'⟩ := started
  obtain ⟨u, g, hdr', chain', loop, heap', ended, list⟩ :=
    deleteLoop_spec heap (show (st.opened name).files name = some f from there) ahead'
  have isOpen : ((st.opened name).put name g).openCnt name ≠ 0 := by simp
  refine ⟨g, hdr', chain', ?_, heap', ?_⟩
  · refine .after new ?_
    simp only [start]
    refine .bind loop (.after (delete_spec ended.file isOpen) (.of_run ?_))
    rw [Flat.closed_put, Flat.closed_opened]
    rfl
  · rw [list]
    refine List.filter_congr fun e member => ?_
    simp [List.mem_filter, member]

end records

/-! The pages. -/

def unmarked : Contract StorageCall.Reply (Finset (Name × Int)) where
  admits
    | .unPinPage _ _ _, _, status => status = .ok
    | _, _, _ => True
  next
    | .store file pageNo _, pages, _ => insert (file, pageNo) pages
    | .unPinPage file pageNo true, pages, _ => pages.erase (file, pageNo)
    | _, pages, _ => pages

structure Owes (h : HeapFile) (pages : Finset (Name × Int)) : Prop where
  current : h.curPage = none ∨ h.curPage = some h.curPageNo
  pages : ∀ page ∈ pages, page = (h.filePtr, h.headerPageNo) ∧ h.hdrDirtyFlag = true ∨
    page = (h.filePtr, h.curPageNo) ∧ h.curPage ≠ none ∧ h.curDirtyFlag = true

/-- Only the header page is unmarked, if its flag is set. -/
def OwesHeader (file : Name) (headerPageNo : Int) (dirty : Bool) (pages : Finset (Name × Int)) :
    Prop :=
  ∀ page ∈ pages, page = (file, headerPageNo) ∧ dirty = true

section owes
variable {h : HeapFile} {s : HeapFileScan} {pages : Finset (Name × Int)}

theorem OwesHeader.owes (owes : OwesHeader h.filePtr h.headerPageNo h.hdrDirtyFlag pages)
    (current : h.curPage = none ∨ h.curPage = some h.curPageNo) : Owes h pages :=
  ⟨current, fun page member => .inl (owes page member)⟩

/-- Releasing the current page settles what is owed for it. -/
theorem Owes.release (owes : Owes h pages) (status : Status) :
    OwesHeader h.filePtr h.headerPageNo h.hdrDirtyFlag
      (unmarked.next (.unPinPage h.filePtr h.curPageNo h.curDirtyFlag) pages status) := by
  intro page member
  cases dirty : h.curDirtyFlag with
  | true =>
    rw [dirty] at member
    obtain ⟨apart, member⟩ := Finset.mem_erase.mp member
    exact (owes.pages page member).resolve_right fun other => apart other.1
  | false =>
    rw [dirty] at member
    exact (owes.pages page member).resolve_right fun other => by simp [dirty] at other

theorem OwesHeader.release {file : Name} {headerPageNo : Int} {dirty : Bool}
    (owes : OwesHeader file headerPageNo dirty pages) (status : Status) :
    unmarked.next (.unPinPage file headerPageNo dirty) pages status = ∅ := by
  rw [Finset.eq_empty_iff_forall_notMem]
  intro page member
  cases dirty with
  | true =>
    obtain ⟨apart, member⟩ := Finset.mem_erase.mp member
    exact apart (owes page member).1
  | false => cases (owes page member).2

theorem Owes.header (owes : Owes h pages) (unset : h.curPage = none) :
    OwesHeader h.filePtr h.headerPageNo h.hdrDirtyFlag pages :=
  fun page member => (owes.pages page member).resolve_right fun other => other.2.1 unset

theorem endScan_owes (owes : Owes s.toHeapFile pages) :
    s.endScan.Ensures unmarked pages (fun r pages' => Owes r.2.toHeapFile pages') := by
  simp only [endScan, ensures_ite, ensures_bind, ensures_pure, Storage.unPinPage, ensures_perform]
  exact ⟨fun _ status _ => OwesHeader.owes (owes.release status) (.inl rfl), fun _ => owes⟩

theorem delete_settles (owes : Owes h pages) :
    h.delete.Ensures unmarked pages (fun _ pages' => pages' = ∅) := by
  simp only [HeapFile.delete, ensures_ite, ensures_bind, ensures_pure, Storage.unPinPage,
    Storage.closeFile, ensures_perform]
  exact ⟨fun _ status _ status' _ _ _ => (owes.release status).release status',
    fun unset status _ _ _ => (owes.header (not_not.mp unset)).release status⟩

theorem nextPages_owes (fuel : Nat) (owes : Owes s.toHeapFile pages) :
    (nextPages fuel s).Ensures unmarked pages (fun r pages' => Owes r.2.toHeapFile pages') := by
  induction fuel generalizing s pages with
  | zero => trivial
  | succ fuel ih =>
    simp only [nextPages, ensures_bind, ensures_ite, ensures_pure]
    refine HeapFile.page_ensures (fun _ _ => rfl) fun page _ => ⟨fun _ => owes, fun _ status _ => ?_⟩
    have header := owes.release status
    refine ⟨fun _ => OwesHeader.owes header (.inl rfl), fun _ status' _ => ⟨fun _ => ?_, fun _ => ?_⟩⟩
    · exact OwesHeader.owes header (.inl rfl)
    · refine HeapFile.page_ensures (fun _ _ => rfl) fun page _ => ?_
      cases page.firstRecord with
      | ok rid => exact OwesHeader.owes header (.inr rfl)
      | error => exact ih (OwesHeader.owes header (.inr rfl))

theorem Owes.curRec (owes : Owes h pages) (rid : RID) : Owes { h with curRec := rid } pages :=
  ⟨owes.current, owes.pages⟩

theorem advance_owes (fuel : Nat) (owes : Owes s.toHeapFile pages) :
    (advance fuel s).Ensures unmarked pages (fun r pages' => Owes r.2.toHeapFile pages') := by
  simp only [advance, ensures_bind]
  refine HeapFile.page_ensures (fun _ _ => rfl) fun page _ => ?_
  cases page.nextRecord s.curRec with
  | ok rid => exact owes.curRec rid
  | error => exact nextPages_owes fuel owes

theorem scanLoop_owes (fuel : Nat) (owes : Owes s.toHeapFile pages) :
    (scanLoop fuel s).Ensures unmarked pages (fun r pages' => Owes r.2.toHeapFile pages') := by
  induction fuel generalizing s pages with
  | zero => trivial
  | succ fuel ih =>
    simp only [scanLoop, ensures_bind, ensures_ite]
    refine (advance_owes fuel owes).mono fun r pages' owes' => ⟨fun _ => owes', fun _ => ?_⟩
    refine HeapFile.page_ensures (fun _ _ => rfl) fun page _ => ?_
    cases page.getRecord r.2.curRec with
    | error => exact owes'
    | ok rec =>
      simp only [ensures_ite]
      exact ⟨fun _ => owes', fun _ => ih owes'⟩

theorem firstPage_owes (owes : Owes s.toHeapFile pages) (unset : s.curPage = none) :
    s.firstPage.Ensures unmarked pages (fun r pages' => Owes r.2.toHeapFile pages') := by
  have header := owes.header unset
  simp only [firstPage, ensures_bind, ensures_ite, ensures_pure]
  refine Storage.header_ensures (fun _ => rfl) fun hdr =>
    ⟨fun _ => OwesHeader.owes header (.inl unset), ?_⟩
  refine fun _ status _ => ⟨fun _ => OwesHeader.owes header (.inl unset), fun _ => ?_⟩
  have owes' : Owes { s.toHeapFile with
      curPage := some hdr.firstPage, curPageNo := hdr.firstPage, curDirtyFlag := false, curRec :=
        nullRid } pages :=
    OwesHeader.owes header (.inr rfl)
  refine HeapFile.page_ensures (fun _ _ => rfl) fun page _ => ?_
  cases page.firstRecord with
  | error =>
    simp only [ensures_bind, ensures_ite, ensures_pure]
    exact fun status _ => ⟨fun _ => OwesHeader.owes (owes'.release status) (.inr rfl),
      fun _ => OwesHeader.owes (owes'.release status) (.inl rfl)⟩
  | ok rid =>
    simp only [ensures_bind]
    refine HeapFile.page_ensures (fun _ _ => rfl) fun page _ => ?_
    cases page.getRecord rid <;> exact owes'.curRec rid

theorem scanNext_owes (fuel : Nat) (owes : Owes s.toHeapFile pages) :
    (scanNext fuel s).Ensures unmarked pages (fun r pages' => Owes r.2.toHeapFile pages') := by
  simp only [scanNext, ensures_ite, ensures_bind, ensures_pure]
  refine ⟨fun _ => owes, fun _ => ⟨fun unset => ?_, fun _ => scanLoop_owes fuel owes⟩⟩
  refine (firstPage_owes owes unset).mono fun r pages' owes' => ?_
  obtain ⟨status, t⟩ := r
  cases status with
  | some status => exact owes'
  | none => exact scanLoop_owes fuel owes'

theorem deleteRecord_owes (owes : Owes s.toHeapFile pages) :
    s.deleteRecord.Ensures unmarked pages (fun r pages' => Owes r.2.toHeapFile pages') := by
  simp only [deleteRecord, ensures_bind]
  refine HeapFile.page_ensures (fun _ _ => rfl) fun page set => ?_
  have current : s.curPage = some s.curPageNo := owes.current.resolve_left set
  have within : ∀ page ∈ pages, page = (s.filePtr, s.headerPageNo) ∨ page = (s.filePtr, s.curPageNo) :=
    fun page member => (owes.pages page member).imp And.left And.left
  -- the header is written as well, and both flags are set
  have finish : ∀ pages',
    (∀ page ∈ pages', page = (s.filePtr, s.headerPageNo) ∨ page = (s.filePtr, s.curPageNo)) →
      s.headerPage.Ensures unmarked pages' fun hdr g =>
        (s.setHeaderPage { hdr with recCnt := hdr.recCnt - 1 }).Ensures unmarked g fun _ g' =>
          Owes { s.toHeapFile with curDirtyFlag := true, hdrDirtyFlag := true } g' := by
    intro pages' within
    refine Storage.header_ensures (fun _ => rfl) fun hdr _ _ => ⟨.inr current, fun page member => ?_⟩
    rcases Finset.mem_insert.mp member with rfl | member
    · exact .inl ⟨rfl, rfl⟩
    · exact (within page member).imp (fun same => ⟨same, rfl⟩) fun same => ⟨same, set, rfl⟩
  cases page.deleteRecord s.curRec with
  | error status =>
    simp only [ensures_bind, ensures_pure]
    exact finish pages within
  | ok page' =>
    simp only [ensures_bind, ensures_pure]
    refine HeapFile.setPage_ensures fun n set' => finish _ fun page member => ?_
    rcases Finset.mem_insert.mp member with rfl | member
    · exact .inr (by rw [Option.some.inj (set'.symm.trans current)])
    · exact within page member

theorem deleteLoop_owes (fuel : Nat) (owes : Owes s.toHeapFile pages) :
    (deleteLoop fuel s).Ensures unmarked pages (fun r pages' => Owes r.2.toHeapFile pages') := by
  induction fuel generalizing s pages with
  | zero => trivial
  | succ fuel ih =>
    simp only [deleteLoop, ensures_bind, ensures_ite, ensures_pure]
    refine (scanNext_owes fuel owes).mono fun r pages' owes' => ⟨fun _ => owes', fun _ => ?_⟩
    exact (deleteRecord_owes owes').mono fun r pages' owes'' => ih owes''

theorem new_owes (name : Name) : (HeapFileScan.new name).Ensures unmarked ∅ (fun r pages' =>
    pages' = ∅ ∧ ∀ s, r = .ok s → s.curPage = none ∨ s.curPage = some s.curPageNo) := by
  simp only [HeapFileScan.new, HeapFile.new, ensures_bind, ensures_ite, ensures_pure, Storage.openFile,
    Storage.getFirstPage, ensures_perform]
  refine fun status _ => ⟨fun _ => ⟨rfl, fun _ other => by cases other⟩, fun _ reply _ => ?_⟩
  cases reply with
  | error => trivial
  | ok n =>
    simp only [ensures_bind, ensures_ite, ensures_pure, Storage.readPage, ensures_perform]
    refine fun status _ => ⟨fun _ => trivial, fun _ => ?_⟩
    refine Storage.header_ensures (fun _ => rfl) fun hdr status' _ => ⟨rfl, ?_⟩
    rintro s ⟨⟩
    by_cases read : status' = .ok
    · exact .inr (if_pos read)
    · exact .inl (if_neg read)

theorem Owes.startScan (owes : Owes s.toHeapFile pages) (filter : Option Filter) :
    Owes (s.startScan filter).2.toHeapFile pages := by
  cases filter with
  | none => exact owes
  | some filter =>
    simp only [HeapFileScan.startScan]
    split <;> exact owes

theorem deleteMatching_settles (name : Name) (filter : Option Filter) (fuel : Nat) :
    (deleteMatching name filter fuel).Ensures unmarked ∅ (fun _ pages' => pages' = ∅) := by
  simp only [deleteMatching, ensures_bind]
  refine (new_owes name).mono fun r pages' result => ?_
  obtain ⟨empty, current⟩ := result
  cases r with
  | error => exact empty
  | ok s =>
    have owes : Owes s.toHeapFile pages' := ⟨current s rfl, by simp [empty]⟩
    simp only [ensures_bind, ensures_pure, HeapFileScan.delete]
    refine (deleteLoop_owes fuel (owes.startScan filter)).mono fun r _ owes' => ?_
    exact (endScan_owes owes').mono fun r _ owes'' => delete_settles owes''

end owes
end HeapFileScan

namespace Sessions
variable {name : Name} {w : Sessions}

/-- The loop removes exactly the matching records. The others keep their
identifiers and bytes, the count drops by the number of those removed, and at
the end every page written to has been released as dirty. -/
theorem deleteMatching_exact (reached : Reachable (Created name) (Step name) w)
    {filter : Option Filter} (accepted : ∀ φ, filter = some φ → φ.accepted = true) :
    ∃ st' f f' hdr hdr', Returns (traced Flat.handle HeapFileScan.unmarked.next)
        (HeapFileScan.deleteMatching name filter) (w.storage, ∅) (.fileEof, st', ∅) ∧
      (w.storage.files name = some f ∧ f.page f.firstPage = .header hdr) ∧
      (st'.files name = some f' ∧ f'.page f'.firstPage = .header hdr') ∧
      Refines name ⟨st', .idle, fun rid => (w.live rid).filter fun b =>
        !filter.all (·.matchRec b)⟩ ∧
      ∃ removed : Finset RID,
        (∀ rid, rid ∈ removed ↔ ∃ b, w.live rid = some b ∧ filter.all (·.matchRec b) = true) ∧
          hdr'.recCnt = hdr.recCnt - removed.card := by
  obtain ⟨named, f, hdr, chain, there, heap, listed, _⟩ :=
    reached.invariant (fun _ => Created.invariant) (fun _ _ _ inv step => step.invariant inv)
  obtain ⟨g, hdr', chain', returns, heap', list⟩ :=
    HeapFileScan.deleteMatching_spec heap there named accepted
  have kept := listed.filter fun b => !filter.all (·.matchRec b)
  have gone := listed.filter fun b => filter.all (·.matchRec b)
  obtain ⟨removed, member, card⟩ := gone.card
  refine ⟨_, f, g, hdr, hdr', returns.traced ?_ (HeapFileScan.deleteMatching_settles name filter),
    ⟨there, heap.header⟩, ⟨Flat.files_put .., heap'.header⟩, ?_, removed, fun rid => ?_, ?_⟩
  · intro c s g reply t answer
    cases c <;> first | trivial | cases answer
    rfl
  · refine Invariant.refines ⟨named, g, hdr', chain', Flat.files_put .., heap', ?_, trivial⟩
    rw [list]
    exact kept
  · rw [member]
    simp [Option.filter_eq_none_iff]
  · have parts : chain.entries.length = removed.card + chain'.entries.length := by
      rw [card, list]
      exact List.length_eq_length_filter_add _
    rw [heap'.recCnt, heap.recCnt, parts]
    omega

/-- Of two records that were inserted one is deleted again, and the other is left. -/
theorem deleteMatching_exact_inserted : ∃ (w : Sessions) (st' : Flat)
    (live : RID → Option (List UInt8)),
      (w.live ⟨2, 0⟩ = some [7, 7] ∧ w.live ⟨2, 1⟩ = some [6, 6]) ∧
    Returns (traced Flat.handle HeapFileScan.unmarked.next)
      (HeapFileScan.deleteMatching [97] (some ⟨0, 2, .string, [7], .gt⟩)) (w.storage, ∅)
        (.fileEof, st', ∅) ∧
    Refines [97] ⟨st', .idle, live⟩ ∧ live ⟨2, 0⟩ = none ∧ live ⟨2, 1⟩ = some [6, 6] := by
  have reached : Reachable (Created [97]) (Step [97]) _ := .next (a := .closeInsert)
    (.next (a := .insertRecord [6, 6]) (.next (a := .insertRecord [7, 7]) (.next (a := .openInsert)
      (.initial (s := ⟨_, .idle, fun _ => none⟩) ⟨.empty, rfl, rfl, rfl⟩) (.openInsert rfl))
      (.insertRecord (by decide) (by decide) rfl)) (.insertRecord (by decide) (by decide) rfl))
        (.closeInsert rfl)
  obtain ⟨st', _, _, _, _, returns, _, _, refines, _⟩ :=
    @deleteMatching_exact [97] _ reached (some ⟨0, 2, .string, [7], .gt⟩) (by rintro _ ⟨⟩; decide)
  exact ⟨_, st', _, ⟨rfl, rfl⟩, returns, refines, rfl, rfl⟩

end Sessions
end Minirel
