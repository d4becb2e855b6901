import Minirel.HeapFile.Writers
import Minirel.HeapFile.Refinement

/-! Restarting a scan. After `endScan` a scan has no page, and `scanNext` takes
the first page of the file anew, but not as a new scan does: if that page has no
records, the file counts as empty and the scan as ended for good. -/
namespace Minirel
open Transition Program

def Chain.leading : Chain → List Entry
  | [] => []
  | (n, p) :: _ => onPage n p.entries

namespace HeapFileScan
variable {st : Flat} {name : Name} {f g : FlatFile} {hdr : FileHdrPage} {chain chain' : Chain}
    {s t : HeapFileScan}
  {filter : Option Filter} {todo : List Entry}

/-- `endScan` and `startScan`, and then the records up to the end. -/
def rescan (filter : Option Filter) (fuel : Nat) (s : HeapFileScan) : Prog (Status × List RID) := do
  let (_, s) ← s.endScan
  scanAll fuel (s.startScan filter).2

def freshScan (name : Name) (filter : Option Filter) (fuel : Nat) : Prog (Status × List RID) := do
  match ← HeapFileScan.new name with
  | .error status => return (status, [])
  | .ok s => scanAll fuel (s.startScan filter).2

def matching (filter : Option Filter) (records : List Entry) : List Entry :=
  records.filter fun e => filter.all (·.matchRec e.2)

/-- The parameters are those of a filter, or of none. -/
def Accepted (filter : Option Filter) : Prop := ∀ φ, filter = some φ → φ.accepted = true

theorem matchRec_eq (s : HeapFileScan) (b : List UInt8) :
    s.matchRec b = s.filter.all (·.matchRec b) := by
  unfold matchRec
  cases s.filter <;> rfl

theorem startScan_eq (s : HeapFileScan) (accepted : Accepted filter) :
    (s.startScan filter).2 = { s with filter := filter } := by
  cases filter with
  | none => rfl
  | some φ => simp only [startScan, accepted φ rfl, if_true]

structure Unset (s : HeapFileScan) (name : Name) (f : FlatFile) : Prop where
  file : s.filePtr = name
  header : s.headerPageNo = f.firstPage
  page : s.curPage = none

def Placed (s : HeapFileScan) (name : Name) (f : FlatFile) (chain : Chain) : Prop :=
  (∃ todo, s.At name f chain todo) ∨ s.Unset name f

inductive First (s : HeapFileScan) (name : Name) (f : FlatFile) (chain : Chain) :
    Option Status × HeapFileScan → Prop
  | empty (t : HeapFileScan) (none : chain.leading = []) (unset : t.Unset name f)
      (negative : t.curPageNo < 0) :
      First s name f chain (some .fileEof, t)
  | found (t : HeapFileScan) (rid : RID) (b : List UInt8) (rest : List Entry)
      (some : chain.leading ≠ [])
      (list : chain.entries = (rid, b) :: rest) (filter : t.filter = s.filter)
      (on : t.On name f chain rid b rest) :
      First s name f chain (if s.matchRec b then .some .ok else .none, t)

theorem Unset.firstPage (unset : s.Unset name f) (heap : Heap f hdr chain)
    (there : st.files name = some f) :
    ∃ result, Flat.run s.firstPage st = some (result, st) ∧ First s name f chain result := by
  obtain ⟨p, rest, rfl⟩ := heap.first_page
  obtain ⟨image, low, high, _, inv, number⟩ := heap.pages hdr.firstPage p List.mem_cons_self
  have header : Flat.run s.headerPage st = some (hdr, st) := by
    rw [HeapFile.headerPage, unset.file, unset.header]
    exact Flat.run_header there heap.header
  rw [HeapFileScan.firstPage, Flat.run, run_bind_of _ _ header]
  simp only [show ¬ hdr.firstPage = -1 by omega, if_false, unset.file]
  rw [run_bind_of _ _ (Flat.run_readPage there low high)]
  simp only [ne_eq, not_true_eq_false, if_false, HeapFile.page]
  rw [run_bind_of _ _ (Flat.run_page there image)]
  rcases Page.firstRecord_spec inv with ⟨empty, nothing⟩ | ⟨k, b, first, bound, list⟩
  · refine ⟨_, ?_, .empty { s with
      filePtr := name, curPage := none, curPageNo := -1, curDirtyFlag := false, curRec := nullRid }
      (by simp [Chain.leading, nothing, onPage]) ⟨rfl, unset.header, rfl⟩ (by simp)⟩
    rw [empty]
    simp only
    rw [run_bind_of _ _ (Flat.run_unPinPage ..)]
    rfl
  · refine ⟨_, ?_, .found { s with
      filePtr := name, curPage := some hdr.firstPage, curPageNo := hdr.firstPage, curDirtyFlag := false,
      curRec := ⟨hdr.firstPage, k⟩ } ⟨hdr.firstPage, k⟩ b
        (onPage hdr.firstPage (p.after k) ++ Chain.entries rest)
      (by simp [Chain.leading, list, onPage]) (by simp [list, onPage]) rfl
      ⟨rfl, [], p, rest, rfl, ⟨rfl, unset.header, rfl, rfl⟩, bound, rfl⟩⟩
    have found : p.getRecord ⟨hdr.firstPage, k⟩ = .ok b := Page.getRecord_spec inv bound
    rw [first, number]
    simp only
    rw [run_bind_of _ _ (Flat.run_page there image), found]
    rfl

inductive Begun (s : HeapFileScan) (name : Name) (f : FlatFile) (chain : Chain) :
    Status × HeapFileScan → Prop
  | missed (t : HeapFileScan) (none : s.curPageNo < 0 ∨ chain.leading = []) (unset : t.Unset name f)
      (negative : t.curPageNo < 0) : Begun s name f chain (.fileEof, t)
  | scanned (result : Status × HeapFileScan) (page : 0 ≤ s.curPageNo) (some : chain.leading ≠ [])
      (scanned : Scanned s name f chain chain.entries result) : Begun s name f chain result

theorem Unset.scanNext (unset : s.Unset name f) (heap : Heap f hdr chain)
    (there : st.files name = some f) :
    ∃ result, Returns Flat.handle (scanNext · s) st (result, st) ∧ Begun s name f chain result := by
  by_cases negative : s.curPageNo < 0
  · refine ⟨(.fileEof, s), ?_, .missed s (.inl negative) unset negative⟩
    simp only [HeapFileScan.scanNext, negative, if_true]
    exact .of_run rfl
  have page : 0 ≤ s.curPageNo := by omega
  simp only [HeapFileScan.scanNext, negative, unset.page, if_true, if_false]
  obtain ⟨_, run, first⟩ := unset.firstPage heap there
  cases first with
  | empty t none unset' negative' =>
    exact ⟨(.fileEof, t), .after run (.of_run rfl), .missed t (.inr none) unset' negative'⟩
  | found t rid b rest some list filter on =>
    cases hit : s.matchRec b with
    | true =>
      rw [hit] at run
      refine ⟨(.ok, t), .after run (.of_run rfl), .scanned _ page some ?_⟩
      exact .found t [] rid b rest filter list (by simp) hit on
    | false =>
      rw [hit] at run
      obtain ⟨result, loop, scanned⟩ := scanLoop_spec heap there on.at
      refine ⟨result, .after run loop, .scanned result page some ?_⟩
      rw [list]
      exact scanned.skip filter hit

/-- The rest of a scan whose next call is known. -/
theorem Scanned.scanAll {result : Status × HeapFileScan}
    (scanned : Scanned s name f chain todo result)
    (next : Returns Flat.handle (HeapFileScan.scanNext · s) st (result, st))
    (heap : Heap f hdr chain) (there : st.files name = some f) :
    Returns Flat.handle (scanAll · s) st ((.fileEof, (matching s.filter todo).map Prod.fst),
      st) := by
  simp only [matching, ← matchRec_eq]
  cases scanned with
  | eof t filter ended skipped =>
    rw [filter_skipped skipped]
    exact scanAll_of_rest (.round (.bind next (.of_run rfl)) (fun _ => rfl))
  | found t front rid b rest filter split skipped hit on =>
    obtain ⟨u, later, _⟩ := scanRest_spec heap there ⟨rest, on.at, rfl⟩
    rw [split, List.filter_append, filter_skipped skipped, List.nil_append, List.filter_cons, hit]
    refine scanAll_of_rest (t := u) (.round (.bind next (.bind later (.of_run ?_))) (fun _ => rfl))
    rw [on.cur, matchRec_congr filter]
    rfl

theorem Placed.endScan (placed : s.Placed name f chain) (heap : Heap f hdr chain) (st : Flat) :
    ∃ t, Flat.run s.endScan st = some ((.ok, t), st) ∧ t.Unset name f ∧
      (0 ≤ t.curPageNo ↔ 0 ≤ s.curPageNo) := by
  rcases placed with ⟨todo, _, pre, n, p, post, rfl, opened, _⟩ | unset
  · have low := heap.page_self.2.1
    refine ⟨{ s with curPage := none, curPageNo := 0, curDirtyFlag := false }, ?_,
      ⟨opened.file, opened.header, rfl⟩, by simp only [opened.number]; omega⟩
    rw [HeapFileScan.endScan, if_pos (by simp [opened.page]), Flat.run,
      run_bind_of _ _ (Flat.run_unPinPage ..)]
    rfl
  · refine ⟨s, ?_, unset, Iff.rfl⟩
    rw [HeapFileScan.endScan, if_neg (by simp [unset.page])]
    rfl

/-- A restarted scan returns what it should, or nothing. -/
theorem Placed.rescan (placed : s.Placed name f chain) (heap : Heap f hdr chain)
    (there : st.files name = some f) (accepted : Accepted filter) :
    Returns Flat.handle (HeapFileScan.rescan filter · s) st ((.fileEof,
      if 0 ≤ s.curPageNo ∧ chain.leading ≠ [] then (matching filter chain.entries).map Prod.fst
        else []), st) := by
  obtain ⟨t, ended, unset, page⟩ := placed.endScan heap st
  refine .after ended ?_
  simp only [startScan_eq t accepted]
  have unset' : HeapFileScan.Unset { t with filter := filter } name f :=
    ⟨unset.file, unset.header, unset.page⟩
  obtain ⟨_, next, begun⟩ := unset'.scanNext heap there
  cases begun with
  | missed u none =>
    rw [if_neg (by rw [← page]; rintro ⟨low, some⟩; exact none.elim (fun negative =>
      by simp only at negative; omega) some)]
    exact scanAll_of_rest (.round (.bind next (.of_run rfl)) (fun _ => rfl))
  | scanned _ low some scanned =>
    rw [if_pos ⟨page.mp low, some⟩]
    exact scanned.scanAll next heap there

/-- All records that match, in the order of the pages. -/
theorem freshScan_spec (heap : Heap f hdr chain) (there : st.files name = some f)
    (named : name ≠ []) (accepted : Accepted filter) :
    Returns Flat.handle (freshScan name filter) st
      ((.fileEof, (matching filter chain.entries).map Prod.fst), st.opened name) := by
  obtain ⟨s, new, _, here⟩ := new_spec heap there named
  refine .after new ?_
  simp only [startScan_eq s accepted]
  have ahead : HeapFileScan.Ahead { s with filter := filter } name f chain _ :=
    ⟨chain.entries, ⟨here.slot, here.place⟩, rfl⟩
  simp only [matchRec_eq] at ahead
  exact scanAll_spec heap there ahead

theorem Placed.scanNext (placed : s.Placed name f chain) (heap : Heap f hdr chain)
    (there : st.files name = some f) :
    ∃ status t, Returns Flat.handle (scanNext · s) st ((status, t), st) ∧
      t.Placed name f chain := by
  have scanned {result : Status × HeapFileScan} {todo : List Entry}
    (scanned : Scanned s name f chain todo result) :
      result.2.Placed name f chain := by
    cases scanned with
    | eof t _ ended => exact .inl ⟨_, ended⟩
    | found t _ _ _ _ _ _ _ _ on => exact .inl ⟨_, on.at⟩
  rcases placed with ⟨todo, here⟩ | unset
  · obtain ⟨_, next, after⟩ := scanNext_spec heap there here
    exact ⟨_, _, next, scanned after⟩
  · obtain ⟨_, next, begun⟩ := unset.scanNext heap there
    cases begun with
    | missed t _ unset' => exact ⟨_, _, next, .inr unset'⟩
    | scanned _ _ _ after => exact ⟨_, _, next, scanned after⟩

/-- The pages of the chain, or their numbers, may become more. -/
theorem Placed.congr (placed : s.Placed name f chain) (first : g.firstPage = f.firstPage)
    (more : chain.map Prod.fst ⊆ chain'.map Prod.fst) : s.Placed name g chain' := by
  rcases placed with ⟨todo, slot, pre, n, p, post, rfl, opened, _⟩ | unset
  · obtain ⟨⟨_, q⟩, member, rfl⟩ := List.mem_map.mp (more (by simp : n ∈ _))
    obtain ⟨pre', post', split⟩ := List.append_of_mem member
    exact .inl ⟨_, slot, pre', _, q, post', split, opened.congr first, rfl⟩
  · exact .inr ⟨unset.file, unset.header.trans first.symm, unset.page⟩

end HeapFileScan

theorem Extended.numbers {chain chain' : Chain} {rid : RID} {bytes : List UInt8}
    (extended : Extended chain rid bytes chain') : chain.map Prod.fst ⊆ chain'.map Prod.fst := by
  cases extended with
  | here => simp
  | behind => exact fun n member => by simp at member ⊢; tauto

structure Rescans where
  storage : Flat
  scan : HeapFileScan

namespace Rescans
open HeapFileScan

inductive Action
  | insertRecord (bytes : List UInt8)
  | scanNext
  | deleteRecord
  | restart (filter : Option Filter)

/-- The calls of the client of the scan, and insertions by others. -/
inductive Step (name : Name) : Rescans → Action → Rescans → Prop
  | insertRecord {st st1 st2 st3 : Flat} {s : HeapFileScan} {h h' : HeapFile} {bytes : List UInt8}
      {rid : RID}
      (nonempty : 0 < bytes.length) (small : bytes.length ≤ 1000)
      (new : Flat.run (InsertFileScan.new name) st = some (.ok h, st1))
      (insert : Flat.run (InsertFileScan.insertRecord h (.ofBytes bytes)) st1 =
        some ((.ok rid, h'), st2))
      (delete : Flat.run (InsertFileScan.delete h') st2 = some ((), st3)) :
      Step name ⟨st, s⟩ (.insertRecord bytes) ⟨st3, s⟩
  | scanNext {st st' : Flat} {s t : HeapFileScan} {status : Status}
      (call : Returns Flat.handle (HeapFileScan.scanNext · s) st ((status, t), st')) :
      Step name ⟨st, s⟩ .scanNext ⟨st', t⟩
  | deleteRecord {st st' : Flat} {s t : HeapFileScan} {status : Status} (current : s.Current st name)
      (call : Flat.run s.deleteRecord st = some ((status, t), st')) :
        Step name ⟨st, s⟩ .deleteRecord ⟨st', t⟩
  | restart {st st' : Flat} {s t : HeapFileScan} {status : Status} {filter : Option Filter}
      (call : Flat.run s.endScan st = some ((status, t), st')) :
      Step name ⟨st, s⟩ (.restart filter) ⟨st', (t.startScan filter).2⟩

def Start (name : Name) (w : Rescans) : Prop :=
  name ≠ [] ∧ ∃ st f hdr chain, st.files name = some f ∧ Heap f hdr chain ∧
    Flat.run (HeapFileScan.new name) st = some (.ok w.scan, w.storage)

/-- A restart makes the scan return the records that a new scan returns. -/
def Restarts (name : Name) (w : Rescans) (filter : Option Filter) : Prop :=
  ∃ rids st, Returns Flat.handle (rescan filter · w.scan) w.storage ((.fileEof, rids), w.storage) ∧
    Returns Flat.handle (freshScan name filter) w.storage ((.fileEof, rids), st)

/-- The scan did not find the first page empty and the page is not empty, or
there is no record to return. -/
def Restartable (name : Name) (w : Rescans) (filter : Option Filter) : Prop :=
  ∃ f hdr chain, w.storage.files name = some f ∧ Heap f hdr chain ∧
    (0 ≤ w.scan.curPageNo ∧ chain.leading ≠ [] ∨ matching filter chain.entries = [])

structure Invariant (name : Name) (w : Rescans) : Prop where
  named : name ≠ []
  file : ∃ f hdr chain, w.storage.files name = some f ∧ Heap f hdr chain ∧ w.scan.Placed name f chain

variable {name : Name} {w w' : Rescans} {filter : Option Filter}

theorem Start.invariant (start : Start name w) : Invariant name w := by
  obtain ⟨storage, scan⟩ := w
  obtain ⟨named, st, f, hdr, chain, there, heap, new⟩ := start
  obtain ⟨s, run, _, here⟩ := new_spec heap there named
  rw [run] at new
  cases new
  exact ⟨named, f, hdr, chain, there, heap, .inl ⟨_, here⟩⟩

theorem Step.invariant {a : Action} (inv : Invariant name w) (step : Step name w a w') :
    Invariant name w' := by
  obtain ⟨named, f, hdr, chain, there, heap, placed⟩ := inv
  refine ⟨named, ?_⟩
  cases step with
  | @insertRecord st _ _ _ s h h' bytes rid nonempty small new insert delete =>
    obtain ⟨_, run, opened⟩ := InsertFileScan.new_spec heap there named
    rw [run] at new
    cases new
    have there' : (st.opened name).files name = some f := there
    obtain ⟨rid, _, g, hdr', chain', run, heap', opened', first, extended⟩ :=
      InsertFileScan.insertRecord_extends heap there' opened nonempty small
    rw [run] at insert
    cases insert
    rw [InsertFileScan.delete_spec opened'.file (by simp)] at delete
    cases delete
    exact ⟨g, hdr', chain', Flat.files_put st name g, heap', placed.congr first extended.numbers⟩
  | scanNext call =>
    obtain ⟨_, _, run, placed'⟩ := placed.scanNext heap there
    cases run.unique call
    exact ⟨f, hdr, chain, there, heap, placed'⟩
  | @deleteRecord st _ s _ _ current call =>
    obtain ⟨pre, n, p, post, rfl, page, live⟩ := current.place heap there
    rcases placed with ⟨_, slot, _, _, _, _, _, opened, _⟩ | unset
    · cases page.symm.trans opened.page
      obtain ⟨q, g, run, _, heap', first⟩ :=
        deleteRecord_unbinds heap there opened.file opened.header page live
      rw [run] at call
      cases call
      refine ⟨g, _, _, Flat.files_put st name g, heap', .inl ⟨_, slot, pre, n, q, post, rfl, ?_, rfl⟩⟩
      have opened' := opened.congr first
      exact ⟨opened'.file, opened'.header, opened'.page, opened'.number⟩
    · cases unset.page.symm.trans page
  | @restart st _ s _ _ filter call =>
    obtain ⟨t, run, unset, _⟩ := placed.endScan heap st
    rw [run] at call
    cases call
    refine ⟨f, hdr, chain, there, heap, .inr ?_⟩
    cases filter with
    | none => exact ⟨unset.file, unset.header, unset.page⟩
    | some φ =>
      simp only [startScan]
      split
      · exact ⟨unset.file, unset.header, unset.page⟩
      · exact unset

theorem Invariant.restarts_iff (inv : Invariant name w) (accepted : Accepted filter) :
    Restarts name w filter ↔ Restartable name w filter := by
  obtain ⟨named, f, hdr, chain, there, heap, placed⟩ := inv
  have again := placed.rescan heap there accepted
  have fresh := freshScan_spec heap there named accepted
  constructor
  · rintro ⟨rids, st, again', fresh'⟩
    refine ⟨f, hdr, chain, there, heap, ?_⟩
    by_cases good : 0 ≤ w.scan.curPageNo ∧ chain.leading ≠ []
    · exact .inl good
    · rw [if_neg good] at again
      cases again.unique again'
      have same := congrArg (·.1.2) (fresh.unique fresh')
      exact .inr (List.map_eq_nil_iff.mp same)
  · rintro ⟨f', hdr', chain', there', heap', holds⟩
    rw [there] at there'
    cases there'
    cases heap.unique heap'
    refine ⟨_, w.storage.opened name, again, ?_⟩
    split
    next => exact fresh
    next bad =>
      rw [holds.resolve_left bad] at fresh
      exact fresh

/-- Whatever was done with the scan before, restarts included, a restart makes it
like a new one under exactly this condition. -/
theorem restarts_iff_restartable (reached : Reachable (Start name) (Step name) w)
    (accepted : Accepted filter) :
    Restarts name w filter ↔ Restartable name w filter :=
  (reached.invariant (fun _ => Start.invariant)
    (fun _ _ _ inv step => step.invariant inv)).restarts_iff accepted

theorem filled : ∃ st s f hdr p bytes, Reachable (Start [97]) (Step [97]) ⟨st, s⟩ ∧
    st.files [97] = some f ∧ Heap f hdr [(2, p)] ∧ f.numPages = 3 ∧ bytes.length = 1000 ∧
      Single p bytes ∧ s.filter = none ∧
    s.curRec = nullRid ∧ s.toHeapFile.Opened [97] f 2 := by
  obtain ⟨bytes, len⟩ : ∃ bytes : List UInt8, bytes.length = 1000 := ⟨_, List.length_replicate (a := 1)⟩
  have named : ([97] : Name) ≠ [] := by decide
  have heap : Heap (newFile .empty) ⟨2, 2, 1, 0⟩ ([] ++ [(2, firstDataPage .empty)]) :=
    newFile_heap .empty
  have there := Flat.files_put .empty [97] (newFile .empty)
  have new := HeapFile.new_spec heap there named
  have scan : Flat.run (HeapFileScan.new [97]) (Flat.empty.put [97] (newFile .empty)) =
      some (.ok ⟨⟨[97], (newFile .empty).firstPage, false, some 2, 2, false, nullRid⟩, none⟩,
        (Flat.empty.put [97] (newFile .empty)).opened [97]) := by
    rw [HeapFileScan.new, Flat.run, run_bind_of _ _ new]
    rfl
  have there' : ((Flat.empty.put [97] (newFile .empty)).opened [97]).files [97] =
    some (newFile .empty) := there
  have there'' : (((Flat.empty.put [97] (newFile .empty)).opened [97]).opened [97]).files [97] =
    some (newFile .empty) := there
  obtain ⟨h, openH, openedH⟩ := InsertFileScan.new_spec heap there' named
  have room : (bytes.length : Int) + 4 ≤ (firstDataPage .empty).freeSpace := by
    rw [len]
    exact Int.le_refl 1004
  have blank : (firstDataPage .empty).binding = fun _ => none := by
    rw [firstDataPage, Page.binding_setNextPage, Page.binding_init]
  obtain ⟨k, p, h', f, insert, binds, heap', first, pages, opened⟩ :=
    InsertFileScan.insertRecord_here heap there'' openedH (by omega) room
  obtain rfl : k = 0 := by
    by_contra apart
    exact binds.first 0 (Int.le_refl 0) (lt_of_le_of_ne binds.nonneg (Ne.symm apart)) (by rw [blank])
  have start : Start [97] ⟨_, _⟩ := ⟨named, _, _, _, _, there, heap, scan⟩
  have reached : Reachable (Start [97]) (Step [97]) _ :=
    .next (a := .insertRecord bytes) (.initial start)
    (.insertRecord (by omega) (by omega) openH insert
      (InsertFileScan.delete_spec opened.file (by simp)))
  refine ⟨_, _, f, _, p, bytes, reached, by simp, heap', pages, len, ?_, rfl, rfl, rfl, first.symm,
    rfl, rfl⟩
  rw [Single, binds.binding, blank]

/-- The scan is restarted before it was used. -/
theorem restarts_filled : ∃ w, Reachable (Start [97]) (Step [97]) w ∧ w.scan.curPage = none ∧
    Restarts [97] w none := by
  obtain ⟨st, s, f, hdr, p, bytes, reached, there, heap, _, _, single, _, cur, opened⟩ := filled
  have placed : s.Placed [97] f [(2, p)] :=
    .inl ⟨_, by rw [cur]; decide, [], 2, p, [], rfl, opened, rfl⟩
  obtain ⟨t, run, unset, page⟩ := placed.endScan heap st
  have again := Reachable.next (a := .restart none) reached (.restart run)
  refine ⟨_, again, unset.page, (restarts_iff_restartable again (by rintro _ ⟨⟩)).mpr ?_⟩
  refine ⟨f, hdr, _, there, heap, .inl ⟨page.mpr (by rw [opened.number]; decide), ?_⟩⟩
  simp [Chain.leading, single.entries, onPage]

/-- Two records on two pages, of which the first is deleted: a new scan returns
the second, a restarted one nothing. -/
theorem first_page_emptied : ∃ w, Reachable (Start [97]) (Step [97]) w ∧
    Returns Flat.handle (freshScan [97] none) w.storage
      ((.fileEof, [⟨3, 0⟩]), w.storage.opened [97]) ∧
    Returns Flat.handle (rescan none · w.scan) w.storage ((.fileEof, []), w.storage) ∧
      ¬ Restarts [97] w none := by
  obtain ⟨st, s, f, hdr, p, bytes, reached, there, heap, pages, len, single, unfiltered, cur,
    opened⟩ := filled
  have named : ([97] : Name) ≠ [] := by decide
  have valid : Accepted none := by rintro _ ⟨⟩
  -- the second record goes to a new page
  have last : hdr.lastPage = 2 := (Option.some.inj heap.last).symm
  obtain ⟨h, openH, openedH⟩ := InsertFileScan.new_spec heap there named
  rw [last] at openedH
  have there' : (st.opened [97]).files [97] = some f := there
  have full : p.freeSpace < (([5] : List UInt8).length : Int) + 4 := by
    have := (heap.pages 2 p (by simp)).2.2.2.2.1.freeSpace_le (k := 0)
      (by rw [single, Function.update_self])
    simp only [List.length_singleton]
    omega
  obtain ⟨q, h', g, insert, single', heap', first, _, openedH'⟩ :=
    InsertFileScan.insertRecord_behind (show Heap f hdr ([] ++ [(2, p)]) from heap) there' openedH
      (by decide) (by decide)
      full
  rw [pages] at insert heap' openedH'
  have inserted := Reachable.next (a := .insertRecord [5]) reached
    (.insertRecord (by decide) (by decide) openH insert
      (InsertFileScan.delete_spec openedH'.file (by simp)))
  rw [Flat.closed_put, Flat.closed_opened] at inserted
  have thereG := Flat.files_put st [97] g
  -- the scan goes to the first one and deletes it
  have single2 : Single (p.setNextPage 3) bytes := (Page.binding_setNextPage ..).trans single
  have here : s.At [97] g ([] ++ [(2, p.setNextPage 3), (3, q)]) [(⟨2, 0⟩, bytes), (⟨3, 0⟩, [5])] := by
    refine ⟨by rw [cur]; decide, [], 2, p.setNextPage 3, [(3, q)], rfl, opened.congr first, ?_⟩
    have after : (p.setNextPage 3).after s.curRec.slotNo = [(0, bytes)] := by
      rw [cur]
      exact single2.entries
    simp [after, single'.entries, onPage]
  have ahead : s.Ahead [97] g ([] ++ [(2, p.setNextPage 3), (3, q)]) [(⟨2, 0⟩, bytes), (⟨3, 0⟩, [5])] :=
    ⟨_, here, by simp [matchRec, unfiltered]⟩
  obtain ⟨t, next, _, _, on, _⟩ := ahead.next heap' thereG
  have advanced := Reachable.next (a := .scanNext) inserted (.scanNext next)
  obtain ⟨curT, _, _, _, _, openedT, _⟩ := on
  have slot : t.curRec.slotNo = 0 := by rw [curT]
  obtain ⟨r, g', delete, unbinds, heap'', first'⟩ :=
    deleteRecord_unbinds heap' thereG openedT.file openedT.header openedT.page
      (by rw [slot, single2]; simp)
  have current : t.Current (st.put [97] g) [97] :=
    ⟨g, _, _, 2, bytes, thereG, heap', openedT.page, by simp [slot, single2.entries, onPage]⟩
  have deleted := Reachable.next (a := .deleteRecord) advanced (.deleteRecord current delete)
  rw [Flat.put_put] at deleted
  -- the first page is left empty
  have empty : r.entries = [] := by
    rw [Page.entries, unbinds.binding, slot, single2, Function.update_idem]
    refine Enumerate.span_eq_nil fun k _ _ => ?_
    by_cases same : k = 0 <;> simp [same]
  have leading : Chain.leading ([] ++ (2, r) :: [(3, q)]) = [] := by simp [Chain.leading, empty, onPage]
  have list : matching none (Chain.entries ([] ++ (2, r) :: [(3, q)])) = [(⟨3, 0⟩, [5])] := by
    simp [matching, empty, single'.entries, onPage]
  have thereG' := Flat.files_put st [97] g'
  obtain ⟨_, f', _, _, thereF, heapF, placed⟩ :=
    deleted.invariant (fun _ => Start.invariant) (fun _ _ _ inv step => step.invariant inv)
  rw [thereG'] at thereF
  cases thereF
  cases heapF.unique heap''
  have fresh := freshScan_spec heap'' thereG' named valid
  have again := placed.rescan heap'' thereG' valid
  rw [list] at fresh
  rw [if_neg fun good => good.2 leading] at again
  refine ⟨_, deleted, fresh, again, ?_⟩
  rintro ⟨rids, _, again', fresh'⟩
  cases again.unique again'
  cases fresh.unique fresh'

end Rescans
end Minirel
