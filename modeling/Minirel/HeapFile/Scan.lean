import Minirel.HeapFile.Object

/-! Scans over a heap file. A scan position stands for the list of records that
are still to come; stepping takes its head, and `scanNext` takes it up to the
first record that matches. -/
namespace Minirel
open Enumerate Program

variable {st : Flat} {name : Name} {f : FlatFile} {hdr : FileHdrPage} {chain pre post : Chain}
  {n : Int} {p : Page} {todo : List Entry}

namespace HeapFileScan

/-- The scan is on page `n` of the chain, with the records `todo` ahead. -/
structure At (s : HeapFileScan) (name : Name) (f : FlatFile) (chain : Chain) (todo : List Entry) :
    Prop where
  slot : -1 ≤ s.curRec.slotNo
  place : ∃ pre n p post, chain = pre ++ (n, p) :: post ∧ s.toHeapFile.Opened name f n ∧
    todo = onPage n (p.after s.curRec.slotNo) ++ Chain.entries post

structure On (s : HeapFileScan) (name : Name) (f : FlatFile) (chain : Chain) (rid : RID)
    (b : List UInt8) (rest : List Entry) : Prop where
  cur : s.curRec = rid
  place : ∃ pre p post, chain = pre ++ (rid.pageNo, p) :: post ∧ s.toHeapFile.Opened name f rid.pageNo ∧
    p.binding rid.slotNo = some b ∧ rest = onPage rid.pageNo (p.after rid.slotNo) ++ Chain.entries post

inductive Advanced (s : HeapFileScan) (name : Name) (f : FlatFile) (chain : Chain) :
    List Entry → Status × HeapFileScan → Prop
  | eof (t : HeapFileScan) (filter : t.filter = s.filter) (ended : t.At name f chain []) :
      Advanced s name f chain [] (.fileEof, t)
  | found (t : HeapFileScan) (rid : RID) (b : List UInt8) (rest : List Entry)
      (filter : t.filter = s.filter)
      (on : t.On name f chain rid b rest) : Advanced s name f chain ((rid, b) :: rest) (.ok, t)

variable {s : HeapFileScan}

theorem Advanced.congr {t : HeapFileScan} {result} (same : t.filter = s.filter)
    (advanced : Advanced t name f chain todo result) : Advanced s name f chain todo result := by
  cases advanced with
  | eof u filter ended => exact .eof u (filter.trans same) ended
  | found u rid b rest filter on => exact .found u rid b rest (filter.trans same) on

theorem On.at {rid : RID} {b : List UInt8} {rest : List Entry} (on : s.On name f chain rid b rest) :
    s.At name f chain rest := by
  obtain ⟨rfl, pre, p, post, split, opened, bound, list⟩ := on
  have nonneg : 0 ≤ s.curRec.slotNo := by
    by_contra negative
    rw [Page.binding_of_neg (by omega)] at bound
    cases bound
  exact ⟨by omega, pre, s.curRec.pageNo, p, post, split, opened, list⟩

theorem nextPages_step {t : HeapFileScan} {m : Int} {q : Page}
    {result : (Status × HeapFileScan) × Flat} (there : st.files name = some f)
    (opened : s.toHeapFile.Opened name f n) (image : f.page n = .data p)
    (link : p.nextPage = m) (imageQ : f.page m = .data q) (low : 1 ≤ m) (high : m < f.numPages)
    (moved : t = { s with filePtr := name, curPage := some m, curPageNo := m, curDirtyFlag :=
      false })
    (openedT : t.toHeapFile.Opened name f m)
    (rest : Returns Flat.handle (fun fuel => match q.firstRecord with
      | .ok rid => pure (.ok, { t with curRec := rid })
      | .error _ => nextPages fuel t) st result) : Returns Flat.handle (nextPages · s) st result := by
  refine .round (.after (opened.run_page there image) ?_) (fun _ => rfl)
  simp only [link, show ¬ m = -1 by omega, if_false]
  refine .after (Flat.run_unPinPage ..) ?_
  simp only [ne_eq, not_true_eq_false, if_false, opened.file]
  refine .after (Flat.run_readPage there low high) ?_
  simp only [not_true_eq_false, if_false]
  have page := openedT.run_page there imageQ
  rw [moved] at page rest
  exact .after page rest

theorem nextPages_spec (heap : Heap f hdr (pre ++ (n, p) :: post)) (there : st.files name = some f)
    (opened : s.toHeapFile.Opened name f n) (slot : -1 ≤ s.curRec.slotNo)
    (ended : p.after s.curRec.slotNo = []) :
    ∃ result, Returns Flat.handle (nextPages · s) st (result, st) ∧
      Advanced s name f (pre ++ (n, p) :: post) (Chain.entries post) result := by
  induction post generalizing pre n p s with
  | nil =>
    have last : p.nextPage = -1 := heap.linked.tail
    refine ⟨(.fileEof, s), ?_, .eof s rfl ⟨slot, pre, n, p, [], rfl, opened, by simp [ended, onPage]⟩⟩
    refine .round (.after (opened.run_page there heap.page_self.1) ?_) (fun _ => rfl)
    simp only [last, if_true]
    exact .of_run rfl
  | cons head post ih =>
    obtain ⟨m, q⟩ := head
    have image := heap.page_self.1
    have link : p.nextPage = m := heap.linked.tail.1
    have split : pre ++ (n, p) :: (m, q) :: post = (pre ++ [(n, p)]) ++ (m, q) :: post := by simp
    rw [split] at heap ⊢
    obtain ⟨imageQ, low, high, _, inv, number⟩ := heap.page_self
    obtain ⟨t, ht⟩ : ∃ t : HeapFileScan, t = { s with
      filePtr := name, curPage := some m, curPageNo := m, curDirtyFlag := false } := ⟨_, rfl⟩
    have openedT : t.toHeapFile.Opened name f m := by
      rw [ht]
      exact ⟨rfl, opened.header, rfl, rfl⟩
    have slotT : -1 ≤ t.curRec.slotNo := by rw [ht]; exact slot
    have filterT : t.filter = s.filter := by rw [ht]
    rcases Page.firstRecord_spec inv with ⟨empty, none⟩ | ⟨k, b, first, bound, list⟩
    · obtain ⟨result, run, advanced⟩ := ih heap openedT slotT (Page.after_of_entries none _ slotT)
      refine ⟨result, nextPages_step there opened image link imageQ low high ht openedT ?_, ?_⟩
      · rw [empty]
        exact run
      · rw [Chain.entries_cons, none]
        exact advanced.congr filterT
    · rw [Chain.entries_cons, list]
      refine ⟨(.ok, { t with curRec := ⟨m, k⟩ }),
        nextPages_step there opened image link imageQ low high ht openedT ?_,
        .found _ _ b _ filterT ⟨rfl, pre ++ [(n, p)], q, post, rfl,
          ⟨openedT.file, openedT.header, openedT.page, openedT.number⟩, bound, rfl⟩⟩
      rw [first, number]
      exact .of_run rfl

/-- To the next record of this page or of a later one. -/
theorem advance_spec (heap : Heap f hdr chain) (there : st.files name = some f)
    (here : s.At name f chain todo) :
    ∃ result, Returns Flat.handle (advance · s) st (result, st) ∧
      Advanced s name f chain todo result := by
  obtain ⟨slot, pre, n, p, post, rfl, opened, rfl⟩ := here
  obtain ⟨image, _, _, _, inv, number⟩ := heap.page_self
  rcases Page.nextRecord_spec inv slot with ⟨last, ended⟩ | ⟨k, b, next, _, bound, list⟩
  · obtain ⟨result, run, advanced⟩ := nextPages_spec heap there opened slot ended
    refine ⟨result, .after (opened.run_page there image) ?_, ended ▸ advanced⟩
    rw [last]
    exact run
  · rw [list]
    refine ⟨(.ok, { s with curRec := ⟨n, k⟩ }), .after (opened.run_page there image) ?_,
      .found _ _ b _ rfl ⟨rfl, pre, p, post, rfl,
        ⟨opened.file, opened.header, opened.page, opened.number⟩, bound, rfl⟩⟩
    rw [next, number]
    exact .of_run rfl

theorem On.run_page {rid : RID} {b : List UInt8} {rest : List Entry}
    (on : s.On name f chain rid b rest) (heap : Heap f hdr chain) (there : st.files name = some f) :
    ∃ page, Flat.run s.toHeapFile.page st = some (page, st) ∧ page.getRecord s.curRec = .ok b := by
  obtain ⟨rfl, pre, p, post, rfl, opened, bound, _⟩ := on
  obtain ⟨image, _, _, _, inv, _⟩ := heap.page_self
  exact ⟨p, opened.run_page there image, Page.getRecord_spec inv bound⟩

theorem On.getRecord {rid : RID} {b : List UInt8} {rest : List Entry}
    (on : s.On name f chain rid b rest) (heap : Heap f hdr chain) (there : st.files name = some f) :
    Flat.run s.getRecord st = some (.ok b, st) := by
  obtain ⟨page, load, found⟩ := on.run_page heap there
  rw [HeapFileScan.getRecord, Flat.run, run_bind_of _ _ load, found]
  rfl

inductive Scanned (s : HeapFileScan) (name : Name) (f : FlatFile) (chain : Chain)
    (todo : List Entry) :
    Status × HeapFileScan → Prop
  | eof (t : HeapFileScan) (filter : t.filter = s.filter) (ended : t.At name f chain [])
      (skipped : ∀ e ∈ todo, s.matchRec e.2 = false) : Scanned s name f chain todo (.fileEof, t)
  | found (t : HeapFileScan) (front : List Entry) (rid : RID) (b : List UInt8) (rest : List Entry)
      (filter : t.filter = s.filter) (split : todo = front ++ (rid, b) :: rest)
      (skipped : ∀ e ∈ front, s.matchRec e.2 = false) (hit : s.matchRec b = true)
      (on : t.On name f chain rid b rest) : Scanned s name f chain todo (.ok, t)

theorem filter_skipped {front : List Entry} (skipped : ∀ e ∈ front, s.matchRec e.2 = false) :
    front.filter (fun e => s.matchRec e.2) = [] := by
  rw [List.filter_eq_nil_iff]
  intro e member
  simp [skipped e member]

theorem Scanned.skip {t : HeapFileScan} {e : Entry} {result} (same : t.filter = s.filter)
    (miss : s.matchRec e.2 = false) (scanned : Scanned t name f chain todo result) :
    Scanned s name f chain (e :: todo) result := by
  have agree : ∀ rec, t.matchRec rec = s.matchRec rec := fun rec => by simp only [matchRec, same]
  cases scanned with
  | eof u filter ended skipped =>
    simp only [agree] at skipped
    exact .eof u (filter.trans same) ended (List.forall_mem_cons.mpr ⟨miss, skipped⟩)
  | found u front rid b rest filter split skipped hit on =>
    simp only [agree] at skipped hit
    exact .found u (e :: front) rid b rest (filter.trans same) (congrArg (e :: ·) split)
      (List.forall_mem_cons.mpr ⟨miss, skipped⟩) hit on

/-- Records that do not match are passed. -/
theorem scanLoop_spec (heap : Heap f hdr chain) (there : st.files name = some f)
    (here : s.At name f chain todo) :
    ∃ result, Returns Flat.handle (scanLoop · s) st (result, st) ∧
      Scanned s name f chain todo result := by
  -- along the records ahead: each round takes one of them
  induction todo generalizing s with
  | nil =>
    obtain ⟨_, run, advanced⟩ := advance_spec heap there here
    cases advanced with
    | eof t filter ended =>
      exact ⟨(.fileEof, t), .round (.bind run (.of_run rfl)) (fun _ => rfl),
        .eof t filter ended (by simp)⟩
  | cons e todo ih =>
    obtain ⟨_, run, advanced⟩ := advance_spec heap there here
    cases advanced with
    | found t rid b rest filter on =>
      obtain ⟨page, load, found⟩ := on.run_page heap there
      have agree : t.matchRec b = s.matchRec b := by simp only [matchRec, filter]
      have step {result} (rest : Returns Flat.handle
          (fun fuel => if s.matchRec b then pure (.ok, t) else scanLoop fuel t) st result) :
          Returns Flat.handle (scanLoop · s) st result := by
        refine .round (.bind run ?_) (fun _ => rfl)
        simp only [ne_eq, not_true_eq_false, if_false]
        refine .after load ?_
        rw [found]
        simp only [agree]
        exact rest
      cases hit : s.matchRec b with
      | true =>
        refine ⟨(.ok, t), step ?_, .found t [] rid b todo filter rfl (by simp) hit on⟩
        rw [hit]
        exact .of_run rfl
      | false =>
        obtain ⟨result, run, scanned⟩ := ih on.at
        refine ⟨result, step ?_, scanned.skip filter hit⟩
        rw [hit]
        exact run

/-- On a scan that has a page `scanNext` is its loop. -/
theorem scanNext_spec (heap : Heap f hdr chain) (there : st.files name = some f)
    (here : s.At name f chain todo) :
    ∃ result, Returns Flat.handle (scanNext · s) st (result, st) ∧
      Scanned s name f chain todo result := by
  obtain ⟨result, run, scanned⟩ := scanLoop_spec heap there here
  refine ⟨result, ?_, scanned⟩
  obtain ⟨_, pre, n, p, post, rfl, opened, _⟩ := here
  have low := heap.page_self.2.1
  have number : ¬ s.curPageNo < 0 := by
    rw [opened.number]
    omega
  have loaded : s.curPage ≠ none := by simp [opened.page]
  simp only [scanNext, number, loaded, if_false]
  exact run

theorem new_spec (heap : Heap f hdr chain) (there : st.files name = some f) (named : name ≠ []) :
    ∃ s, Flat.run (HeapFileScan.new name) st = some (.ok s, st.opened name) ∧ s.filter = none ∧
      s.At name f chain chain.entries := by
  obtain ⟨p, rest, rfl⟩ := heap.first_page
  refine ⟨⟨⟨name, f.firstPage, false, some hdr.firstPage, hdr.firstPage, false, nullRid⟩, none⟩,
    ?_, rfl, Int.le_refl _, [], hdr.firstPage, p, rest, rfl, ⟨rfl, rfl, rfl, rfl⟩, rfl⟩
  rw [HeapFileScan.new, Flat.run, run_bind_of _ _ (HeapFile.new_spec heap there named)]
  rfl

theorem At.file (here : s.At name f chain todo) : s.filePtr = name := by
  obtain ⟨_, _, _, _, _, _, opened, _⟩ := here
  exact opened.file

theorem At.startScan (here : s.At name f chain todo) (filter : Option Filter) :
    (s.startScan filter).2.At name f chain todo := by
  cases filter with
  | none => exact ⟨here.slot, here.place⟩
  | some filter =>
    simp only [HeapFileScan.startScan]
    split
    · exact ⟨here.slot, here.place⟩
    · exact here

theorem endScan_spec (s : HeapFileScan) (st : Flat) :
    ∃ t, Flat.run s.endScan st = some ((.ok, t), st) ∧ t.filePtr = s.filePtr := by
  unfold endScan
  split
  · refine ⟨{ s with curPage := none, curPageNo := 0, curDirtyFlag := false }, ?_, rfl⟩
    rw [Flat.run, run_bind_of _ _ (Flat.run_unPinPage ..)]
    rfl
  · exact ⟨s, rfl, rfl⟩

theorem delete_spec (file : s.filePtr = name) (isOpen : st.openCnt name ≠ 0) :
    Flat.run s.delete st = some ((), st.closed name) := by
  obtain ⟨t, run, same⟩ := endScan_spec s st
  rw [delete, Flat.run, run_bind_of _ _ run]
  exact HeapFile.delete_spec (same.trans file) isOpen

def Current (s : HeapFileScan) (st : Flat) (name : Name) : Prop :=
  ∃ f hdr chain n b, st.files name = some f ∧ Heap f hdr chain ∧ s.curPage = some n ∧
    (⟨n, s.curRec.slotNo⟩, b) ∈ chain.entries

theorem Current.place (current : s.Current st name) (heap : Heap f hdr chain)
    (there : st.files name = some f) :
    ∃ pre n p post, chain = pre ++ (n, p) :: post ∧ s.curPage = some n ∧
      p.binding s.curRec.slotNo ≠ none := by
  obtain ⟨f', hdr', chain', n, b, there', heap', page, listed⟩ := current
  rw [there] at there'
  cases there'
  cases heap.unique heap'
  obtain ⟨p, member, bound⟩ := heap.mem_entries.mp listed
  obtain ⟨pre, post, split⟩ := List.append_of_mem member
  exact ⟨pre, n, p, post, split, page, by rw [bound]; simp⟩

/-- Deletion of a record of the current page, wherever in the chain that is. -/
theorem deleteRecord_unbinds (heap : Heap f hdr (pre ++ (n, p) :: post))
    (there : st.files name = some f) (file : s.filePtr = name)
    (header : s.headerPageNo = f.firstPage) (page : s.curPage = some n)
    (current : p.binding s.curRec.slotNo ≠ none) :
    ∃ q g, Flat.run s.deleteRecord st =
        some ((.ok, { s with curDirtyFlag := true, hdrDirtyFlag := true }), st.put name g) ∧
      p.Unbinds s.curRec.slotNo q ∧ Heap g { hdr with recCnt := hdr.recCnt - 1 }
        (pre ++ (n, q) :: post) ∧
      g.firstPage = f.firstPage := by
  obtain ⟨image, _, _, apart, inv, _⟩ := heap.page_self
  obtain ⟨q, delete, unbinds⟩ := Page.deleteRecord_spec inv current
  obtain ⟨b, bound⟩ := Option.ne_none_iff_exists'.mp current
  obtain ⟨before, now, _⟩ := unbinds.entries inv bound
  have fields : (f.set n (.data q)).page f.firstPage = .header hdr := by
    rw [FlatFile.set_page_of_ne _ _ apart.symm]
    exact heap.header
  have counted : hdr.recCnt - 1 = (Chain.entries (pre ++ (n, q) :: post)).length := by
    rw [heap.recCnt]
    simp only [Chain.entries_append, Chain.entries_cons, before, now, onPage, List.map_append,
      List.map_cons, List.length_append, List.length_cons]
    omega
  refine ⟨q, _, ?_, unbinds, heap.update unbinds.invariant unbinds.next unbinds.cur counted, rfl⟩
  have there' := Flat.files_put st name (f.set n (.data q))
  -- the number in `curPageNo` is not looked at
  have opened : HeapFile.Opened { s.toHeapFile with curPageNo := n } name f n :=
    ⟨file, header, page, rfl⟩
  have opened' : HeapFile.Opened { s.toHeapFile with curPageNo := n } name (f.set n (.data q)) n :=
    opened.congr rfl
  have load : Flat.run s.toHeapFile.page st = some (p, st) := opened.run_page there image
  have store : Flat.run (s.toHeapFile.setPage q) st = some ((), st.put name (f.set n (.data q))) :=
    opened.run_setPage there q
  have loadHeader : Flat.run s.headerPage (st.put name (f.set n (.data q))) = _ :=
    opened'.run_headerPage there' fields
  have storeHeader : Flat.run (s.setHeaderPage _) (st.put name (f.set n (.data q))) = _ :=
    opened'.run_setHeaderPage there' { hdr with recCnt := hdr.recCnt - 1 }
  rw [deleteRecord, Flat.run, run_bind_of _ _ load, delete]
  simp only
  rw [run_bind_of _ _ store, run_bind_of _ _ (run_pure ..),
    run_bind_of _ _ loadHeader, run_bind_of _ _ storeHeader, Flat.put_put]
  rfl

/-- The record goes, and the scan stays before the one behind it. -/
theorem deleteRecord_spec {rid : RID} {b : List UInt8} {rest : List Entry}
    (on : s.On name f chain rid b rest) (heap : Heap f hdr chain) (there : st.files name = some f) :
    ∃ t g chain' front back, Flat.run s.deleteRecord st = some ((.ok, t), st.put name g) ∧
      t.filter = s.filter ∧ Heap g { hdr with recCnt := hdr.recCnt - 1 } chain' ∧
        t.At name g chain' rest ∧
      chain.entries = front ++ (rid, b) :: back ∧ chain'.entries = front ++ back := by
  have nonneg := on.at.slot
  obtain ⟨rfl, pre, p, post, rfl, opened, bound, rfl⟩ := on
  obtain ⟨n, k, hrid⟩ : ∃ n k, s.curRec = ⟨n, k⟩ := ⟨_, _, rfl⟩
  have current : p.binding s.curRec.slotNo ≠ none := by
    rw [bound]
    simp
  obtain ⟨q, g, run, unbinds, heap', first⟩ :=
    deleteRecord_unbinds heap there opened.file opened.header opened.page
    current
  obtain ⟨before, now, behind⟩ := unbinds.entries heap.page_self.2.2.2.2.1 bound
  have opened' := opened.congr first
  refine ⟨_, g, pre ++ (s.curRec.pageNo, q) :: post, Chain.entries pre ++
    onPage s.curRec.pageNo (Enumerate.span p.binding 0 s.curRec.slotNo),
    onPage s.curRec.pageNo (p.after s.curRec.slotNo) ++
    Chain.entries post, run, rfl, heap', ⟨nonneg, pre, _, q, post, rfl,
    ⟨opened'.file, opened'.header, opened'.page, opened'.number⟩, by rw [← behind]⟩, ?_, ?_⟩
  · simp [before, onPage, hrid]
  · simp [now, onPage, hrid]

/-! What a client sees of a scan: the records that it is still going to return. -/

/-- Further calls of `scanNext` return exactly these records. -/
def Ahead (s : HeapFileScan) (name : Name) (f : FlatFile) (chain : Chain) (records : List Entry) :
    Prop :=
  ∃ todo, s.At name f chain todo ∧ todo.filter (fun e => s.matchRec e.2) = records

def Stands (s : HeapFileScan) (name : Name) (f : FlatFile) (chain : Chain) (e : Entry)
    (records : List Entry) : Prop :=
  ∃ todo, s.On name f chain e.1 e.2 todo ∧ todo.filter (fun e => s.matchRec e.2) = records

section ahead
variable {e : Entry} {records : List Entry}

theorem matchRec_congr {t : HeapFileScan} (same : t.filter = s.filter) :
    t.matchRec = s.matchRec := by
  funext rec
  simp only [matchRec, same]

theorem Ahead.file (ahead : s.Ahead name f chain records) : s.filePtr = name := by
  obtain ⟨_, here, _⟩ := ahead
  exact here.file

theorem Stands.ahead (stands : s.Stands name f chain e records) : s.Ahead name f chain records := by
  obtain ⟨todo, on, list⟩ := stands
  exact ⟨todo, on.at, list⟩

theorem Stands.getRecord (stands : s.Stands name f chain e records) (heap : Heap f hdr chain)
    (there : st.files name = some f) : Flat.run s.getRecord st = some (.ok e.2, st) := by
  obtain ⟨_, on, _⟩ := stands
  exact on.getRecord heap there

theorem Stands.curRec (stands : s.Stands name f chain e records) : s.curRec = e.1 := by
  obtain ⟨_, on, _⟩ := stands
  exact on.cur

theorem Ahead.eof (ahead : s.Ahead name f chain []) (heap : Heap f hdr chain)
    (there : st.files name = some f) :
    ∃ t, Returns Flat.handle (scanNext · s) st ((.fileEof, t), st) ∧ t.filter = s.filter ∧
      t.Ahead name f chain [] := by
  obtain ⟨todo, here, list⟩ := ahead
  obtain ⟨_, run, scanned⟩ := scanNext_spec heap there here
  cases scanned with
  | eof t filter ended skipped => exact ⟨t, run, filter, [], ended, rfl⟩
  | found t front rid b rest filter split skipped hit on =>
    rw [List.filter_eq_nil_iff] at list
    exact absurd hit (list (rid, b) (by rw [split]; simp))

theorem Ahead.next (ahead : s.Ahead name f chain (e :: records)) (heap : Heap f hdr chain)
    (there : st.files name = some f) :
    ∃ t, Returns Flat.handle (scanNext · s) st ((.ok, t), st) ∧ t.filter = s.filter ∧
      t.Stands name f chain e records := by
  obtain ⟨todo, here, list⟩ := ahead
  obtain ⟨_, run, scanned⟩ := scanNext_spec heap there here
  cases scanned with
  | eof t filter ended skipped =>
    rw [filter_skipped skipped] at list
    cases list
  | found t front rid b rest filter split skipped hit on =>
    simp only [split, List.filter_append, filter_skipped skipped, List.filter_cons, hit, if_true,
      List.nil_append] at list
    cases list
    exact ⟨t, run, filter, rest, on, by rw [matchRec_congr filter]⟩

/-- Deleting the current record leaves the others to come as they were. -/
theorem Stands.deleteRecord (stands : s.Stands name f chain e records) (heap : Heap f hdr chain)
    (there : st.files name = some f) :
    ∃ t g hdr' chain' front back, Flat.run s.deleteRecord st = some ((.ok, t), st.put name g) ∧
      t.filter = s.filter ∧ Heap g hdr' chain' ∧ t.Ahead name g chain' records ∧
      chain.entries = front ++ e :: back ∧ chain'.entries = front ++ back := by
  obtain ⟨todo, on, list⟩ := stands
  obtain ⟨t, g, chain', front, back, run, filter, heap', ahead, before, after⟩ :=
    deleteRecord_spec on heap there
  exact ⟨t, g, _, chain', front, back, run, filter, heap',
    ⟨todo, ahead, by rw [matchRec_congr filter]; exact list⟩, before, after⟩

theorem new_ahead (heap : Heap f hdr chain) (there : st.files name = some f) (named : name ≠ []) :
    ∃ s, Flat.run (HeapFileScan.new name) st = some (.ok s, st.opened name) ∧ s.filter = none ∧
      s.Ahead name f chain chain.entries := by
  obtain ⟨s, run, none, here⟩ := new_spec heap there named
  refine ⟨s, run, none, chain.entries, here, ?_⟩
  simp only [matchRec, none, List.filter_true]

theorem Ahead.startScan {filter : Filter} (ahead : s.Ahead name f chain records)
    (fresh : s.filter = none) (accepted : filter.accepted = true) :
    ∃ t, s.startScan (some filter) = (.ok, t) ∧ t.filter = some filter ∧
      t.Ahead name f chain (records.filter fun e => filter.matchRec e.2) := by
  obtain ⟨todo, here, rfl⟩ := ahead
  refine ⟨{ s with filter := some filter },
    by simp only [HeapFileScan.startScan, accepted, if_true], rfl, todo,
    ⟨here.slot, here.place⟩, ?_⟩
  simp only [matchRec, fresh, List.filter_true]

def scanRest : Nat → HeapFileScan → Prog (List RID × Status × HeapFileScan)
  | 0, _ => .halt
  | fuel + 1, s => do
    let (status, s) ← s.scanNext fuel
    if status ≠ .ok then return ([], status, s)
    let (rids, status, t) ← scanRest fuel s
    return (s.curRec :: rids, status, t)

/-- Enough fuel for the records ahead gives all of them. -/
theorem scanRest_spec (heap : Heap f hdr chain) (there : st.files name = some f)
    (ahead : s.Ahead name f chain records) :
    ∃ t, Returns Flat.handle (scanRest · s) st ((records.map Prod.fst, .fileEof, t), st) ∧
      t.filePtr = name := by
  induction records generalizing s with
  | nil =>
    obtain ⟨t, eof, _, ended⟩ := ahead.eof heap there
    exact ⟨t, .round (.bind eof (.of_run rfl)) (fun _ => rfl), ended.file⟩
  | cons e records ih =>
    obtain ⟨t, next, _, stands⟩ := ahead.next heap there
    obtain ⟨u, rest, file⟩ := ih stands.ahead
    refine ⟨u, .round (.bind next (.bind rest (.of_run ?_))) (fun _ => rfl), file⟩
    simp only [stands.curRec, List.map_cons]
    rfl

/-- A client that scans to the end: the records it was given, and the status
that ended its loop. -/
def scanAll (fuel : Nat) (s : HeapFileScan) : Prog (Status × List RID) := do
  let (rids, status, _) ← scanRest fuel s
  return (status, rids)

theorem scanAll_of_rest {rids : List RID} {status : Status} {t : HeapFileScan} {st' : Flat}
    (rest : Returns Flat.handle (scanRest · s) st ((rids, status, t), st')) :
    Returns Flat.handle (scanAll · s) st ((status, rids), st') := .bind rest (.of_run rfl)

theorem scanAll_spec (heap : Heap f hdr chain) (there : st.files name = some f)
    (ahead : s.Ahead name f chain records) :
    Returns Flat.handle (scanAll · s) st ((.fileEof, records.map Prod.fst), st) := by
  obtain ⟨t, rest, _⟩ := scanRest_spec heap there ahead
  exact scanAll_of_rest rest

end ahead
end HeapFileScan
end Minirel
