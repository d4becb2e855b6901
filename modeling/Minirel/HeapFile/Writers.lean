import Minirel.HeapFile.Scan
import Minirel.HeapFile.Insert
import Minirel.Lib.Transition

/-! Several inserters on one heap file. Each caches its own current page; a page
that turns out to be full is linked to a new one wherever it stands in the
chain, so an inserter that lags behind cuts off the pages the others added. -/
namespace Minirel
open Transition

structure Writers where
  storage : Flat
  objects : List HeapFile
  inserted : List Entry

namespace Writers

inductive Call
  | openFile
  | insertRecord (h : HeapFile) (bytes : List UInt8)
  | getRecord (h : HeapFile) (rid : RID)
  | close (h : HeapFile)

inductive Step (name : Name) : Writers → Call → Writers → Prop
  | openFile (call : Flat.run (InsertFileScan.new name) st = some (.ok h, st')) :
      Step name ⟨st, objs, ins⟩ .openFile ⟨st', objs ++ [h], ins⟩
  | inserted (left right : List HeapFile) (nonempty : 0 < bytes.length) (small : bytes.length ≤ 1000)
      (call : Flat.run (InsertFileScan.insertRecord h (.ofBytes bytes)) st =
        some ((.ok rid, h'), st')) :
      Step name ⟨st, left ++ h :: right, ins⟩ (.insertRecord h bytes)
        ⟨st', left ++ h' :: right, (rid, bytes) :: ins⟩
  | refused (left right : List HeapFile) (nonempty : 0 < bytes.length) (small : bytes.length ≤ 1000)
      (call : Flat.run (InsertFileScan.insertRecord h (.ofBytes bytes)) st =
        some ((.error status, h'), st')) :
      Step name ⟨st, left ++ h :: right, ins⟩ (.insertRecord h bytes) ⟨st', left ++ h' :: right, ins⟩
  | getRecord (left right : List HeapFile)
      (call : Flat.run (h.getRecord rid) st = some ((result, h'), st')) :
      Step name ⟨st, left ++ h :: right, ins⟩ (.getRecord h rid) ⟨st', left ++ h' :: right, ins⟩
  | close (left right : List HeapFile) (call : Flat.run (InsertFileScan.delete h) st = some ((), st')) :
      Step name ⟨st, left ++ h :: right, ins⟩ (.close h) ⟨st', left ++ right, ins⟩

def Start (name : Name) (w : Writers) : Prop :=
  name ≠ [] ∧ w.objects = [] ∧ ∃ f hdr chain, w.storage.files name = some f ∧ Heap f hdr chain ∧
    w.inserted = chain.entries

/-- The inserter whose page is full is on the last page, and records are
fetched from pages of the file. -/
def Safe (name : Name) (w : Writers) : Call → Prop
  | .insertRecord h bytes =>
    ∀ f hdr p, w.storage.files name = some f → f.page f.firstPage = .header hdr →
      f.page h.curPageNo = .data p → p.freeSpace < (bytes.length : Int) + 4 → h.curPageNo = hdr.lastPage
  | .getRecord _ rid =>
    ∀ f hdr numbers, w.storage.files name = some f → f.page f.firstPage = .header hdr →
      Follows f hdr.firstPage numbers → rid.pageNo ∈ numbers
  | _ => True

def SafeStep (name : Name) (w : Writers) (call : Call) (w' : Writers) :
    Prop := Step name w call w' ∧ Safe name w call

/-- Every record inserted is on a page that the links lead to, the last of
which is the last page; a scan returns it. -/
structure NoneLost (name : Name) (w : Writers) : Prop where
  linked : ∃ f hdr numbers, w.storage.files name = some f ∧ f.page f.firstPage = .header hdr ∧
    Follows f hdr.firstPage numbers ∧ numbers.getLast? = some hdr.lastPage ∧
    ∀ rid b, (rid, b) ∈ w.inserted → rid.pageNo ∈ numbers ∧
      ∃ p, f.page rid.pageNo = .data p ∧ p.binding rid.slotNo = some b
  scanned : ∃ s st rids, Flat.run (HeapFileScan.new name) w.storage = some (.ok s, st) ∧
    Program.Returns Flat.handle (HeapFileScan.scanAll · s) st ((.fileEof, rids), st) ∧
    ∀ e ∈ w.inserted, e.1 ∈ rids

structure Invariant (name : Name) (w : Writers) : Prop where
  named : name ≠ []
  count : w.objects.length ≤ w.storage.openCnt name
  file : ∃ f hdr chain, w.storage.files name = some f ∧ Heap f hdr chain ∧ w.inserted ⊆ chain.entries ∧
    ∀ h ∈ w.objects, ∃ n ∈ chain.map Prod.fst, h.Opened name f n

theorem Start.invariant {name : Name} {w : Writers} (start : Start name w) : Invariant name w := by
  obtain ⟨named, none, f, hdr, chain, there, heap, all⟩ := start
  refine ⟨named, by simp [none], f, hdr, chain, there, heap, by rw [all]; exact List.Subset.refl _, ?_⟩
  intro h member
  rw [none] at member
  cases member

section insertion
variable {st : Flat} {name : Name} {f : FlatFile} {hdr : FileHdrPage} {chain : Chain} {n : Int}
    {h : HeapFile}
  {bytes : List UInt8}

/-- What a safe insertion leads to: the records and the pages only grow. -/
theorem insertRecord_safe (heap : Heap f hdr chain) (there : st.files name = some f)
    (member : n ∈ chain.map Prod.fst) (opened : h.Opened name f n) (nonempty : 0 < bytes.length)
    (small : bytes.length ≤ 1000)
    (safe : ∀ p, f.page n = .data p → p.freeSpace < (bytes.length : Int) + 4 → n = hdr.lastPage) :
    ∃ rid h' g hdr' chain', Flat.run (InsertFileScan.insertRecord h (.ofBytes bytes)) st =
        some ((.ok rid, h'), st.put name g) ∧ Heap g hdr' chain' ∧ g.firstPage = f.firstPage ∧
      (rid, bytes) :: chain.entries ⊆ chain'.entries ∧ chain.map Prod.fst ⊆ chain'.map Prod.fst ∧
      ∃ m ∈ chain'.map Prod.fst, h'.Opened name g m := by
  obtain ⟨⟨n, p⟩, listed, rfl⟩ := List.mem_map.mp member
  have image := (heap.pages n p listed).1
  by_cases fits : (bytes.length : Int) + 4 ≤ p.freeSpace
  · obtain ⟨pre, post, rfl⟩ := List.append_of_mem listed
    obtain ⟨k, q, h', g, run, binds, heap', first, _, opened'⟩ :=
      InsertFileScan.insertRecord_here heap there opened nonempty fits
    obtain ⟨before, now⟩ := binds.entries
    refine ⟨_, h', g, _, _, run, heap', first, ?_, by simp, n, by simp, opened'⟩
    intro e
    simp only [Chain.entries_append, Chain.entries_cons, before, now, onPage, List.map_append,
      List.map_cons, List.mem_append, List.mem_cons]
    tauto
  · have last := safe p image (by omega)
    obtain ⟨p', pre, rfl⟩ := heap.last_page
    obtain rfl : n = hdr.lastPage := last
    have same := heap.page_self.1
    rw [image] at same
    cases same
    obtain ⟨q, h', g, run, single, heap', first, _, opened'⟩ :=
      InsertFileScan.insertRecord_behind heap there opened nonempty small (by omega)
    have joined : Joined (pre ++ [(hdr.lastPage, p)]) ⟨f.numPages, 0⟩ _ _ := .behind single f.numPages
    obtain ⟨front, back, before, after, _⟩ := joined.lists
    refine ⟨_, h', g, _, _, run, heap', first, ?_, by simp, f.numPages, by simp, opened'⟩
    rw [before, after]
    intro e
    simp only [List.mem_append, List.mem_cons]
    tauto

end insertion

theorem mem_replaced {o h h' : HeapFile} {left right : List HeapFile}
    (member : o ∈ left ++ h' :: right) :
    o = h' ∨ o ∈ left ++ h :: right := by
  simp only [List.mem_append, List.mem_cons] at member ⊢
  tauto

/-- An inserter on the last page leaves no page behind. -/
theorem SafeStep.invariant {name : Name} {w w' : Writers} {call : Call} (inv : Invariant name w)
    (step : SafeStep name w call w') : Invariant name w' := by
  obtain ⟨named, count, f, hdr, chain, there, heap, kept, placed⟩ := inv
  obtain ⟨step, safe⟩ := step
  cases step with
  | openFile call =>
    obtain ⟨h, run, opened⟩ := InsertFileScan.new_spec heap there named
    rw [run] at call
    cases call
    refine ⟨named, by simpa using count, f, hdr, chain, there, heap, kept, ?_⟩
    intro h member
    rcases List.mem_append.mp member with old | new
    · exact placed h old
    · cases List.mem_singleton.mp new
      obtain ⟨p, pre, split⟩ := heap.last_page
      exact ⟨hdr.lastPage, by rw [split]; simp, opened⟩
  | inserted left right nonempty small call =>
    obtain ⟨n, member, opened⟩ := placed _ (List.mem_append_right _ List.mem_cons_self)
    obtain ⟨rid, h', g, hdr', chain', run, heap', first, grows, pages, place⟩ :=
      insertRecord_safe heap there member opened nonempty small
        (fun p image => opened.number ▸ safe f hdr p there heap.header (opened.number.symm ▸ image))
    rw [run] at call
    cases call
    refine ⟨named, by simpa using count, g, hdr', chain', Flat.files_put .., heap', ?_, ?_⟩
    · rw [List.cons_subset] at grows ⊢
      exact ⟨grows.1, List.Subset.trans kept grows.2⟩
    · intro o member
      rcases mem_replaced member with rfl | old
      · exact place
      · obtain ⟨m, listed, opened⟩ := placed o old
        exact ⟨m, pages listed, opened.congr first⟩
  | refused left right nonempty small call =>
    obtain ⟨n, member, opened⟩ := placed _ (List.mem_append_right _ List.mem_cons_self)
    obtain ⟨_, _, _, _, _, run, _⟩ := insertRecord_safe heap there member opened nonempty small
      (fun p image => opened.number ▸ safe f hdr p there heap.header (opened.number.symm ▸ image))
    rw [run] at call
    cases call
  | getRecord left right call =>
    obtain ⟨n, member, opened⟩ := placed _ (List.mem_append_right _ List.mem_cons_self)
    obtain ⟨⟨n, p⟩, listed, rfl⟩ := List.mem_map.mp member
    have onChain := safe f hdr _ there heap.header heap.follows
    obtain ⟨⟨m, q⟩, target, number⟩ := List.mem_map.mp onChain
    obtain ⟨image, low, high, _⟩ := heap.pages m q target
    obtain rfl : m = _ := number
    obtain ⟨h', run, opened'⟩ :=
      HeapFile.getRecord_spec opened there (heap.pages n p listed).1 image low high
    rw [run] at call
    cases call
    refine ⟨named, by simpa using count, f, hdr, chain, there, heap, kept, ?_⟩
    intro o member
    rcases mem_replaced member with rfl | old
    · exact ⟨_, onChain, opened'⟩
    · exact placed o old
  | close left right call =>
    obtain ⟨n, _, opened⟩ := placed _ (List.mem_append_right _ List.mem_cons_self)
    simp only [List.length_append, List.length_cons] at count
    rw [InsertFileScan.delete_spec opened.file (by omega)] at call
    cases call
    refine ⟨named, ?_, f, hdr, chain, there, heap, kept, ?_⟩
    · simp only [Flat.openCnt_closed, List.length_append]
      omega
    intro o member
    exact placed o (List.mem_append.mpr
      ((List.mem_append.mp member).imp_right (List.mem_cons_of_mem _)))

theorem Invariant.noneLost {name : Name} {w : Writers} (inv : Invariant name w) :
    NoneLost name w := by
  obtain ⟨named, _, f, hdr, chain, there, heap, kept, _⟩ := inv
  constructor
  · refine ⟨f, hdr, _, there, heap.header, heap.follows, heap.last, ?_⟩
    intro rid b member
    obtain ⟨p, listed, bound⟩ := heap.mem_entries.mp (kept member)
    exact ⟨List.mem_map.mpr ⟨_, listed, rfl⟩, p, (heap.pages _ p listed).1, bound⟩
  · obtain ⟨s, run, _, ahead⟩ := HeapFileScan.new_ahead heap there named
    have there' : (w.storage.opened name).files name = some f := there
    refine ⟨s, _, _, run, HeapFileScan.scanAll_spec heap there' ahead, ?_⟩
    intro e member
    exact List.mem_map.mpr ⟨e, kept member, rfl⟩

/-- Nothing is lost as long as no inserter that lags behind meets a full page. -/
theorem none_lost_of_safe {name : Name} {w : Writers}
    (reached : Reachable (Start name) (SafeStep name) w) :
    NoneLost name w :=
  (reached.invariant (fun _ => Start.invariant) (fun _ _ _ inv step => step.invariant inv)).noneLost

/-- A full page anywhere in the chain is linked to the new last page: the pages
behind it can no longer be reached. -/
theorem insertRecord_cuts {st : Flat} {name : Name} {f : FlatFile} {hdr : FileHdrPage}
    {pre post : Chain} {n : Int} {p : Page} {h : HeapFile} {bytes : List UInt8}
    (heap : Heap f hdr (pre ++ (n, p) :: post)) (there : st.files name = some f)
    (opened : h.Opened name f n) (nonempty : 0 < bytes.length) (small : bytes.length ≤ 1000)
    (full : p.freeSpace < (bytes.length : Int) + 4) :
    ∃ h' g hdr', Flat.run (InsertFileScan.insertRecord h (.ofBytes bytes)) st =
        some ((.ok ⟨f.numPages, 0⟩, h'), st.put name g) ∧ g.page g.firstPage = .header hdr' ∧
      hdr'.firstPage = hdr.firstPage ∧
        Follows g hdr.firstPage (pre.map Prod.fst ++ [n, f.numPages]) := by
  obtain ⟨image, low, high, apart, inv, number⟩ := heap.page_self
  obtain ⟨q, h', g, run, grown, opened'⟩ :=
    InsertFileScan.insertOnNewPage_spec there opened image heap.header apart heap.inside high
      nonempty small
  have header := grown.header
  rw [← grown.firstPage] at header
  refine ⟨h', g, _, ?_, header, rfl, ?_⟩
  · have length : (Record.ofBytes bytes).length ≤ 1004 := by
      rw [Record.ofBytes_length]
      omega
    rw [InsertFileScan.run_insertRecord opened there image _ (Int.natCast_nonneg _) length,
      InsertFileScan.insertOnPage, Page.insertRecord_full _ (by simpa using full)]
    exact run
  · have linked : Chain.Linked (pre ++ [(n, p.setNextPage f.numPages), (f.numPages, q)]) :=
      heap.linked.cut rfl grown.next
    have numbers : pre.map Prod.fst ++ [n, f.numPages] =
        (pre ++ [(n, p.setNextPage f.numPages), (f.numPages, q)]).map Prod.fst := by simp
    have first : ((pre ++ [(n, p.setNextPage f.numPages), (f.numPages, q)]).map Prod.fst).head? =
        some hdr.firstPage := by
      rw [← heap.first]
      cases pre <;> rfl
    rw [numbers]
    refine linked.follows first (fun m r member => ?_)
    simp only [List.mem_append, List.mem_cons, List.not_mem_nil, or_false] at member
    rcases member with before | same | same
    · obtain ⟨old, positive, below, other, _⟩ := heap.pages m r (by simp [before])
      rw [grown.others m other (heap.other_ne (Or.inl before)) (by omega)]
      exact ⟨old, by omega⟩
    · cases same
      exact ⟨grown.old, by omega⟩
    · cases same
      have positive : f.numPages ≠ -1 := by omega
      exact ⟨grown.new, positive⟩

def fresh : Writers := ⟨Flat.empty.put [97] (newFile .empty), [], []⟩

theorem fresh_start : Start [97] fresh :=
  ⟨by decide, rfl, newFile .empty, _, _, Flat.files_put .., newFile_heap _, (newFile_entries _).symm⟩

/-- Two inserters, the records of both on the only page. -/
theorem none_lost_of_safe_two :
    ∃ w, w.inserted = [(⟨2, 1⟩, [5]), (⟨2, 0⟩, [7, 7])] ∧ w.objects.length = 2 ∧
      NoneLost [97] w := by
  refine ⟨_, rfl, rfl,
    none_lost_of_safe (.next (a := .insertRecord _ [5]) (.next (a := .insertRecord _ [7, 7])
    (.next (a := .openFile) (.next (a := .openFile) (.initial fresh_start) ⟨.openFile rfl, trivial⟩)
      ⟨.openFile rfl, trivial⟩) ⟨.inserted [] [_] (by decide) (by decide) rfl, ?_⟩)
    ⟨.inserted [_] [] (by decide) (by decide) rfl, ?_⟩)⟩
  · intro f hdr p there header _ _
    cases there
    cases header
    rfl
  · intro f hdr p there header _ _
    cases there
    cases header
    rfl

/-- A record on a page that the links do not lead to is lost. -/
theorem lost_of_unlinked {name : Name} {w : Writers} {f : FlatFile} {hdr : FileHdrPage}
    {numbers : List Int} {e : Entry} (there : w.storage.files name = some f)
    (header : f.page f.firstPage = .header hdr) (follows : Follows f hdr.firstPage numbers)
    (member : e ∈ w.inserted) (apart : e.1.pageNo ∉ numbers) :
    ¬ NoneLost name w := by
  intro lost
  obtain ⟨g, hdr', numbers', there', header', follows', _, linked⟩ := lost.linked
  rw [there] at there'
  cases there'
  rw [header] at header'
  cases header'
  rw [← follows.unique follows'] at linked
  exact apart (linked e.1 e.2 member).1

/-- Both inserters start on page 2. The first fills it and goes on to page 3;
the second then finds page 2 full and links it to page 4. -/
theorem record_lost : ∃ w f, Reachable (Start [97]) (Step [97]) w ∧
    w.inserted.map Prod.fst = [⟨4, 0⟩, ⟨3, 0⟩, ⟨2, 0⟩] ∧ w.storage.files [97] = some f ∧
    Follows f 2 [2, 4] ∧ ¬ NoneLost [97] w := by
  obtain ⟨bytes, hbytes⟩ : ∃ bytes : List UInt8, bytes = List.replicate 1000 1 := ⟨_, rfl⟩
  have len : bytes.length = 1000 := by rw [hbytes, List.length_replicate]
  have nonempty : 0 < bytes.length := by omega
  have small : bytes.length ≤ 1000 := by omega
  -- both are opened
  have named : ([97] : Name) ≠ [] := by decide
  have heap : Heap (newFile .empty) ⟨2, 2, 1, 0⟩ ([] ++ [(2, firstDataPage .empty)]) :=
    newFile_heap .empty
  have pages : (newFile .empty).numPages = 3 := rfl
  have there := Flat.files_put .empty [97] (newFile .empty)
  obtain ⟨a, openA, openedA⟩ := InsertFileScan.new_spec heap there named
  have there' : ((Flat.empty.put [97] (newFile .empty)).opened [97]).files [97] =
    some (newFile .empty) := there
  obtain ⟨b, openB, openedB⟩ := InsertFileScan.new_spec heap there' named
  have both : Reachable (Start [97]) (Step [97]) ⟨_, [a, b], []⟩ :=
    .next (a := .openFile) (.next (a := .openFile) (.initial fresh_start) (.openFile openA))
      (.openFile openB)
  -- the first fills page 2
  have room : (bytes.length : Int) + 4 ≤ (firstDataPage .empty).freeSpace := by
    rw [len]
    exact Int.le_refl 1004
  have blank : (firstDataPage .empty).binding = fun _ => none := by
    rw [firstDataPage, Page.binding_setNextPage, Page.binding_init]
  have there2 : (((Flat.empty.put [97] (newFile .empty)).opened [97]).opened [97]).files [97] =
    some (newFile .empty) := there
  obtain ⟨k, p, a', f1, insert1, binds, heap1, first1, num1, openedA'⟩ :=
    InsertFileScan.insertRecord_here heap there2 openedA nonempty room
  obtain rfl : k = 0 := by
    by_contra apart
    exact binds.first 0 (Int.le_refl 0) (lt_of_le_of_ne binds.nonneg (Ne.symm apart)) (by rw [blank])
  have full : p.freeSpace < (bytes.length : Int) + 4 := by
    have := binds.invariant.freeSpace_le (k := 0) (by rw [binds.binding, Function.update_self])
    omega
  -- and goes on to page 3
  obtain ⟨q, a'', f2, insert2, single, heap2, first2, num2, openedA''⟩ :=
    InsertFileScan.insertRecord_behind heap1 (Flat.files_put ..) openedA' nonempty small full
  rw [num1, pages] at insert2 heap2
  -- the second is still on page 2
  have openedB' : b.Opened [97] f2 2 := openedB.congr (first2.trans first1)
  obtain ⟨b', g, hdr', insert3, header, first3, follows⟩ :=
    insertRecord_cuts heap2 (Flat.files_put ..) openedB' nonempty small full
  rw [num2, num1, pages] at insert3 follows
  have filled := Reachable.next (a := .insertRecord a bytes) both
    (.inserted [] [b] nonempty small insert1)
  have ahead := Reachable.next (a := .insertRecord a' bytes) filled
    (.inserted [] [b] nonempty small insert2)
  refine ⟨_, g, .next (a := .insertRecord b bytes) ahead (.inserted [a''] [] nonempty small insert3),
    rfl, Flat.files_put .., follows, ?_⟩
  rw [← first3] at follows
  exact lost_of_unlinked (e := (⟨3, 0⟩, bytes)) (Flat.files_put ..) header follows (by simp) (by simp)

end Writers
end Minirel
