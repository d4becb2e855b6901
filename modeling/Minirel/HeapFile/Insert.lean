import Minirel.HeapFile.Object

/-! Insertion into a heap file. A record goes to the first free slot of the
current page or, when it does not fit there, to a new page behind it. -/
namespace Minirel
open Enumerate Function Program FlatFile

variable {st : Flat} {name : Name} {f : FlatFile} {hdr : FileHdrPage} {chain pre post : Chain}
  {n : Int} {p q : Page} {h : HeapFile} {bytes : List UInt8}

/-- The record is on the last page and no slot before it is free, so that
later insertions come behind it. -/
def Packed (chain : Chain) (rid : RID) : Prop :=
  ∃ pre p, chain = pre ++ [(rid.pageNo, p)] ∧ ∀ j, 0 ≤ j → j ≤ rid.slotNo → p.binding j ≠ none

structure Joined (chain : Chain) (rid : RID) (bytes : List UInt8) (chain' : Chain) : Prop where
  lists : ∃ front back, chain.entries = front ++ back ∧ chain'.entries = front ++ (rid, bytes) :: back ∧
    ∀ e ∈ back, ¬ Packed chain e.1
  packed : Packed chain' rid

inductive Extended : Chain → RID → List UInt8 → Chain → Prop
  | here {pre : Chain} {n : Int} {p q : Page} {k : Int} {bytes : List UInt8}
      (binds : p.Binds bytes k q) :
      Extended (pre ++ [(n, p)]) ⟨n, k⟩ bytes (pre ++ [(n, q)])
  | behind {pre : Chain} {n : Int} {p q : Page} {m : Int} {bytes : List UInt8}
      (single : q.binding = update (fun _ => none) 0 (some bytes)) (link : Int) :
      Extended (pre ++ [(n, p)]) ⟨m, 0⟩ bytes (pre ++ [(n, p.setNextPage link), (m, q)])

theorem Joined.here {k : Int} (binds : p.Binds bytes k q) :
    Joined (pre ++ [(n, p)]) ⟨n, k⟩ bytes (pre ++ [(n, q)]) := by
  obtain ⟨before, now⟩ := binds.entries
  refine ⟨⟨Chain.entries pre ++ onPage n (span p.binding 0 k), onPage n (p.after k), ?_, ?_, ?_⟩,
    pre, q, rfl, ?_⟩
  · simp [before, onPage]
  · simp [now, onPage]
  · rintro e member ⟨pre', p', split, full⟩
    obtain ⟨⟨j, b⟩, listed, rfl⟩ := List.mem_map.mp member
    have later := (mem_span.mp listed).1
    have nonneg := binds.nonneg
    cases (List.append_inj_right' split rfl : [(n, p)] = [(n, p')])
    exact full k nonneg (by simp only; omega) binds.free
  · intro j low high
    rw [binds.binding]
    by_cases same : j = k
    · rw [same, update_self]
      simp
    · rw [update_of_ne same]
      exact binds.first j low (lt_of_le_of_ne high same)

def Single (q : Page) (bytes : List UInt8) :
    Prop := q.binding = update (fun _ => none) 0 (some bytes)

theorem Single.entries (single : Single q bytes) : q.entries = [(0, bytes)] := by
  have found : q.binding 0 = some bytes := by rw [single, update_self]
  rw [Page.entries, span_hit (Int.le_refl 0) (by omega) found, span_of_le (Int.le_refl 0), single,
    span_update_outside (Or.inl (by omega)), span_eq_nil (fun _ _ _ => rfl)]
  rfl

theorem Joined.behind {m : Int} (single : Single q bytes) (link : Int) :
    Joined (pre ++ [(n, p)]) ⟨m, 0⟩ bytes (pre ++ [(n, p.setNextPage link), (m, q)]) := by
  have same : (p.setNextPage link).entries = p.entries := by
    rw [Page.entries, Page.binding_setNextPage]
    rfl
  refine ⟨⟨Chain.entries (pre ++ [(n, p)]), [], by simp, by simp [same, single.entries, onPage],
    by simp⟩, pre ++ [(n, p.setNextPage link)], q, by simp, ?_⟩
  intro j low high
  obtain rfl : j = 0 := le_antisymm high low
  rw [single, update_self]
  simp

theorem Extended.joined {chain' : Chain} {rid : RID} (extended : Extended chain rid bytes chain') :
    Joined chain rid bytes chain' := by
  cases extended with
  | here binds => exact .here binds
  | behind single link => exact .behind single link

namespace InsertFileScan

theorem new_spec (heap : Heap f hdr chain) (there : st.files name = some f) (named : name ≠ []) :
    ∃ h, Flat.run (InsertFileScan.new name) st = some (.ok h, st.opened name) ∧
      h.Opened name f hdr.lastPage := by
  have there' : (st.opened name).files name = some f := there
  obtain ⟨p, rest, rfl⟩ := heap.first_page
  obtain ⟨q, pre, split⟩ := heap.last_page
  obtain ⟨_, low, high, _⟩ := heap.pages hdr.lastPage q (by rw [split]; simp)
  have opened : HeapFile.Opened ⟨name, f.firstPage, false, some hdr.firstPage, hdr.firstPage, false,
    nullRid⟩
      name f hdr.firstPage := ⟨rfl, rfl, rfl, rfl⟩
  rw [InsertFileScan.new, Flat.run, run_bind_of _ _ (HeapFile.new_spec heap there named)]
  simp only
  rw [run_bind_of _ _ (opened.run_headerPage there' heap.header)]
  by_cases same : hdr.firstPage = hdr.lastPage
  · refine ⟨⟨name, f.firstPage, false, some hdr.firstPage, hdr.firstPage, false, nullRid⟩, ?_,
      rfl, rfl, congrArg some same, same⟩
    rw [if_neg (by simp [same])]
    rfl
  · refine ⟨⟨name, f.firstPage, false, some hdr.lastPage, hdr.lastPage, false, nullRid⟩, ?_, rfl,
      rfl, rfl, rfl⟩
    rw [if_pos (by simp [same]), run_bind_of _ _ (Flat.run_unPinPage ..),
      run_bind_of _ _ (Flat.run_readPage there' low high)]
    rfl

theorem delete_spec (file : h.filePtr = name) (isOpen : st.openCnt name ≠ 0) :
    Flat.run (InsertFileScan.delete h) st = some ((), st.closed name) := by
  unfold InsertFileScan.delete
  split
  · rw [Flat.run, run_bind_of _ _ (Flat.run_unPinPage ..)]
    exact HeapFile.delete_spec file isOpen
  · exact HeapFile.delete_spec file isOpen

/-- The header counts one record more. -/
theorem counted_spec (opened : h.Opened name f n) (there : st.files name = some f)
    (header : f.page f.firstPage = .header hdr) :
    ∃ h', Flat.run (counted h) st = some (h',
      st.put name (f.set f.firstPage (.header { hdr with recCnt := hdr.recCnt + 1 }))) ∧
        h'.Opened name f n := by
  refine ⟨{ h with hdrDirtyFlag := true, curDirtyFlag := true }, ?_,
    opened.file, opened.header, opened.page, opened.number⟩
  rw [counted, Flat.run, run_bind_of _ _ (opened.run_headerPage there header),
    run_bind_of _ _ (opened.run_setHeaderPage there _)]
  rfl

theorem run_insertRecord (opened : h.Opened name f n) (there : st.files name = some f)
    (image : f.page n = .data p) (rec : Record) (low : 0 ≤ rec.length) (high : rec.length ≤ 1004) :
    Flat.run (insertRecord h rec) st = Flat.run (insertOnPage h rec p) st := by
  have some' : h.curPage ≠ none := by simp [opened.page]
  have len : ¬ (rec.length < 0 ∨ rec.length > pageSize - dpFixed) := by
    simp only [pageSize, dpFixed]
    omega
  unfold insertRecord
  rw [if_neg len]
  simp only [some', if_false]
  exact run_bind_of _ _ (opened.run_page there image)

/-- A record that fits on the current page, wherever in the chain that is. -/
theorem insertRecord_here (heap : Heap f hdr (pre ++ (n, p) :: post))
    (there : st.files name = some f) (opened : h.Opened name f n) (nonempty : 0 < bytes.length)
    (fits : (bytes.length : Int) + 4 ≤ p.freeSpace) :
    ∃ k q h' g, Flat.run (insertRecord h (.ofBytes bytes)) st =
      some ((.ok ⟨n, k⟩, h'), st.put name g) ∧ p.Binds bytes k q ∧
        Heap g { hdr with recCnt := hdr.recCnt + 1 } (pre ++ (n, q) :: post) ∧
      g.firstPage = f.firstPage ∧ g.numPages = f.numPages ∧ h'.Opened name g n := by
  obtain ⟨image, _, _, apart, inv, number⟩ := heap.page_self
  obtain ⟨k, q, insert, binds⟩ := Page.insertRecord_spec inv nonempty fits
  obtain ⟨before, now⟩ := binds.entries
  have counted : hdr.recCnt + 1 = (Chain.entries (pre ++ (n, q) :: post)).length := by
    rw [heap.recCnt]
    simp only [Chain.entries_append, Chain.entries_cons, before, now, onPage, List.map_append,
      List.map_cons, List.length_append, List.length_cons]
    omega
  have there' := Flat.files_put st name (f.set n (.data q))
  have header : (f.set n (.data q)).page f.firstPage = .header hdr := by
    rw [set_page_of_ne _ _ apart.symm]
    exact heap.header
  have opened' : h.Opened name (f.set n (.data q)) n :=
    ⟨opened.file, opened.header, opened.page, opened.number⟩
  obtain ⟨h', count, final⟩ := counted_spec opened' there' header
  have small : (Record.ofBytes bytes).length ≤ 1004 := by
    have := inv.space_eq
    have := inv.used
    have := inv.count
    rw [Record.ofBytes_length]
    omega
  refine ⟨k, q, h', _, ?_, binds, heap.update binds.invariant binds.next binds.cur counted, rfl, rfl,
    final.file, final.header, final.page, final.number⟩
  rw [run_insertRecord opened there image _ (Int.natCast_nonneg _) small, insertOnPage, insert, number]
  simp only
  rw [Flat.run, run_bind_of _ _ (opened.run_setPage there q), run_bind_of _ _ count, Flat.put_put]
  rfl

/-- What insertion on a new page does to the file, whatever page is current:
the new page is linked behind the current one. -/
structure Grown (f : FlatFile) (hdr : FileHdrPage) (n : Int) (p : Page) (bytes : List UInt8)
    (q : Page) (g : FlatFile) : Prop where
  invariant : q.Invariant
  cur : q.curPage = f.numPages
  next : q.nextPage = -1
  single : Single q bytes
  firstPage : g.firstPage = f.firstPage
  numPages : g.numPages = f.numPages + 1
  header : g.page f.firstPage = .header { hdr with
    lastPage := f.numPages, pageCnt := hdr.pageCnt + 1, recCnt := hdr.recCnt + 1 }
  old : g.page n = .data (p.setNextPage f.numPages)
  new : g.page f.numPages = .data q
  others : ∀ m, m ≠ f.firstPage → m ≠ n → m ≠ f.numPages → g.page m = f.page m

theorem insertRecord_init (scratch : Page) (m : Int) (nonempty : 0 < bytes.length)
    (small : bytes.length ≤ 1000) :
    ∃ q, ((scratch.init m).setNextPage (-1)).insertRecord (.ofBytes bytes) = .ok (⟨m, 0⟩, q) ∧
      q.Invariant ∧ q.curPage = m ∧ q.nextPage = -1 ∧ Single q bytes := by
  obtain ⟨blank, hblank⟩ : ∃ blank, blank = (scratch.init m).setNextPage (-1) := ⟨_, rfl⟩
  have inv : blank.Invariant := hblank ▸ (Page.init_invariant ..).setNextPage _
  have empty : blank.binding = fun _ => none := by
    rw [hblank, Page.binding_setNextPage, Page.binding_init]
  have space : blank.freeSpace = 1004 := by rw [hblank]; rfl
  have cur : blank.curPage = m := by rw [hblank]; rfl
  have next : blank.nextPage = -1 := by rw [hblank]; rfl
  obtain ⟨k, q, insert, binds⟩ := Page.insertRecord_spec inv nonempty (by omega)
  obtain rfl : k = 0 := by
    by_contra apart
    exact binds.first 0 (Int.le_refl 0) (lt_of_le_of_ne binds.nonneg (Ne.symm apart)) (by rw [empty])
  rw [cur] at insert
  refine ⟨q, hblank ▸ insert, binds.invariant, binds.cur.trans cur, binds.next.trans next, ?_⟩
  rw [Single, binds.binding, empty]

structure Linked (f : FlatFile) (hdr : FileHdrPage) (n : Int) (p blank : Page) (g : FlatFile) :
    Prop where
  firstPage : g.firstPage = f.firstPage
  numPages : g.numPages = f.numPages + 1
  header : g.page f.firstPage = .header { hdr with lastPage := f.numPages, pageCnt := hdr.pageCnt + 1 }
  old : g.page n = .data (p.setNextPage f.numPages)
  new : g.page f.numPages = .data blank
  others : ∀ m, m ≠ f.firstPage → m ≠ n → m ≠ f.numPages → g.page m = f.page m

theorem run_insertOnNewPage (there : st.files name = some f) (opened : h.Opened name f n)
    (image : f.page n = .data p) (header : f.page f.firstPage = .header hdr)
    (apart : n ≠ f.firstPage) (inside : 1 ≤ f.firstPage ∧ f.firstPage < f.numPages)
    (high : n < f.numPages) (rec : Record) :
    ∃ e g, e.Opened name g f.numPages ∧
      Linked f hdr n p ((st.scratch.init f.numPages).setNextPage (-1)) g ∧
      Flat.run (insertOnNewPage h rec) st =
        Flat.run (match ((st.scratch.init f.numPages).setNextPage (-1)).insertRecord rec with
          | .error status => return (.error status, e)
          | .ok (rid, page) => do
            e.setPage page
            return (.ok rid, ← counted e)) (st.put name g) := by
  obtain ⟨m, hm⟩ : ∃ m, m = f.numPages := ⟨_, rfl⟩
  rw [← hm] at inside high
  obtain ⟨blank, hb⟩ : ∃ blank, blank = (st.scratch.init m).setNextPage (-1) := ⟨_, rfl⟩
  -- the file after each store
  obtain ⟨f1, h1⟩ : ∃ f1, f1 = st.allocated f := ⟨_, rfl⟩
  have first1 : f1.firstPage = f.firstPage := by
    rw [h1]
    exact if_neg (by omega)
  have page1 : f1.page = update f.page m (.data st.scratch) := by rw [h1, hm]; rfl
  obtain ⟨f2, h2⟩ : ∃ f2, f2 = f1.set m (.data blank) := ⟨_, rfl⟩
  obtain ⟨f3, h3⟩ : ∃ f3, f3 = f2.set f.firstPage
    (.header { hdr with lastPage := m, pageCnt := hdr.pageCnt + 1 }) := ⟨_, rfl⟩
  obtain ⟨f4, h4⟩ : ∃ f4, f4 = f3.set n (.data (p.setNextPage m)) := ⟨_, rfl⟩
  have header2 : f2.page f.firstPage = .header hdr := by
    rw [h2, set_page_of_ne _ _ (by omega), page1, update_of_ne (by omega)]
    exact header
  have image3 : f3.page n = .data p := by
    rw [h3, set_page_of_ne _ _ apart, h2, set_page_of_ne _ _ (by omega), page1,
      update_of_ne (by omega)]
    exact image
  have image4 : f4.page m = .data blank := by
    rw [h4, set_page_of_ne _ _ (by omega), h3, set_page_of_ne _ _ (by omega), h2,
      set_page_self]
  have there' (g : FlatFile) := Flat.files_put st name g
  obtain ⟨d, hd⟩ : ∃ d : HeapFile, d = { h with hdrDirtyFlag := true } := ⟨_, rfl⟩
  obtain ⟨e, he⟩ : ∃ e : HeapFile, e = { d with curPage := some m, curPageNo := m } := ⟨_, rfl⟩
  have first2 : f2.firstPage = f.firstPage := by rw [h2]; exact first1
  have first3 : f3.firstPage = f.firstPage := by rw [h3]; exact first2
  have first4 : f4.firstPage = f.firstPage := by rw [h4]; exact first3
  have opened2 : h.Opened name f2 n := opened.congr first2
  have opened3 : d.Opened name f3 n := by
    rw [hd]
    exact ⟨opened.file, opened.header.trans first3.symm, opened.page, opened.number⟩
  have opened4 : e.Opened name f4 m := by
    rw [he]
    exact ⟨opened3.file, opened3.header.trans (first3.trans first4.symm), rfl, rfl⟩
  refine ⟨e, f4, hm ▸ opened4, ⟨first4, ?_, ?_, ?_, ?_, ?_⟩, ?_⟩
  · rw [h4, h3, h2, h1]
    rfl
  · rw [h4, set_page_of_ne _ _ apart.symm, h3, set_page_self, hm]
  · rw [h4, set_page_self, hm]
  · rw [← hm, image4, hb]
  · intro l h6 h7 h8
    rw [← hm] at h8
    rw [h4, set_page_of_ne _ _ h7, h3, set_page_of_ne _ _ h6, h2,
      set_page_of_ne _ _ h8, page1, update_of_ne h8]
  · rw [insertOnNewPage, opened.file, Flat.run, run_bind_of _ _ (Flat.run_allocPage there), ← h1, ← hm]
    simp only
    rw [run_bind_of _ _ (Flat.run_page (there' f1) (by rw [page1, update_self])),
      run_bind_of _ _ (Flat.run_setPage (there' f1)), Flat.put_put, ← hb, ← h2,
      run_bind_of _ _ (opened2.run_headerPage (there' f2) (by rw [first2]; exact header2)),
      run_bind_of _ _ (opened2.run_setHeaderPage (there' f2) _), Flat.put_put, first2, ← h3]
    have load3 := opened3.run_page (there' f3) image3
    have store3 := opened3.run_setPage (there' f3) (p.setNextPage m)
    have load4 := opened4.run_page (there' f4) image4
    rw [Flat.put_put, ← h4] at store3
    rw [he, hd] at load4
    rw [hd] at load3 store3
    simp only [opened.file] at load3 store3 load4 ⊢
    rw [run_bind_of _ _ load3, run_bind_of _ _ store3,
      run_bind_of _ _ (Flat.run_unPinPage ..)]
    simp only [ne_eq, not_true_eq_false, if_false]
    rewrite [run_bind_of _ _ load4, he, hd, opened.file]
    cases blank.insertRecord rec <;> rfl

theorem insertOnNewPage_spec (there : st.files name = some f) (opened : h.Opened name f n)
    (image : f.page n = .data p) (header : f.page f.firstPage = .header hdr)
    (apart : n ≠ f.firstPage) (inside : 1 ≤ f.firstPage ∧ f.firstPage < f.numPages)
    (high : n < f.numPages) (nonempty : 0 < bytes.length) (small : bytes.length ≤ 1000) :
    ∃ q h' g, Flat.run (insertOnNewPage h (.ofBytes bytes)) st =
        some ((.ok ⟨f.numPages, 0⟩, h'), st.put name g) ∧
      Grown f hdr n p bytes q g ∧ h'.Opened name g f.numPages := by
  obtain ⟨q, insert, inv, cur, next, single⟩ := insertRecord_init st.scratch f.numPages nonempty small
  obtain ⟨e, f4, opened4, linked, run⟩ :=
    run_insertOnNewPage there opened image header apart inside high (.ofBytes bytes)
  obtain ⟨f5, h5⟩ : ∃ f5, f5 = f4.set f.numPages (.data q) := ⟨_, rfl⟩
  have there' (g : FlatFile) := Flat.files_put st name g
  have first5 : f5.firstPage = f.firstPage := by rw [h5]; exact linked.firstPage
  have opened5 : e.Opened name f5 f.numPages := opened4.congr (first5.trans linked.firstPage.symm)
  have header5 : f5.page f5.firstPage =
      .header { hdr with lastPage := f.numPages, pageCnt := hdr.pageCnt + 1 } := by
    rw [first5, h5, set_page_of_ne _ _ (by omega), linked.header]
  obtain ⟨h', count, final⟩ := counted_spec opened5 (there' f5) header5
  have store := opened4.run_setPage (there' f4) q
  rw [Flat.put_put, ← h5] at store
  rw [Flat.put_put] at count
  refine ⟨q, h', f5.set f5.firstPage (.header { hdr with
    lastPage := f.numPages, pageCnt := hdr.pageCnt + 1, recCnt := hdr.recCnt + 1 }), ?_, ?_,
      final.congr rfl⟩
  · rw [run, insert]
    simp only
    rw [Flat.run, run_bind_of _ _ store, run_bind_of _ _ count]
    rfl
  · refine ⟨inv, cur, next, single, first5, ?_, ?_, ?_, ?_, ?_⟩
    · rw [h5]
      exact linked.numPages
    · rw [first5, set_page_self]
    · rw [first5, set_page_of_ne _ _ apart, h5, set_page_of_ne _ _ (by omega),
        linked.old]
    · rw [first5, set_page_of_ne _ _ (by omega), h5, set_page_self]
    · intro l h6 h7 h8
      rw [first5, set_page_of_ne _ _ h6, h5, set_page_of_ne _ _ h8,
        linked.others l h6 h7 h8]

theorem insertRecord_behind (heap : Heap f hdr (pre ++ [(n, p)])) (there : st.files name = some f)
    (opened : h.Opened name f n) (nonempty : 0 < bytes.length) (small : bytes.length ≤ 1000)
    (full : p.freeSpace < (bytes.length : Int) + 4) :
    ∃ q h' g, Flat.run (insertRecord h (.ofBytes bytes)) st =
        some ((.ok ⟨f.numPages, 0⟩, h'), st.put name g) ∧
      Single q bytes ∧
      Heap g { hdr with lastPage := f.numPages, pageCnt := hdr.pageCnt + 1, recCnt :=
        hdr.recCnt + 1 }
        (pre ++ [(n, p.setNextPage f.numPages), (f.numPages, q)]) ∧
      g.firstPage = f.firstPage ∧ g.numPages = f.numPages + 1 ∧ h'.Opened name g f.numPages := by
  obtain ⟨image, _, high, apart, inv, number⟩ := heap.page_self
  obtain ⟨q, h', g, run, grown, opened'⟩ :=
    insertOnNewPage_spec there opened image heap.header apart heap.inside high nonempty small
  have entries : (p.setNextPage f.numPages).entries = p.entries := by
    rw [Page.entries, Page.binding_setNextPage]
    rfl
  have counted : hdr.recCnt + 1 =
      (Chain.entries (pre ++ [(n, p.setNextPage f.numPages), (f.numPages, q)])).length := by
    rw [heap.recCnt]
    simp [entries, grown.single.entries, onPage]
    omega
  refine ⟨q, h', g, ?_, grown.single,
    heap.extend (inv.setNextPage f.numPages) rfl rfl grown.invariant grown.cur grown.next
    grown.firstPage grown.numPages counted grown.header grown.old grown.new grown.others,
    grown.firstPage, grown.numPages, opened'⟩
  have length : (Record.ofBytes bytes).length ≤ 1004 := by
    rw [Record.ofBytes_length]
    omega
  rw [run_insertRecord opened there image _ (Int.natCast_nonneg _) length, insertOnPage,
    Page.insertRecord_full _ (by simpa using full)]
  exact run

/-- An object on the last page inserts any record of admissible length. -/
theorem insertRecord_extends (heap : Heap f hdr chain) (there : st.files name = some f)
    (opened : h.Opened name f hdr.lastPage) (nonempty : 0 < bytes.length)
    (small : bytes.length ≤ 1000) :
    ∃ rid h' g hdr' chain', Flat.run (insertRecord h (.ofBytes bytes)) st =
        some ((.ok rid, h'), st.put name g) ∧
      Heap g hdr' chain' ∧ h'.Opened name g hdr'.lastPage ∧ g.firstPage = f.firstPage ∧
      Extended chain rid bytes chain' := by
  obtain ⟨p, pre, rfl⟩ := heap.last_page
  by_cases fits : (bytes.length : Int) + 4 ≤ p.freeSpace
  · obtain ⟨k, q, h', g, run, binds, heap', first, _, opened'⟩ :=
      insertRecord_here heap there opened nonempty fits
    exact ⟨_, h', g, _, _, run, heap', opened', first, .here binds⟩
  · obtain ⟨q, h', g, run, single, heap', first, _, opened'⟩ :=
      insertRecord_behind heap there opened nonempty small (by omega)
    exact ⟨_, h', g, _, _, run, heap', opened', first, .behind single _⟩

/-- On the last page, or on a new one behind it. -/
theorem insertRecord_spec (heap : Heap f hdr chain) (there : st.files name = some f)
    (opened : h.Opened name f hdr.lastPage) (nonempty : 0 < bytes.length)
    (small : bytes.length ≤ 1000) :
    ∃ rid h' g hdr' chain', Flat.run (insertRecord h (.ofBytes bytes)) st =
        some ((.ok rid, h'), st.put name g) ∧
      Heap g hdr' chain' ∧ h'.Opened name g hdr'.lastPage ∧ Joined chain rid bytes chain' := by
  obtain ⟨rid, h', g, hdr', chain', run, heap', opened', _, extended⟩ :=
    insertRecord_extends heap there opened nonempty small
  exact ⟨rid, h', g, hdr', chain', run, heap', opened', extended.joined⟩

/-! Records of other lengths. -/

section lengths
variable {rec : Record}

theorem insertRecord_invalid (bad : rec.length < 0 ∨ 1004 < rec.length) :
    Flat.run (insertRecord h rec) st = some ((.error .invalidRecLen, h), st) := by
  unfold insertRecord
  rw [if_pos (by simp only [pageSize, dpFixed]; omega)]
  rfl

/-- A record that passes for one that fits, but does not fit with its slot: a new
page is linked to the file and stays empty. -/
theorem insertRecord_noSpace (rec : Record) (heap : Heap f hdr (pre ++ [(n, p)]))
    (there : st.files name = some f) (opened : h.Opened name f n) (low : 1000 < rec.length)
    (high : rec.length ≤ 1004) :
    ∃ h' g, Flat.run (insertRecord h rec) st = some ((.error .noSpace, h'), st.put name g) ∧
      h'.filePtr = name ∧ Linked f hdr n p ((st.scratch.init f.numPages).setNextPage (-1)) g := by
  obtain ⟨image, _, below, apart, inv, _⟩ := heap.page_self
  obtain ⟨e, g, openedE, linked, run⟩ :=
    run_insertOnNewPage there opened image heap.header apart heap.inside below rec
  have full : rec.length + 4 > p.freeSpace := by
    have := inv.space_eq
    have := inv.used
    have := inv.count
    omega
  have space : ((st.scratch.init f.numPages).setNextPage (-1)).freeSpace = 1004 := rfl
  refine ⟨e, g, ?_, openedE.file, linked⟩
  rw [run_insertRecord opened there image rec (by omega) high, insertOnPage,
    Page.insertRecord_full _ full]
  simp only
  rw [run, Page.insertRecord_full _ (by rw [space]; omega)]
  rfl

theorem Linked.heap (heap : Heap f hdr (pre ++ [(n, p)])) {scratch : Page} {g : FlatFile}
    (linked : Linked f hdr n p ((scratch.init f.numPages).setNextPage (-1)) g) :
    ∃ hdr' chain', Heap g hdr' chain' ∧ chain'.entries = Chain.entries (pre ++ [(n, p)]) := by
  obtain ⟨_, _, _, _, inv, _⟩ := heap.page_self
  have empty : ((scratch.init f.numPages).setNextPage (-1)).entries = [] := by
    rw [Page.entries, Page.binding_setNextPage, Page.binding_init]
    exact Enumerate.span_eq_nil fun _ _ _ => rfl
  have entries : (p.setNextPage f.numPages).entries = p.entries := by
    rw [Page.entries, Page.binding_setNextPage, Page.entries]
  have same : Chain.entries (pre ++ [(n, p.setNextPage f.numPages),
      (f.numPages, (scratch.init f.numPages).setNextPage (-1))]) = Chain.entries (pre ++ [(n, p)]) := by
    simp [entries, empty, onPage]
  exact ⟨_, _, heap.extend (inv.setNextPage f.numPages) rfl rfl
    ((Page.init_invariant scratch _).setNextPage _) rfl rfl
    linked.firstPage linked.numPages (heap.recCnt.trans (by rw [same])) linked.header linked.old
      linked.new linked.others,
    same⟩

/-- An empty record is accepted, on the current page or on a new one. -/
theorem insertRecord_empty (rec : Record) (heap : Heap f hdr (pre ++ [(n, p)]))
    (there : st.files name = some f) (opened : h.Opened name f n) (empty : rec.length = 0) :
    ∃ rid h' g, Flat.run (insertRecord h rec) st = some ((.ok rid, h'), st.put name g) ∧
      h'.filePtr = name := by
  obtain ⟨image, _, below, apart, _, _⟩ := heap.page_self
  rw [run_insertRecord opened there image rec (by omega) (by omega), insertOnPage]
  cases insert : p.insertRecord rec with
  | ok r =>
    obtain ⟨rid, q⟩ := r
    have header : (f.set n (.data q)).page f.firstPage = .header hdr := by
      rw [set_page_of_ne _ _ apart.symm]
      exact heap.header
    have opened' : h.Opened name (f.set n (.data q)) n := opened.congr rfl
    obtain ⟨h', count, final⟩ := counted_spec opened' (Flat.files_put st name _) header
    rw [Flat.put_put] at count
    simp only
    rw [Flat.run, run_bind_of _ _ (opened.run_setPage there q), run_bind_of _ _ count]
    exact ⟨rid, h', _, rfl, final.file⟩
  | error status =>
    obtain ⟨e, g, openedE, linked, run⟩ :=
      run_insertOnNewPage there opened image heap.header apart heap.inside below rec
    have accepted : ∃ r, ((st.scratch.init f.numPages).setNextPage (-1)).insertRecord rec = .ok r := by
      have space : ((st.scratch.init f.numPages).setNextPage (-1)).freeSpace = 1004 := rfl
      simp only [Page.insertRecord, space, empty]
      exact ⟨_, rfl⟩
    obtain ⟨⟨rid, q⟩, accepted⟩ := accepted
    have header : (g.set f.numPages (.data q)).page g.firstPage =
        .header { hdr with lastPage := f.numPages, pageCnt := hdr.pageCnt + 1 } := by
      rw [linked.firstPage, set_page_of_ne _ _ (by have := heap.inside; omega), linked.header]
    have opened' : e.Opened name (g.set f.numPages (.data q)) f.numPages := openedE.congr rfl
    obtain ⟨h', count, final⟩ := counted_spec opened' (Flat.files_put (st.put name g) name _) header
    rw [Flat.put_put, Flat.put_put] at count
    simp only
    rw [run, accepted]
    simp only
    rw [Flat.run, run_bind_of _ _ (openedE.run_setPage (Flat.files_put ..) q), Flat.put_put,
      run_bind_of _ _ count]
    exact ⟨rid, h', _, rfl, final.file⟩

end lengths

end InsertFileScan
end Minirel
