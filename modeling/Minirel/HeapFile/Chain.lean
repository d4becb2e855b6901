import Minirel.Flat
import Minirel.Page.Refinement

/-! Heap files as chains of pages. The records of a file are listed in the
order in which a scan meets them: along the chain, and on a page by slot. -/
namespace Minirel
open Enumerate

/-- Page numbers with the contents of the pages, from the first page on. -/
abbrev Chain := List (Int × Page)

abbrev Entry := RID × List UInt8

def onPage (n : Int) (records : List (Int × List UInt8)) : List Entry :=
  records.map fun record => (⟨n, record.1⟩, record.2)

namespace Chain

def Linked : Chain → Prop
  | [] => True
  | [(_, p)] => p.nextPage = -1
  | (_, p) :: (n, q) :: rest => p.nextPage = n ∧ Linked ((n, q) :: rest)

def entries (chain : Chain) : List Entry := chain.flatMap fun (n, p) => onPage n p.entries

@[simp] theorem entries_nil : entries [] = [] := rfl

@[simp] theorem entries_cons (n : Int) (p : Page) (rest : Chain) :
    entries ((n, p) :: rest) = onPage n p.entries ++ entries rest := rfl

@[simp] theorem entries_append (a b : Chain) : entries (a ++ b) = entries a ++ entries b :=
  List.flatMap_append ..

/-- The links of a chain that goes on after a page. -/
theorem Linked.tail {pre post : Chain} {n : Int} {p : Page}
    (linked : Linked (pre ++ (n, p) :: post)) :
    Linked ((n, p) :: post) := by
  induction pre with
  | nil => exact linked
  | cons head pre ih =>
    apply ih
    cases pre with
    | nil => exact linked.2
    | cons => exact linked.2

/-- Changing a page but not its link. -/
theorem Linked.replace {pre post : Chain} {n : Int} {p q : Page}
    (linked : Linked (pre ++ (n, p) :: post)) (next : q.nextPage = p.nextPage) :
    Linked (pre ++ (n, q) :: post) := by
  induction pre with
  | nil =>
    cases post with
    | nil => exact next.trans linked
    | cons => exact ⟨next.trans linked.1, linked.2⟩
  | cons head pre ih =>
    cases pre with
    | nil => exact ⟨linked.1, ih linked.2⟩
    | cons => exact ⟨linked.1, ih linked.2⟩

/-- Linking a new last page behind some page: whatever followed is cut off. -/
theorem Linked.cut {pre post : Chain} {n m : Int} {p p' q : Page}
    (linked : Linked (pre ++ (n, p) :: post)) (link : p'.nextPage = m) (next : q.nextPage = -1) :
    Linked (pre ++ [(n, p'), (m, q)]) := by
  induction pre with
  | nil => exact ⟨link, next⟩
  | cons head pre ih =>
    cases pre with
    | nil => exact ⟨linked.1, ih linked.2⟩
    | cons => exact ⟨linked.1, ih linked.2⟩

end Chain

def Follows (f : FlatFile) : Int → List Int → Prop
  | n, [] => n = -1
  | n, m :: rest => n ≠ -1 ∧ n = m ∧ ∃ p, f.page m = .data p ∧ Follows f p.nextPage rest

theorem Follows.unique {f : FlatFile} {n : Int} {a b : List Int} (first : Follows f n a)
    (second : Follows f n b) :
    a = b := by
  induction a generalizing n b with
  | nil =>
    cases b with
    | nil => rfl
    | cons => exact absurd first second.1
  | cons m rest ih =>
    obtain ⟨apart, rfl, p, image, follows⟩ := first
    cases b with
    | nil => exact absurd second apart
    | cons =>
      obtain ⟨_, rfl, q, image', follows'⟩ := second
      rw [image] at image'
      cases image'
      rw [ih follows follows']

theorem Chain.Linked.follows {f : FlatFile} {chain : Chain} {n : Int} (linked : chain.Linked)
    (first : (chain.map Prod.fst).head? = some n)
    (images : ∀ m q, (m, q) ∈ chain → f.page m = .data q ∧ m ≠ -1) :
    Follows f n (chain.map Prod.fst) := by
  induction chain generalizing n with
  | nil => cases first
  | cons head rest ih =>
    obtain ⟨n, p⟩ := head
    cases Option.some.inj first
    obtain ⟨image, apart⟩ := images n p List.mem_cons_self
    refine ⟨apart, rfl, p, image, ?_⟩
    cases rest with
    | nil => exact linked
    | cons next rest =>
      rw [linked.1]
      exact ih linked.2 rfl (fun m q member => images m q (List.mem_cons_of_mem _ member))

/-- `f` is a heap file with these header fields and this chain of pages. -/
structure Heap (f : FlatFile) (hdr : FileHdrPage) (chain : Chain) : Prop where
  header : f.page f.firstPage = .header hdr
  inside : 1 ≤ f.firstPage ∧ f.firstPage < f.numPages
  first : (chain.map Prod.fst).head? = some hdr.firstPage
  last : (chain.map Prod.fst).getLast? = some hdr.lastPage
  pageCnt : hdr.pageCnt = (chain.map Prod.fst).length
  recCnt : hdr.recCnt = chain.entries.length
  pages : ∀ n p, (n, p) ∈ chain → f.page n = .data p ∧ 1 ≤ n ∧ n < f.numPages ∧ n ≠ f.firstPage ∧
    p.Invariant ∧ p.curPage = n
  linked : chain.Linked
  distinct : (chain.map Prod.fst).Nodup

namespace Heap
variable {f : FlatFile} {hdr : FileHdrPage} {chain pre post : Chain} {n : Int} {p q : Page}

theorem page_self (heap : Heap f hdr (pre ++ (n, p) :: post)) :
    f.page n = .data p ∧ 1 ≤ n ∧ n < f.numPages ∧ n ≠ f.firstPage ∧ p.Invariant ∧ p.curPage = n :=
  heap.pages n p (by simp)

theorem first_page (heap : Heap f hdr chain) : ∃ p rest, chain = (hdr.firstPage, p) :: rest := by
  obtain _ | ⟨⟨n, p⟩, rest⟩ := chain
  · cases heap.first
  · cases Option.some.inj heap.first
    exact ⟨p, rest, rfl⟩

theorem last_page (heap : Heap f hdr chain) : ∃ p pre, chain = pre ++ [(hdr.lastPage, p)] := by
  rcases List.eq_nil_or_concat' chain with rfl | ⟨pre, ⟨n, p⟩, rfl⟩
  · cases heap.first
  · have last := heap.last
    rw [List.map_append, List.map_singleton, List.getLast?_concat] at last
    cases Option.some.inj last
    exact ⟨p, pre, rfl⟩

theorem follows (heap : Heap f hdr chain) : Follows f hdr.firstPage (chain.map Prod.fst) := by
  refine heap.linked.follows heap.first (fun m q member => ?_)
  obtain ⟨image, low, _⟩ := heap.pages m q member
  exact ⟨image, by omega⟩

theorem unique {hdr' : FileHdrPage} {chain' : Chain} (heap : Heap f hdr chain)
    (heap' : Heap f hdr' chain') :
    chain = chain' := by
  have sameHeader := heap.header.symm.trans heap'.header
  cases sameHeader
  have numbers := heap.follows.unique heap'.follows
  have images := heap.pages
  have images' := heap'.pages
  clear heap heap'
  induction chain generalizing chain' with
  | nil => exact (List.map_eq_nil_iff.mp numbers.symm).symm
  | cons e rest ih =>
    obtain ⟨e', rest', rfl, number, numbers'⟩ := List.map_eq_cons_iff.mp numbers.symm
    obtain ⟨n, p⟩ := e
    obtain ⟨n', p'⟩ := e'
    obtain rfl : n' = n := number
    have image := (images n' p List.mem_cons_self).1
    rw [(images' n' p' List.mem_cons_self).1] at image
    cases image
    rw [ih numbers'.symm (fun m q member => images m q (List.mem_cons_of_mem _ member))
      (fun m q member => images' m q (List.mem_cons_of_mem _ member))]

theorem other_ne (heap : Heap f hdr (pre ++ (n, p) :: post)) {m : Int} {r : Page}
    (member : (m, r) ∈ pre ∨ (m, r) ∈ post) : m ≠ n := by
  have distinct := heap.distinct
  rw [List.map_append, List.map_cons, List.nodup_append, List.nodup_cons] at distinct
  rintro rfl
  rcases member with before | behind
  · exact distinct.2.2 m (List.mem_map.mpr ⟨_, before, rfl⟩) m List.mem_cons_self rfl
  · exact distinct.2.1.1 (List.mem_map.mpr ⟨_, behind, rfl⟩)

/-- One page changes its records and the header counts them. -/
theorem update (heap : Heap f hdr (pre ++ (n, p) :: post)) (inv : q.Invariant)
    (next : q.nextPage = p.nextPage) (cur : q.curPage = p.curPage) {count : Int}
    (counted : count = (Chain.entries (pre ++ (n, q) :: post)).length) :
    Heap ((f.set n (.data q)).set f.firstPage (.header { hdr with recCnt := count }))
      { hdr with recCnt := count } (pre ++ (n, q) :: post) := by
  have numbers : (pre ++ (n, q) :: post).map Prod.fst = (pre ++ (n, p) :: post).map Prod.fst := by simp
  obtain ⟨_, low, high, apart, _, number⟩ := heap.page_self
  refine ⟨FlatFile.set_page_self .., heap.inside, ?_, ?_, ?_, counted, ?_, ?_, ?_⟩
  · rw [numbers]
    exact heap.first
  · rw [numbers]
    exact heap.last
  · rw [numbers]
    exact heap.pageCnt
  · intro m r member
    rw [List.mem_append, List.mem_cons] at member
    by_cases same : (m, r) = (n, q)
    · cases same
      refine ⟨?_, low, high, apart, inv, cur.trans number⟩
      rw [FlatFile.set_page_of_ne _ _ apart, FlatFile.set_page_self]
    · have other : (m, r) ∈ pre ∨ (m, r) ∈ post := by
        rcases member with h | h | h
        · exact Or.inl h
        · exact absurd h same
        · exact Or.inr h
      obtain ⟨image, rest⟩ := heap.pages m r (by simp [other.imp_right Or.inr])
      refine ⟨?_, rest⟩
      rw [FlatFile.set_page_of_ne _ _ rest.2.2.1, FlatFile.set_page_of_ne _ _ (heap.other_ne other)]
      exact image
  · exact heap.linked.replace next
  · rw [numbers]
    exact heap.distinct

/-- A new page, the next the file allocates, is linked behind the last one. -/
theorem extend (heap : Heap f hdr (pre ++ [(n, p)])) {g : FlatFile} {p' : Page}
    (invP : p'.Invariant) (curP : p'.curPage = p.curPage) (link : p'.nextPage = f.numPages)
    (inv : q.Invariant) (cur : q.curPage = f.numPages) (next : q.nextPage = -1)
    (firstPage : g.firstPage = f.firstPage) (numPages : g.numPages = f.numPages + 1)
    {count : Int} (counted : count = (Chain.entries (pre ++ [(n, p'), (f.numPages, q)])).length)
    (header : g.page f.firstPage =
      .header { hdr with lastPage := f.numPages, pageCnt := hdr.pageCnt + 1, recCnt := count })
    (old : g.page n = .data p') (new : g.page f.numPages = .data q)
    (others : ∀ m, m ≠ f.firstPage → m ≠ n → m ≠ f.numPages → g.page m = f.page m) :
    Heap g { hdr with lastPage := f.numPages, pageCnt := hdr.pageCnt + 1, recCnt := count }
      (pre ++ [(n, p'), (f.numPages, q)]) := by
  have numbers : (pre ++ [(n, p'), (f.numPages, q)]).map Prod.fst =
      (pre ++ [(n, p)]).map Prod.fst ++ [f.numPages] := by simp
  have inside := heap.inside
  obtain ⟨_, low, high, apart, _, number⟩ := heap.page_self
  refine ⟨by rw [firstPage, header], by omega, ?_, ?_, ?_, counted, ?_, heap.linked.cut link next, ?_⟩
  · rw [numbers, List.head?_append, heap.first]
    rfl
  · rw [numbers]
    simp
  · rw [numbers, List.length_append, Nat.cast_add, ← heap.pageCnt]
    rfl
  · intro m r member
    simp only [List.mem_append, List.mem_cons, List.not_mem_nil, or_false] at member
    rcases member with old' | same | same
    · obtain ⟨image, rest⟩ := heap.pages m r (by simp [old'])
      rw [firstPage, numPages, others m rest.2.2.1 (heap.other_ne (Or.inl old')) (by omega)]
      exact ⟨image, rest.1, by omega, rest.2.2⟩
    · cases same
      exact ⟨old, low, by omega, by omega, invP, curP.trans number⟩
    · cases same
      exact ⟨new, by omega, by omega, by omega, inv, cur⟩
  · rw [numbers, List.nodup_append]
    refine ⟨heap.distinct, by simp, ?_⟩
    intro m member l new
    rw [List.mem_singleton.mp new]
    obtain ⟨⟨m, r⟩, listed, rfl⟩ := List.mem_map.mp member
    have := (heap.pages m r listed).2.2.1
    show m ≠ f.numPages
    omega

theorem mem_entries (heap : Heap f hdr chain) {rid : RID} {b : List UInt8} :
    (rid, b) ∈ chain.entries ↔ ∃ p, (rid.pageNo, p) ∈ chain ∧ p.binding rid.slotNo = some b := by
  simp only [Chain.entries, onPage, List.mem_flatMap, List.mem_map, Prod.exists]
  constructor
  · rintro ⟨n, p, member, k, c, listed, same⟩
    cases same
    exact ⟨p, member, (mem_span.mp listed).2.2⟩
  · rintro ⟨p, member, bound⟩
    have inv := (heap.pages _ p member).2.2.2.2.1
    obtain ⟨low, high⟩ := inv.binding_bounds bound
    exact ⟨rid.pageNo, p, member, rid.slotNo, b, mem_span.mpr ⟨low, high, bound⟩, rfl⟩

theorem entry_length (heap : Heap f hdr chain) {e : Entry} (member : e ∈ chain.entries) :
    0 < e.2.length ∧ e.2.length ≤ 1000 := by
  obtain ⟨rid, b⟩ := e
  obtain ⟨p, listed, bound⟩ := heap.mem_entries.mp member
  have inv := (heap.pages _ p listed).2.2.2.2.1
  have live : p.Live (-rid.slotNo) := Page.binding_ne_none.mp (by simp [bound])
  rw [Page.binding_live live] at bound
  obtain ⟨positive, start, finish⟩ := inv.extent _ live
  have length : b.length = (p.slot (-rid.slotNo)).length.toNat := by
    rw [← Option.some.inj bound, Page.record]
    simp [ByteMemory.read]
  have space := inv.space_eq
  have room := inv.room
  have slots : p.slotCnt < 0 := by
    obtain ⟨low, high, _⟩ := live
    omega
  simp only [length]
  omega

theorem entries_nodup (heap : Heap f hdr chain) : (chain.entries.map Prod.fst).Nodup := by
  have distinct := heap.distinct
  clear heap
  induction chain with
  | nil => exact List.nodup_nil
  | cons head rest ih =>
    obtain ⟨n, p⟩ := head
    rw [List.map_cons, List.nodup_cons] at distinct
    rw [Chain.entries_cons, List.map_append, List.nodup_append]
    refine ⟨?_, ih distinct.2, ?_⟩
    · have increasing := span_increasing p.binding 0 251
      unfold onPage Page.entries
      rw [List.map_map, List.nodup_iff_pairwise_ne, List.pairwise_map]
      refine increasing.imp (fun {a b} less same => ?_)
      have := congrArg RID.slotNo same
      simp only [Function.comp_apply] at this
      omega
    · intro a first b second
      simp only [Chain.entries, onPage, List.map_map, List.mem_map, List.mem_flatMap] at first second
      obtain ⟨_, _, rfl⟩ := first
      obtain ⟨_, ⟨⟨m, q⟩, member, _, _, rfl⟩, rfl⟩ := second
      intro same
      apply distinct.1
      have number : n = m := congrArg RID.pageNo same
      exact List.mem_map.mpr ⟨(m, q), member, number.symm⟩

end Heap
end Minirel
