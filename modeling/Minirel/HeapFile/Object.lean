import Minirel.HeapFile
import Minirel.HeapFile.Chain

/-! Heap file objects: creation of a file, construction and destruction of an
object, and access by record identifier. -/
namespace Minirel
open Enumerate Program

variable {st : Flat} {name : Name} {f : FlatFile} {hdr : FileHdrPage} {chain : Chain} {n : Int}
    {p q : Page}

def firstDataPage (st : Flat) : Page := (st.scratch.init 2).setNextPage (-1)

def newFile (st : Flat) : FlatFile :=
  (((st.allocated (st.allocated st.emptyFile)).set 2 (.data (firstDataPage st))).set 1
    (.header ⟨2, 2, 1, 0⟩))

/-- The header page and one empty data page. -/
theorem createHeapFile_spec (named : name ≠ []) (absent : st.files name = none)
    (unopened : st.openCnt name = 0) (creatable : st.creatable name = true) :
    Flat.run (createHeapFile name) st = some (.ok, st.put name (newFile st)) := by
  have put (f g : FlatFile) : ((st.opened name).put name f).put name g = (st.opened name).put name g :=
    Flat.put_put ..
  have there (f : FlatFile) : ((st.opened name).put name f).files name = some f := Flat.files_put ..
  have created : Flat.run (Storage.openFile name) (st.put name st.emptyFile) =
      some (.ok, (st.opened name).put name st.emptyFile) := Flat.run_openFile (Flat.files_put ..) named
  have alloc (f : FlatFile) : Flat.run (Storage.allocPage name) ((st.opened name).put name f) =
      some (.ok f.numPages, (st.opened name).put name (st.allocated f)) := by
    rw [Flat.run_allocPage (there f), put]
    rfl
  have image : (st.allocated (st.allocated st.emptyFile)).page 2 = .data st.scratch := rfl
  have isOpen (f : FlatFile) : ((st.opened name).put name f).openCnt name ≠ 0 := by simp
  rw [createHeapFile, Flat.run, run_bind_of _ _ (Flat.run_openFile_absent absent unopened named)]
  simp only [reduceCtorEq, if_false]
  rw [run_bind_of _ _ (Flat.run_createFile absent unopened named creatable)]
  simp only [ne_eq, not_true_eq_false, if_false]
  rw [run_bind_of _ _ created]
  simp only [not_true_eq_false, if_false]
  rw [run_bind_of _ _ (alloc _)]
  simp only
  rw [run_bind_of _ _ (alloc _)]
  change run Flat.handle (Storage.page name 2 >>= _) _ = _
  rw [run_bind_of _ _ (Flat.run_page (there _) image), run_bind_of _ _ (Flat.run_setPage (there _)),
    put, run_bind_of _ _ (Flat.run_setHeader (there _)), put,
    run_bind_of _ _ (Flat.run_unPinPage ..)]
  simp only [not_true_eq_false, if_false]
  rw [run_bind_of _ _ (Flat.run_unPinPage ..)]
  simp only [not_true_eq_false, if_false]
  rw [run_bind_of _ _ (Flat.run_flushFile ..)]
  simp only [not_true_eq_false, if_false]
  rw [← Flat.run, Flat.run_closeFile (isOpen _), Flat.closed_put, Flat.closed_opened]
  rfl

/-- What can come of the creation of a file. A file that is there already is
opened in order to find out, and stays open. -/
inductive Creation (st : Flat) (name : Name) : Status × Flat → Prop
  | nameless (empty : name = []) : Creation st name (.badFile, st)
  | known (named : name ≠ []) (known : 0 < st.openCnt name ∨ st.files name ≠ none) :
      Creation st name (.fileExists, st.opened name)
  | refused (named : name ≠ []) (absent : st.files name = none) (unopened : st.openCnt name = 0)
      (refused : st.creatable name = false) : Creation st name (.unixErr, st)
  | created (named : name ≠ []) (absent : st.files name = none) (unopened : st.openCnt name = 0)
      (creatable : st.creatable name = true) : Creation st name (.ok, st.put name (newFile st))

theorem createHeapFile_cases (st : Flat) (name : Name) :
    ∃ r, Flat.run (createHeapFile name) st = some r ∧ Creation st name r := by
  by_cases named : name = []
  · subst named
    refine ⟨_, ?_, .nameless rfl⟩
    rw [createHeapFile, Flat.run, run_bind_of _ _ (Flat.run_openFile_nameless ..)]
    simp only [reduceCtorEq, if_false]
    rw [run_bind_of _ _ (Flat.run_createFile_nameless ..)]
    rfl
  by_cases known : 0 < st.openCnt name ∨ st.files name ≠ none
  · refine ⟨_, ?_, .known named known⟩
    rw [createHeapFile, Flat.run, run_bind_of _ _ (Flat.run_openFile_known known named)]
    rfl
  obtain ⟨unopened, absent⟩ := not_or.mp known
  replace unopened : st.openCnt name = 0 := by omega
  replace absent := not_not.mp absent
  cases creatable : st.creatable name with
  | true => exact ⟨_, createHeapFile_spec named absent unopened creatable,
      .created named absent unopened creatable⟩
  | false =>
    refine ⟨_, ?_, .refused named absent unopened creatable⟩
    rw [createHeapFile, Flat.run, run_bind_of _ _ (Flat.run_openFile_absent absent unopened named)]
    simp only [reduceCtorEq, if_false]
    rw [run_bind_of _ _ (Flat.run_createFile_refused absent unopened named creatable)]
    rfl

theorem newFile_entries (st : Flat) : Chain.entries [(2, firstDataPage st)] = [] := by
  have none : (firstDataPage st).entries = [] := by
    apply span_eq_nil
    intro k _ _
    rw [firstDataPage, Page.binding_setNextPage, Page.binding_init]
  rw [Chain.entries_cons, none]
  rfl

theorem newFile_heap (st : Flat) : Heap (newFile st) ⟨2, 2, 1, 0⟩ [(2, firstDataPage st)] := by
  have first : (newFile st).firstPage = 1 := rfl
  have count : (newFile st).numPages = 3 := rfl
  refine ⟨rfl, by omega, rfl, rfl, rfl, ?_, ?_, rfl, by simp⟩
  · rw [newFile_entries]
    rfl
  · intro n p member
    cases List.mem_singleton.mp member
    exact ⟨rfl, by omega, by omega, by omega, (Page.init_invariant ..).setNextPage _, rfl⟩

structure HeapFile.Opened (h : HeapFile) (name : Name) (f : FlatFile) (n : Int) : Prop where
  file : h.filePtr = name
  header : h.headerPageNo = f.firstPage
  page : h.curPage = some n
  number : h.curPageNo = n

namespace HeapFile
variable {h : HeapFile}

theorem Opened.congr {g : FlatFile} (opened : h.Opened name f n)
    (same : g.firstPage = f.firstPage) :
    h.Opened name g n := ⟨opened.file, opened.header.trans same.symm, opened.page, opened.number⟩

theorem Opened.run_page (opened : h.Opened name f n) (there : st.files name = some f)
    (image : f.page n = .data p) : Flat.run h.page st = some (p, st) := by
  unfold HeapFile.page
  rw [opened.page, opened.file]
  exact Flat.run_page there image

theorem Opened.run_headerPage (opened : h.Opened name f n) (there : st.files name = some f)
    (image : f.page f.firstPage = .header hdr) : Flat.run h.headerPage st = some (hdr, st) := by
  unfold HeapFile.headerPage
  rw [opened.header, opened.file]
  exact Flat.run_header there image

theorem Opened.run_setPage (opened : h.Opened name f n) (there : st.files name = some f)
    (page : Page) :
    Flat.run (h.setPage page) st = some ((), st.put name (f.set n (.data page))) := by
  unfold HeapFile.setPage
  rw [opened.page, opened.file]
  exact Flat.run_setPage there

theorem Opened.run_setHeaderPage (opened : h.Opened name f n) (there : st.files name = some f)
    (fields : FileHdrPage) :
    Flat.run (h.setHeaderPage fields) st =
      some ((), st.put name (f.set f.firstPage (.header fields))) := by
  unfold HeapFile.setHeaderPage
  rw [opened.header, opened.file]
  exact Flat.run_setHeader there


theorem new_spec (heap : Heap f hdr chain) (there : st.files name = some f) (named : name ≠ []) :
    Flat.run (HeapFile.new name) st = some (.ok ⟨name, f.firstPage, false, some hdr.firstPage,
      hdr.firstPage, false, nullRid⟩, st.opened name) := by
  have there' : (st.opened name).files name = some f := there
  obtain ⟨p, rest, rfl⟩ := heap.first_page
  obtain ⟨_, low, high, _⟩ := heap.pages _ p List.mem_cons_self
  rw [HeapFile.new, Flat.run, run_bind_of _ _ (Flat.run_openFile there named)]
  simp only [ne_eq, not_true_eq_false, if_false]
  rw [run_bind_of _ _ (Flat.run_getFirstPage there')]
  simp only
  rw [run_bind_of _ _ (Flat.run_readPage there' heap.inside.1 heap.inside.2)]
  simp only [not_true_eq_false, if_false]
  rw [run_bind_of _ _ (Flat.run_header there' heap.header),
    run_bind_of _ _ (Flat.run_readPage there' low high)]
  rfl

theorem delete_spec (file : h.filePtr = name) (isOpen : st.openCnt name ≠ 0) :
    Flat.run h.delete st = some ((), st.closed name) := by
  subst file
  have close := Flat.run_closeFile isOpen
  unfold delete
  split
  · rw [Flat.run, run_bind_of _ _ (Flat.run_unPinPage ..),
      run_bind_of _ _ (Flat.run_unPinPage ..), run_bind_of _ _ close]
    rfl
  · rw [Flat.run, run_bind_of _ _ (Flat.run_unPinPage ..), run_bind_of _ _ close]
    rfl

theorem getRecord_spec {rid : RID} (opened : h.Opened name f n) (there : st.files name = some f)
    (image : f.page n = .data p) (target : f.page rid.pageNo = .data q) (low : 1 ≤ rid.pageNo)
    (high : rid.pageNo < f.numPages) :
    ∃ h', Flat.run (h.getRecord rid) st = some ((q.getRecord rid, h'), st) ∧
      h'.Opened name f rid.pageNo := by
  have some' : h.curPage ≠ none := by simp [opened.page]
  rw [getRecord, if_neg some', opened.number]
  by_cases same : rid.pageNo = n
  · subst same
    obtain rfl : p = q := by simpa [image] using target
    refine ⟨{ h with curPageNo := rid.pageNo, curRec := rid }, ?_, opened.file, opened.header,
      opened.page, rfl⟩
    rw [if_pos rfl, Flat.run, run_bind_of _ _ (opened.run_page there image)]
    rfl
  · obtain ⟨h', hh'⟩ : ∃ h' : HeapFile, h' = { h with
      filePtr := name, curPage := some rid.pageNo, curPageNo := rid.pageNo, curDirtyFlag :=
        false, curRec := rid } := ⟨_, rfl⟩
    have opened' : h'.Opened name f rid.pageNo := by
      rw [hh']
      exact ⟨rfl, opened.header, rfl, rfl⟩
    refine ⟨h', ?_, opened'⟩
    have load := opened'.run_page there target
    rw [if_neg same, Flat.run, run_bind_of _ _ (Flat.run_unPinPage ..)]
    simp only [ne_eq, not_true_eq_false, if_false]
    rw [fetch, opened.file, run_bind_of _ _ (Flat.run_readPage there low high)]
    simp only [ne_eq, not_true_eq_false, if_false, ← hh']
    rw [run_bind_of _ _ load]
    rfl

end HeapFile
end Minirel
