import Minirel.HeapFile.Contract
import Minirel.Flat

/-! Which calls the methods of heap-file objects make: between its constructor
and its destructor an object calls for pages of its own file only. -/
namespace Minirel
open Program

namespace StorageCall

def Reads (file : Name) : StorageCall → Prop
  | .getFirstPage f | .readPage f _ | .unPinPage f _ _ | .load f _ => f = file
  | _ => False

def Touches (file : Name) : StorageCall → Prop
  | .getFirstPage f | .readPage f _ | .unPinPage f _ _ | .load f _ | .allocPage f | .store f _ _ =>
    f = file
  | _ => False

theorem Reads.touches {file : Name} {c : StorageCall} (reads : c.Reads file) : c.Touches file := by
  cases c <;> first | exact reads | cases reads

end StorageCall

open StorageCall

section makes
variable {ok : StorageCall → Prop} {file : Name} {n : Int}

theorem Storage.page_makes {post : Page → Prop} (loads : ok (.load file n))
    (holds : ∀ page, post page) :
    (Storage.page file n).Makes ok post := by
  refine ⟨loads, fun reply => ?_⟩
  cases reply with
  | data page => exact holds page
  | header => trivial

theorem Storage.header_makes {post : FileHdrPage → Prop} (loads : ok (.load file n))
    (holds : ∀ hdr, post hdr) :
    (Storage.header file n).Makes ok post := by
  refine ⟨loads, fun reply => ?_⟩
  cases reply with
  | data => trivial
  | header hdr => exact holds hdr

variable {h : HeapFile} {s : HeapFileScan}

theorem HeapFile.page_makes {post : Page → Prop} (loads : ∀ n, ok (.load h.filePtr n))
    (holds : ∀ page, post page) :
    h.page.Makes ok post := by
  unfold HeapFile.page
  cases h.curPage with
  | none => trivial
  | some n => exact Storage.page_makes (loads n) holds

theorem HeapFile.setPage_makes {page : Page} {post : Unit → Prop}
    (stores : ∀ n image, ok (.store h.filePtr n image)) (holds : post ()) :
    (h.setPage page).Makes ok post := by
  unfold HeapFile.setPage
  cases h.curPage with
  | none => trivial
  | some n => exact ⟨stores n _, fun _ => holds⟩

namespace HeapFileScan

theorem endScan_makes (s : HeapFileScan) : s.endScan.Makes (Reads s.filePtr) fun r =>
    r.2.filePtr = s.filePtr := by
  simp only [endScan, makes_ite, makes_bind, makes_pure, Storage.unPinPage, makes_perform]
  exact ⟨fun _ => ⟨rfl, fun _ => trivial⟩, fun _ => trivial⟩

theorem nextPages_makes (fuel : Nat) (s : HeapFileScan) :
    (nextPages fuel s).Makes (Reads s.filePtr) fun r => r.2.filePtr = s.filePtr := by
  induction fuel generalizing s with
  | zero => trivial
  | succ fuel ih =>
    simp only [nextPages, makes_bind, makes_ite, makes_pure, Storage.unPinPage, Storage.readPage,
      makes_perform]
    refine HeapFile.page_makes (fun _ => rfl) fun page =>
      ⟨fun _ => trivial, fun _ => ⟨rfl, fun _ => ⟨fun _ => trivial, fun _ => ?_⟩⟩⟩
    refine ⟨rfl, fun _ =>
      ⟨fun _ => trivial, fun _ => HeapFile.page_makes (fun _ => rfl) fun page' => ?_⟩⟩
    cases page'.firstRecord with
    | ok rid => rfl
    | error =>
      exact ih { s with
        curPage := some page.nextPage, curPageNo := page.nextPage, curDirtyFlag := false }

theorem advance_makes (fuel : Nat) (s : HeapFileScan) :
    (advance fuel s).Makes (Reads s.filePtr) fun r => r.2.filePtr = s.filePtr := by
  simp only [advance, makes_bind]
  refine HeapFile.page_makes (fun _ => rfl) fun page => ?_
  cases page.nextRecord s.curRec with
  | ok rid => rfl
  | error => exact nextPages_makes fuel s

theorem scanLoop_makes (fuel : Nat) (s : HeapFileScan) :
    (scanLoop fuel s).Makes (Reads s.filePtr) fun r => r.2.filePtr = s.filePtr := by
  induction fuel generalizing s with
  | zero => trivial
  | succ fuel ih =>
    simp only [scanLoop, makes_bind, makes_ite, makes_pure]
    refine (advance_makes fuel s).mono fun r same => ⟨fun _ => same, fun _ => ?_⟩
    refine HeapFile.page_makes (fun _ => same) fun page => ?_
    cases page.getRecord r.2.curRec with
    | error => exact same
    | ok rec =>
      simp only [makes_ite, makes_pure]
      exact ⟨fun _ => same, fun _ => same ▸ ih r.2⟩

theorem firstPage_makes (s : HeapFileScan) : s.firstPage.Makes (Reads s.filePtr) fun r =>
    r.2.filePtr = s.filePtr := by
  simp only [firstPage, makes_bind, makes_ite, makes_pure, Storage.readPage, makes_perform]
  refine Storage.header_makes rfl fun hdr =>
    ⟨fun _ => trivial, fun _ => ⟨rfl, fun _ => ⟨fun _ => trivial, fun _ => ?_⟩⟩⟩
  refine HeapFile.page_makes (fun _ => rfl) fun page => ?_
  cases page.firstRecord with
  | error =>
    simp only [makes_bind, makes_ite, makes_pure, Storage.unPinPage, makes_perform]
    exact ⟨rfl, fun _ => ⟨fun _ => trivial, fun _ => trivial⟩⟩
  | ok rid =>
    simp only [makes_bind]
    refine HeapFile.page_makes (fun _ => rfl) fun page => ?_
    cases page.getRecord rid <;> rfl

theorem scanNext_makes (fuel : Nat) (s : HeapFileScan) :
    (scanNext fuel s).Makes (Reads s.filePtr) fun r => r.2.filePtr = s.filePtr := by
  simp only [scanNext, makes_ite, makes_bind, makes_pure]
  refine ⟨fun _ => trivial, fun _ => ⟨fun _ => ?_, fun _ => scanLoop_makes fuel s⟩⟩
  refine (firstPage_makes s).mono fun r same => ?_
  obtain ⟨status, t⟩ := r
  cases status with
  | some status => exact same
  | none => exact same ▸ scanLoop_makes fuel t

theorem getRecord_makes (s : HeapFileScan) : s.getRecord.Makes (Reads s.filePtr) fun _ => True := by
  simp only [getRecord, makes_bind, makes_pure]
  exact HeapFile.page_makes (fun _ => rfl) fun _ => trivial

theorem deleteRecord_makes (s : HeapFileScan) :
    s.deleteRecord.Makes (Touches s.filePtr) fun r => r.2.filePtr = s.filePtr := by
  have finish : s.headerPage.Makes (Touches s.filePtr) fun hdr =>
      (s.setHeaderPage { hdr with recCnt := hdr.recCnt - 1 }).Makes (Touches s.filePtr) fun _ => True :=
    Storage.header_makes rfl fun hdr => ⟨rfl, fun _ => trivial⟩
  simp only [deleteRecord, makes_bind]
  refine HeapFile.page_makes (fun _ => rfl) fun page => ?_
  cases page.deleteRecord s.curRec with
  | error status =>
    simp only [makes_bind, makes_pure]
    exact finish
  | ok page' =>
    simp only [makes_bind, makes_pure]
    exact HeapFile.setPage_makes (fun _ _ => rfl) finish

end HeapFileScan

namespace InsertFileScan

theorem counted_makes (h : HeapFile) : (counted h).Makes (Touches h.filePtr) fun h' =>
    h'.filePtr = h.filePtr := by
  simp only [counted, makes_bind, makes_pure]
  exact Storage.header_makes rfl fun hdr => ⟨rfl, fun _ => trivial⟩

theorem insertOnNewPage_makes (h : HeapFile) (rec : Record) :
    (insertOnNewPage h rec).Makes (Touches h.filePtr) fun r => r.2.filePtr = h.filePtr := by
  simp only [insertOnNewPage, makes_bind, Storage.allocPage, makes_perform]
  refine ⟨rfl, fun reply => ?_⟩
  cases reply with
  | error => rfl
  | ok newPageNo =>
    simp only [makes_bind, makes_ite, makes_pure, Storage.unPinPage, makes_perform]
    refine Storage.page_makes rfl fun page =>
      ⟨rfl, fun _ => Storage.header_makes rfl fun hdr => ⟨rfl, fun _ => ?_⟩⟩
    refine HeapFile.page_makes (fun _ => rfl) fun page' => HeapFile.setPage_makes (fun _ _ => rfl) ?_
    refine ⟨rfl, fun _ =>
      ⟨fun _ => ⟨rfl, fun _ => trivial⟩, fun _ => HeapFile.page_makes (fun _ => rfl) fun page'' => ?_⟩⟩
    cases page''.insertRecord rec with
    | error => rfl
    | ok r =>
      simp only [makes_bind, makes_pure]
      exact HeapFile.setPage_makes (fun _ _ => rfl)
        (counted_makes { h with hdrDirtyFlag := true, curPage := some newPageNo, curPageNo :=
          newPageNo })

theorem insertRecord_makes (h : HeapFile) (rec : Record) :
    (insertRecord h rec).Makes (Touches h.filePtr) fun r => r.2.filePtr = h.filePtr := by
  -- with a page to insert into
  have insert (h : HeapFile) : h.page.Makes (Touches h.filePtr) fun page =>
      (insertOnPage h rec page).Makes (Touches h.filePtr) fun r => r.2.filePtr = h.filePtr := by
    refine HeapFile.page_makes (fun _ => rfl) fun page => ?_
    rw [insertOnPage]
    cases page.insertRecord rec with
    | error => exact insertOnNewPage_makes h rec
    | ok r =>
      simp only [makes_bind, makes_pure]
      exact HeapFile.setPage_makes (fun _ _ => rfl) (counted_makes h)
  simp only [insertRecord, makes_ite, makes_bind, makes_pure, Storage.readPage, makes_perform]
  refine ⟨fun _ => trivial, fun _ => ⟨fun _ => ?_, fun _ => insert h⟩⟩
  refine Storage.header_makes rfl fun hdr => ⟨rfl, fun _ => ⟨fun _ => trivial, fun _ => ?_⟩⟩
  exact insert { h with curPage := some hdr.lastPage, curPageNo := hdr.lastPage }

end InsertFileScan
end makes

/-! On flat storage. -/

namespace Flat
variable {α : Type} {p : Prog α} {file : Name} {post : α → Prop} {s t : Flat} {value : α}

theorem run_reads (makes : p.Makes (Reads file) post) (returned : run p s = some (value, t)) :
    post value ∧ t = s := by
  have keeps : ∀ c u reply v, Reads file c → u = s → handle c u = some (reply, v) → v = s := by
    rintro c _ reply v reads rfl answer
    cases c with
    | getFirstPage | readPage | load =>
      obtain ⟨_, _, pair⟩ := Option.map_eq_some_iff.mp answer
      cases pair
      rfl
    | unPinPage =>
      cases answer
      rfl
    | _ => cases reads
  exact makes.of_run keeps rfl returned

theorem run_openFile_inv {status : Status}
    (returned : run (Storage.openFile file) s = some (status, t)) :
    status ≠ .ok ∧ t = s ∨ status = .ok ∧ t = s.opened file := by
  rw [run, Storage.openFile, Program.run_perform, handle] at returned
  split_ifs at returned <;> cases returned <;> simp

end Flat

/-! Objects on files of which nothing is known. -/

section objects
variable {s : HeapFileScan} {st st' : Flat} {name : Name} {fuel : Nat}

theorem HeapFile.new_run {r : Except Status HeapFile}
    (returned : Flat.run (HeapFile.new name) st = some (r, st')) :
    (∃ status, r = .error status) ∧ st' = st ∨ ∃ h, r = .ok h ∧ h.filePtr = name ∧
      st' = st.opened name := by
  obtain ⟨status, mid, opened, rest⟩ := run_bind_inv _ _ returned
  rcases Flat.run_openFile_inv opened with ⟨failed, rfl⟩ | ⟨rfl, rfl⟩
  · rw [if_pos failed] at rest
    cases rest
    exact .inl ⟨⟨status, rfl⟩, rfl⟩
  · -- the file is open, and the rest only reads
    simp only [ne_eq, not_true_eq_false, if_false] at rest
    let post (r : Except Status HeapFile) : Prop := ∃ h, r = .ok h ∧ h.filePtr = name
    suffices made : post r ∧ st' = st.opened name by
      obtain ⟨⟨h, same, file⟩, kept⟩ := made
      exact .inr ⟨h, same, file, kept⟩
    refine @Flat.run_reads _ _ name post _ _ r ?_ rest
    simp only [makes_bind, Storage.getFirstPage, makes_perform]
    refine ⟨rfl, fun first => ?_⟩
    cases first with
    | error => trivial
    | ok headerPageNo =>
      simp only [makes_bind, makes_ite, makes_halt, makes_pure, Storage.readPage, makes_perform]
      refine ⟨rfl, fun _ =>
        ⟨fun _ => trivial, fun _ => Storage.header_makes rfl fun hdr => ⟨rfl, fun _ => ?_⟩⟩⟩
      exact ⟨_, rfl, rfl⟩

theorem HeapFileScan.new_run {r : Except Status HeapFileScan}
    (returned : Flat.run (HeapFileScan.new name) st = some (r, st')) :
    (∃ status, r = .error status) ∧ st' = st ∨ ∃ s, r = .ok s ∧ s.filePtr = name ∧
      st' = st.opened name := by
  obtain ⟨found, mid, new, rest⟩ := run_bind_inv _ _ returned
  rcases HeapFile.new_run new with ⟨⟨status, rfl⟩, rfl⟩ | ⟨h, rfl, file, rfl⟩
  · cases rest
    exact .inl ⟨⟨status, rfl⟩, rfl⟩
  · cases rest
    exact .inr ⟨⟨h, none⟩, rfl, file, rfl⟩

theorem HeapFileScan.scanNext_run {status : Status} {t : HeapFileScan}
    (returned : Flat.run (s.scanNext fuel) st = some ((status, t), st')) : t.filePtr = s.filePtr ∧
      st' = st := by
  have kept := Flat.run_reads (s.scanNext_makes fuel) returned
  exact kept

theorem HeapFileScan.getRecord_run {r : Except Status (List UInt8)}
    (returned : Flat.run s.getRecord st = some (r, st')) : st' = st :=
  (Flat.run_reads s.getRecord_makes returned).2

theorem HeapFileScan.startScan_file (s : HeapFileScan) (filter : Option Filter) :
    (s.startScan filter).2.filePtr = s.filePtr := by
  cases filter with
  | none => rfl
  | some f =>
    simp only [startScan]
    split <;> rfl

end objects
end Minirel
