import Minirel.Engine.Conduct
import Minirel.HeapFile.Contract

/-! Heap-file objects keep to the rules of the engine, whatever else is open and
pinned by others: a few frames are enough for each. -/
namespace Minirel
open Program Function

/-- What others have done is in order: they owe only pages they still pin, and
pin only pages of open files. -/
structure Ledger.Honest (base : Ledger) : Prop where
  owed : ∀ p ∈ base.owed, p ∈ base.pins
  inUse : ∀ p ∈ base.pins, 0 < base.opens p.1

namespace Conduct

/-- What an object holds besides the others: the file opened once more, pins,
and pages written to of which it will release one pin as dirty. -/
structure Keeps (base : Ledger) (name : Name) (own : List (Name × Int)) (marked : Name × Int → Prop)
    (c : Conduct) :
    Prop where
  found : c.lost = false
  opens : c.ledger.opens = update base.opens name (base.opens name + 1)
  pins : c.ledger.pins.Perm (own ++ base.pins)
  owed : ∀ p ∈ c.ledger.owed, marked p ∨ p ∈ base.owed

structure Returned (base : Ledger) (c : Conduct) : Prop where
  found : c.lost = false
  opens : c.ledger.opens = base.opens
  pins : c.ledger.pins.Perm base.pins
  owed : ∀ p ∈ c.ledger.owed, p ∈ base.owed

theorem Returned.trans {base : Ledger} {c c' : Conduct} (first : Returned base c)
    (second : Returned c.ledger c') :
    Returned base c' :=
  ⟨second.found, second.opens.trans first.opens, second.pins.trans first.pins, fun p owed =>
    first.owed p (second.owed p owed)⟩

/-- A failed read shows in the result, and otherwise all is well. -/
structure Shows (c : Conduct) (bad good : Prop) : Prop where
  lost : c.lost = true → bad
  found : c.lost = false → good

theorem Shows.of_found {c : Conduct} {bad good : Prop} (found : c.lost = false) (holds : good) :
    c.Shows bad good :=
  ⟨fun lost => absurd (found.symm.trans lost) Bool.false_ne_true, fun _ => holds⟩

theorem Shows.of_lost {c : Conduct} {bad good : Prop} (lost : c.lost = true) (holds : bad) :
    c.Shows bad good :=
  ⟨fun _ => holds, fun found => absurd (found.symm.trans lost) Bool.false_ne_true⟩

theorem failed_ne_ok {status : Status} (failed : status = .badPageNo ∨ status = .unixErr) :
    status ≠ .ok := by
  rcases failed with rfl | rfl <;> simp

/-- After a failed read a program may do anything. -/
theorem behaves_lost {α : Type} {bufs : Nat} {p : Prog α} {c : Conduct} {post : α → Conduct → Prop}
    (lost : c.lost = true) (holds : ∀ value c', c'.lost = true → post value c') :
    Behaves bufs p c post := by
  induction p generalizing c with
  | done value => exact holds value c lost
  | halt => trivial
  | call call k ih => exact ⟨.inl lost, fun reply _ => ih reply (by simp [contract, lost])⟩

section rules
variable {bufs : Nat} {base : Ledger} {name : Name} {n : Int} {own : List (Name × Int)}
    {marked marked' : Name × Int → Prop}
  {c : Conduct}

theorem Keeps.isOpen (keeps : Keeps base name own marked c) : 0 < c.ledger.opens name := by
  rw [keeps.opens, update_self]
  omega

theorem Keeps.mem (keeps : Keeps base name own marked c) {p : Name × Int} (member : p ∈ own) :
    p ∈ c.ledger.pins :=
  keeps.pins.mem_iff.mpr (List.mem_append_left _ member)

theorem Keeps.room (keeps : Keeps base name own marked c)
    (room : own.length + base.pins.length < bufs) :
    c.ledger.pins.length < bufs := by
  rw [keeps.pins.length_eq, List.length_append]
  exact room

theorem Keeps.weaken (keeps : Keeps base name own marked c) (more : ∀ p, marked p → marked' p) :
    Keeps base name own marked' c :=
  ⟨keeps.found, keeps.opens, keeps.pins, fun p owed => (keeps.owed p owed).imp_left (more p)⟩

/-- Accesses through a pointer leave the books alone. -/
theorem Keeps.load {α : Type} {k : Image → Prog α} {post : α → Conduct → Prop}
    (keeps : Keeps base name own marked c) (member : (name, n) ∈ own)
    (rest : ∀ image, Behaves bufs (k image) c post) :
    Behaves bufs (.call (.load name n) k) c post := by
  refine ⟨.inr ⟨keeps.mem member, fun grows => by cases grows⟩, fun image _ => ?_⟩
  have same : contract.next (.load name n) c image = c := by
    simp [contract, Ledger.account, StorageCall.grows, failed]
  rw [same]
  exact rest image

theorem Keeps.header (keeps : Keeps base name own marked c) (member : (name, n) ∈ own)
    {post : FileHdrPage → Conduct → Prop} (holds : ∀ hdr, post hdr c) :
    Behaves bufs (Storage.header name n) c post :=
  keeps.load member fun image => by
    cases image with
    | data => trivial
    | header hdr => exact holds hdr

theorem Keeps.page (keeps : Keeps base name own marked c) (member : (name, n) ∈ own)
    {post : Page → Conduct → Prop} (holds : ∀ page, post page c) :
    Behaves bufs (Storage.page name n) c post :=
  keeps.load member fun image => by
    cases image with
    | header => trivial
    | data page => exact holds page

/-- A file is opened; nothing is pinned yet. -/
theorem Returned.openFile (returned : Returned base c) (plain : 0 ∉ name)
    {post : Status → Conduct → Prop}
    (opened : ∀ c', Keeps base name [] (fun _ => False) c' → post .ok c')
    (refused : ∀ status c', status ≠ .ok → Returned base c' → post status c') :
    Behaves bufs (Storage.openFile name) c post := by
  refine ⟨.inr ⟨plain, fun grows => by cases grows⟩, fun status _ => ?_⟩
  have found : (contract.next (.openFile name) c status).lost = false := by
    simp [contract, failed, returned.found]
  by_cases ok : status = .ok
  · subst ok
    refine opened _ ⟨found, ?_, returned.pins, fun p owed => .inr (returned.owed p owed)⟩
    change update c.ledger.opens name (c.ledger.opens name + 1) = _
    rw [returned.opens]
  · have same : (contract.next (.openFile name) c status).ledger = c.ledger := if_neg ok
    exact refused status _ ok ⟨found, by rw [same, returned.opens], by rw [same]; exact returned.pins,
      by rw [same]; exact returned.owed⟩

theorem Keeps.getFirstPage (keeps : Keeps base name own marked c)
    {post : Except Status Int → Conduct → Prop} (holds : ∀ reply, post reply c) :
    Behaves bufs (Storage.getFirstPage name) c post := by
  refine ⟨.inr ⟨keeps.isOpen, fun grows => by cases grows⟩, fun reply _ => ?_⟩
  have same : contract.next (.getFirstPage name) c reply = c := by
    simp [contract, Ledger.account, StorageCall.grows, failed]
  change post reply (contract.next (.getFirstPage name) c reply)
  rw [same]
  exact holds reply

theorem Keeps.store (keeps : Keeps base name own marked c) (member : (name, n) ∈ own)
    {image : Image} (more : ∀ p, p = (name, n) ∨ marked p → marked' p)
    {post : Unit → Conduct → Prop} (holds : ∀ c', Keeps base name own marked' c' → post () c') :
    Behaves bufs (perform (.store name n image)) c post := by
  refine ⟨.inr ⟨keeps.mem member, fun grows => by cases grows⟩, fun _ _ =>
    holds _ ⟨?_, keeps.opens, keeps.pins, ?_⟩⟩
  · simp [contract, failed, keeps.found]
  · intro p owed
    rcases Finset.mem_insert.mp owed with here | owed
    · exact .inl (more p (.inl here))
    · exact (keeps.owed p owed).imp_left fun held => more p (.inr held)

theorem Keeps.readPage (keeps : Keeps base name own marked c)
    (room : own.length + base.pins.length < bufs) {post : Status → Conduct → Prop}
    (read : ∀ c', Keeps base name ((name, n) :: own) marked c' → post .ok c')
    (failed : ∀ status c', status = .badPageNo ∨ status = .unixErr → c'.lost = true →
      post status c') :
    Behaves bufs (Storage.readPage name n) c post := by
  refine ⟨.inr ⟨⟨keeps.isOpen, keeps.room room⟩, fun grows => by cases grows⟩, ?_⟩
  rintro status ⟨st, t, answer⟩
  rcases (Flat.run_readPage_inv
    ((run_perform Flat.handle st (.readPage name n)).trans answer)).1 with rfl | other
  · refine read _ ⟨?_, keeps.opens, keeps.pins.cons _, keeps.owed⟩
    simp [contract, Conduct.failed, keeps.found]
  · refine failed status _ other ?_
    rcases other with rfl | rfl <;> simp [contract, Conduct.failed]

theorem Keeps.allocPage (keeps : Keeps base name own marked c)
    (room : own.length + base.pins.length < bufs) (small : c.grown = false)
    {post : Except Status Int → Conduct → Prop}
    (allocated : ∀ n c', Keeps base name ((name, n) :: own) (fun p => p = (name, n) ∨ marked p) c' →
      post (.ok n) c') :
    Behaves bufs (Storage.allocPage name) c post := by
  refine ⟨.inr ⟨⟨keeps.isOpen, keeps.room room⟩, fun _ => small⟩, ?_⟩
  rintro reply ⟨st, t, answer⟩
  obtain ⟨f, _, rfl, _⟩ :=
    Flat.run_allocPage_inv ((run_perform Flat.handle st (.allocPage name)).trans answer)
  refine allocated _ _ ⟨?_, keeps.opens, keeps.pins.cons _, fun p owed => ?_⟩
  · simp [contract, failed, keeps.found]
  · rcases Finset.mem_insert.mp owed with here | owed
    · exact .inl (.inl here)
    · exact (keeps.owed p owed).imp_left .inr

/-- A pin may be released as clean if the object did not write to the page or
pins it once more. -/
theorem Keeps.unPinPage (keeps : Keeps base name ((name, n) :: own) marked c) (honest : base.Honest)
    {dirty : Bool} (settled : marked (name, n) → dirty = true ∨ (name, n) ∈ own)
    (rest : ∀ p, marked p → (dirty = true → p ≠ (name, n)) → marked' p)
    {post : Status → Conduct → Prop}
    (released : ∀ c', Keeps base name own marked' c' → post .ok c') :
    Behaves bufs (Storage.unPinPage name n dirty) c post := by
  refine ⟨.inr ⟨⟨keeps.mem List.mem_cons_self, fun clean owed => ?_⟩, fun grows => by cases grows⟩, ?_⟩
  · have again : (name, n) ∈ own ++ base.pins := by
      rcases keeps.owed _ owed with held | other
      · exact List.mem_append_left _ ((settled held).resolve_left (by simp [clean]))
      · exact List.mem_append_right _ (honest.owed _ other)
    rw [keeps.pins.count_eq, List.cons_append, List.count_cons_self]
    have positive := List.count_pos_iff.mpr again
    omega
  · rintro status ⟨st, t, answer⟩
    cases answer
    refine released _ ⟨?_, keeps.opens, ?_, fun p owed => ?_⟩
    · simp [contract, failed, keeps.found]
    · have left := keeps.pins.erase (name, n)
      rwa [List.cons_append, List.erase_cons_head] at left
    · have before : p ∈ c.ledger.owed ∧ (dirty = true → p ≠ (name, n)) := by
        cases dirty with
        | false => exact ⟨owed, fun dirty => by cases dirty⟩
        | true => exact ⟨Finset.mem_of_mem_erase owed, fun _ => Finset.ne_of_mem_erase owed⟩
      exact (keeps.owed p before.1).imp_left fun held => rest p held before.2

theorem Keeps.closeFile (keeps : Keeps base name [] marked c) (honest : base.Honest)
    (settled : ∀ p, ¬ marked p) {post : Status → Conduct → Prop}
    (closed : ∀ c', Returned base c' → post .ok c') :
    Behaves bufs (Storage.closeFile name) c post := by
  refine ⟨.inr ⟨⟨keeps.isOpen, fun last p member same => ?_⟩, fun grows => by cases grows⟩, ?_⟩
  · have used := honest.inUse p (keeps.pins.mem_iff.mp member)
    rw [keeps.opens, update_self] at last
    rw [same] at used
    omega
  · rintro status ⟨st, t, answer⟩
    simp only [Flat.handle] at answer
    split at answer
    · cases answer
    · cases answer
      refine closed _ ⟨?_, ?_, keeps.pins, fun p owed => (keeps.owed p owed).resolve_left (settled p)⟩
      · simp [contract, failed, keeps.found]
      · change update c.ledger.opens name (c.ledger.opens name - 1) = base.opens
        rw [keeps.opens, update_self, update_idem, Nat.add_sub_cancel, update_eq_self]

end rules
end Conduct

open Conduct

namespace HeapFile

def HeaderMarked (h : HeapFile) (p : Name × Int) : Prop := p = (h.filePtr, h.headerPageNo) ∧
    h.hdrDirtyFlag = true

def Marked (h : HeapFile) (p : Name × Int) : Prop :=
  h.HeaderMarked p ∨ p = (h.filePtr, h.curPageNo) ∧ h.curPage ≠ none ∧ h.curDirtyFlag = true

def own (h : HeapFile) : List (Name × Int) :=
  if h.curPage = none then [(h.filePtr, h.headerPageNo)]
    else [(h.filePtr, h.curPageNo), (h.filePtr, h.headerPageNo)]

structure Holds (base : Ledger) (h : HeapFile) (c : Conduct) : Prop where
  current : h.curPage = none ∨ h.curPage = some h.curPageNo
  keeps : Keeps base h.filePtr h.own h.Marked c

section holds
variable {bufs : Nat} {base : Ledger} {h : HeapFile} {c : Conduct} {n : Int}

theorem Holds.set (holds : h.Holds base c) (set : h.curPage ≠ none) :
    Keeps base h.filePtr [(h.filePtr, h.curPageNo), (h.filePtr, h.headerPageNo)] h.Marked c := by
  have keeps := holds.keeps
  rwa [own, if_neg set] at keeps

theorem Holds.unset (holds : h.Holds base c) (unset : h.curPage = none) :
    Keeps base h.filePtr [(h.filePtr, h.headerPageNo)] h.HeaderMarked c := by
  have keeps := holds.keeps
  rw [own, if_pos unset] at keeps
  exact keeps.weaken fun p held => held.resolve_right fun other => other.2.1 unset

theorem Holds.of_unset (unset : h.curPage = none)
    (keeps : Keeps base h.filePtr [(h.filePtr, h.headerPageNo)] h.HeaderMarked c) :
    h.Holds base c := by
  refine ⟨.inl unset, ?_⟩
  rw [own, if_pos unset]
  exact keeps.weaken fun p => .inl

theorem Holds.of_set (set : h.curPage = some h.curPageNo)
    (keeps : Keeps base h.filePtr [(h.filePtr, h.curPageNo), (h.filePtr, h.headerPageNo)] h.Marked
      c) : h.Holds base c := by
  refine ⟨.inr set, ?_⟩
  rwa [own, if_neg (by simp [set])]

theorem header_mem_own (h : HeapFile) : (h.filePtr, h.headerPageNo) ∈ h.own := by
  unfold own
  split <;> simp

theorem Holds.headerPage (holds : h.Holds base c) {post : FileHdrPage → Conduct → Prop}
    (done : ∀ hdr, post hdr c) :
    Behaves bufs h.headerPage c post := holds.keeps.header h.header_mem_own done

theorem Holds.page (holds : h.Holds base c) {post : Page → Conduct → Prop}
    (done : h.curPage ≠ none → ∀ page, post page c) :
    Behaves bufs h.page c post := by
  unfold HeapFile.page
  cases cur : h.curPage with
  | none => trivial
  | some n =>
    have set : h.curPage ≠ none := by simp [cur]
    have here : h.curPageNo = n := Option.some.inj ((holds.current.resolve_left set).symm.trans cur)
    exact (holds.set set).page (by rw [here]; exact List.mem_cons_self) (done set)

theorem Holds.setPage (holds : h.Holds base c) {page : Page} {post : Unit → Conduct → Prop}
    (done : h.curPage ≠ none →
      ∀ c', Keeps base h.filePtr h.own (fun p => p = (h.filePtr, h.curPageNo) ∨ h.Marked p) c' →
        post () c') : Behaves bufs (h.setPage page) c post := by
  unfold HeapFile.setPage
  cases cur : h.curPage with
  | none => trivial
  | some n =>
    have set : h.curPage ≠ none := by simp [cur]
    have here : h.curPageNo = n := Option.some.inj ((holds.current.resolve_left set).symm.trans cur)
    rw [← here]
    exact holds.keeps.store (by rw [own, if_neg set]; exact List.mem_cons_self) (fun _ => id) (done set)

/-- The current page goes back with its flag. -/
theorem Holds.release (holds : h.Holds base c) (honest : base.Honest) (set : h.curPage ≠ none)
    {post : Status → Conduct → Prop}
    (done : ∀ c', Keeps base h.filePtr [(h.filePtr, h.headerPageNo)] h.HeaderMarked c' →
      post .ok c') :
    Behaves bufs (Storage.unPinPage h.filePtr h.curPageNo h.curDirtyFlag) c post := by
  refine (holds.set set).unPinPage honest (fun held => ?_) (fun p held other => ?_) done
  · rcases held with header | ⟨_, _, dirty⟩
    · exact .inr (by rw [header.1]; exact List.mem_cons_self)
    · exact .inl dirty
  · rcases held with header | ⟨here, _, dirty⟩
    · exact header
    · exact absurd here (other dirty)

theorem settle (honest : base.Honest)
    (keeps : Keeps base h.filePtr [(h.filePtr, h.headerPageNo)] h.HeaderMarked c) :
    Behaves bufs (Storage.unPinPage h.filePtr h.headerPageNo h.hdrDirtyFlag) c fun _ c' =>
      Behaves bufs (Storage.closeFile h.filePtr) c' fun _ c'' => Returned base c'' := by
  refine keeps.unPinPage honest (fun held => .inl held.2) (fun p held other => ?_) fun c' keeps' =>
    keeps'.closeFile honest (fun _ => id) fun _ returned => returned
  exact other held.2 held.1

theorem delete_behaves (holds : h.Holds base c) (honest : base.Honest) :
    Behaves bufs h.delete c fun _ c' => Returned base c' := by
  simp only [delete, obeys_bind, obeys_ite, obeys_pure]
  exact ⟨fun set => holds.release honest set fun _ keeps => settle honest keeps,
    fun unset => settle honest (holds.unset (not_not.mp unset))⟩

/-- The constructor of a file that can be read. -/
theorem new_behaves {name : Name} (returned : Returned base c) (plain : 0 ∉ name)
    (room : base.pins.length + 2 ≤ bufs) :
    Behaves bufs (HeapFile.new name) c fun r c' =>
      c'.Shows (∀ h, r = .ok h → h.curPage = none)
        (∀ h, r = .ok h → h.Holds base c' ∧ h.filePtr = name) := by
  simp only [HeapFile.new, obeys_bind, obeys_ite, obeys_pure]
  refine returned.openFile plain (fun c₁ opened => ⟨fun failed => absurd rfl failed, fun _ => ?_⟩)
    fun status c₁ failed refused => ⟨fun _ => .of_found refused.found fun h other => (by cases other),
      fun ok => absurd failed ok⟩
  refine opened.getFirstPage fun reply => ?_
  cases reply with
  | error => trivial
  | ok n =>
    simp only [obeys_bind, obeys_ite, obeys_pure]
    refine opened.readPage (by simp; omega)
      (fun c₂ read => ⟨fun failed => absurd rfl failed, fun _ => ?_⟩) fun status c₂ failed lost =>
        ⟨fun _ => trivial, fun ok => absurd (failed_ne_ok failed) ok⟩
    refine read.header List.mem_cons_self fun hdr => ?_
    refine read.readPage (by simp; omega) (fun c₃ read' => ?_)
      fun status c₃ failed lost => ?_
    · refine .of_found read'.found ?_
      rintro h ⟨⟩
      exact ⟨.of_set rfl (read'.weaken fun _ none => none.elim), rfl⟩
    · refine .of_lost lost ?_
      rintro h ⟨⟩
      exact if_neg (failed_ne_ok failed)

/-- The page is read into a free place of the object. -/
theorem fetch_behaves {rid : RID}
    (keeps : Keeps base h.filePtr [(h.filePtr, h.headerPageNo)] h.HeaderMarked c)
    (room : base.pins.length + 2 ≤ bufs) :
    Behaves bufs (h.fetch rid) c fun r c' =>
      c'.Shows (∃ status, r.1 = .error status) (r.2.Holds base c' ∧ r.2.filePtr = h.filePtr) := by
  simp only [fetch, obeys_bind, obeys_ite, obeys_pure]
  refine keeps.readPage (by simp; omega)
    (fun c' read => ⟨fun failed => absurd rfl failed, fun _ => ?_⟩) fun status c' failed lost =>
      ⟨fun _ => .of_lost lost ⟨_, rfl⟩, fun ok => absurd (failed_ne_ok failed) ok⟩
  have holds : Holds base { h with
      curPage := some rid.pageNo, curPageNo := rid.pageNo, curDirtyFlag := false, curRec := rid } c' :=
    .of_set rfl (read.weaken fun _ => .inl)
  exact holds.page fun _ page => .of_found read.found ⟨holds, trivial⟩

theorem getRecord_behaves {rid : RID} (holds : h.Holds base c) (honest : base.Honest)
    (room : base.pins.length + 2 ≤ bufs) :
    Behaves bufs (h.getRecord rid) c fun r c' =>
      c'.Shows (∃ status, r.1 = .error status) (r.2.Holds base c' ∧ r.2.filePtr = h.filePtr) := by
  simp only [getRecord, obeys_bind, obeys_ite, obeys_pure]
  refine ⟨fun unset => fetch_behaves (holds.unset unset) room, fun set => ⟨fun _ => ?_, fun _ => ?_⟩⟩
  · exact holds.page fun _ page => .of_found holds.keeps.found ⟨⟨holds.current, holds.keeps⟩, trivial⟩
  · exact holds.release honest set fun c' keeps =>
      ⟨fun failed => absurd rfl failed, fun _ => fetch_behaves keeps room⟩

end holds
end HeapFile

namespace HeapFileScan
open HeapFile
variable {bufs : Nat} {base : Ledger} {s : HeapFileScan} {c : Conduct}

def Unread (status : Status) : Prop := status = .badPageNo ∨ status = .unixErr

theorem endScan_behaves (holds : s.Holds base c) (honest : base.Honest) :
    Behaves bufs s.endScan c fun r c' => r.2.Holds base c' ∧ r.2.filePtr = s.filePtr := by
  simp only [endScan, obeys_ite, obeys_bind, obeys_pure]
  exact ⟨fun set => holds.release honest set fun c' keeps => ⟨.of_unset rfl keeps, trivial⟩,
    fun _ => ⟨holds, trivial⟩⟩

theorem delete_behaves (holds : s.Holds base c) (honest : base.Honest) :
    Behaves bufs s.delete c fun _ c' => Returned base c' := by
  simp only [HeapFileScan.delete, obeys_bind]
  exact (endScan_behaves holds honest).mono fun r c' result => HeapFile.delete_behaves result.1 honest

def Reported (base : Ledger) (name : Name) (r : Status × HeapFileScan) (c : Conduct) : Prop :=
  c.Shows (Unread r.1) (r.2.Holds base c ∧ r.2.filePtr = name)

/-- A failed read on the way shows in the status. -/
theorem nextPages_behaves (fuel : Nat) (holds : s.Holds base c) (honest : base.Honest)
    (room : base.pins.length + 2 ≤ bufs) :
    Behaves bufs (nextPages fuel s) c (Reported base s.filePtr) := by
  induction fuel generalizing s c with
  | zero => trivial
  | succ fuel ih =>
    simp only [nextPages, obeys_bind, obeys_ite, obeys_pure]
    refine holds.page fun set page => ⟨fun _ => .of_found holds.keeps.found ⟨holds, rfl⟩, fun _ => ?_⟩
    refine holds.release honest set fun c₁ keeps => ⟨fun failed => absurd rfl failed, fun _ => ?_⟩
    refine keeps.readPage (by simp; omega)
      (fun c₂ read => ⟨fun failed => absurd rfl failed, fun _ => ?_⟩) fun status c₂ failed lost =>
        ⟨fun _ => .of_lost lost failed, fun ok => absurd (failed_ne_ok failed) ok⟩
    have holds' : HeapFile.Holds base { s.toHeapFile with
        curPage := some page.nextPage, curPageNo := page.nextPage, curDirtyFlag := false } c₂ :=
      .of_set rfl (read.weaken fun _ => .inl)
    refine holds'.page fun _ page' => ?_
    cases page'.firstRecord with
    | ok rid => exact .of_found read.found ⟨⟨holds'.current, holds'.keeps⟩, rfl⟩
    | error => exact ih (s := { s with
        curPage := some page.nextPage, curPageNo := page.nextPage, curDirtyFlag := false }) holds'

theorem advance_behaves (fuel : Nat) (holds : s.Holds base c) (honest : base.Honest)
    (room : base.pins.length + 2 ≤ bufs) :
    Behaves bufs (advance fuel s) c (Reported base s.filePtr) := by
  simp only [advance, obeys_bind]
  refine holds.page fun _ page => ?_
  cases page.nextRecord s.curRec with
  | ok rid => exact .of_found holds.keeps.found ⟨⟨holds.current, holds.keeps⟩, rfl⟩
  | error => exact nextPages_behaves fuel holds honest room

theorem scanLoop_behaves (fuel : Nat) (holds : s.Holds base c) (honest : base.Honest)
    (room : base.pins.length + 2 ≤ bufs) :
    Behaves bufs (scanLoop fuel s) c (Reported base s.filePtr) := by
  induction fuel generalizing s c with
  | zero => trivial
  | succ fuel ih =>
    simp only [scanLoop, obeys_bind, obeys_ite, obeys_pure]
    refine (advance_behaves fuel holds honest room).mono fun r c' advanced =>
      ⟨fun _ => advanced, fun ok => ?_⟩
    have found : c'.lost = false := by
      by_contra lost
      exact ok (failed_ne_ok (advanced.lost (by simpa using lost)))
    obtain ⟨holds', file⟩ := advanced.found found
    refine holds'.page fun _ page => ?_
    cases page.getRecord r.2.curRec with
    | error => exact .of_found found ⟨holds', file⟩
    | ok rec =>
      simp only [obeys_ite, obeys_pure]
      exact ⟨fun _ => .of_found found ⟨holds', file⟩, fun _ => file ▸ ih holds'⟩

theorem firstPage_behaves (holds : s.Holds base c) (honest : base.Honest)
    (room : base.pins.length + 2 ≤ bufs) (unset : s.curPage = none) :
    Behaves bufs s.firstPage c fun r c' =>
      c'.Shows (∃ status, r.1 = some status ∧ Unread status)
        (r.2.Holds base c' ∧ r.2.filePtr = s.filePtr) := by
  have keeps := holds.unset unset
  simp only [firstPage, obeys_bind, obeys_ite, obeys_pure]
  refine holds.headerPage fun hdr =>
    ⟨fun _ => .of_found keeps.found ⟨.of_unset unset keeps, trivial⟩, fun _ => ?_⟩
  refine keeps.readPage (by simp; omega)
    (fun c₁ read => ⟨fun failed => absurd rfl failed, fun _ => ?_⟩) fun status c₁ failed lost =>
      ⟨fun _ => .of_lost lost ⟨status, rfl, failed⟩, fun ok => absurd (failed_ne_ok failed) ok⟩
  have holds' : HeapFile.Holds base { s.toHeapFile with
      curPage := some hdr.firstPage, curPageNo := hdr.firstPage, curDirtyFlag := false, curRec :=
        nullRid } c₁ :=
    .of_set rfl (read.weaken fun _ => .inl)
  refine holds'.page fun set page => ?_
  cases page.firstRecord with
  | error =>
    simp only [obeys_bind, obeys_ite, obeys_pure]
    exact holds'.release honest set fun c₂ keeps' => ⟨fun failed => absurd rfl failed,
      fun _ => .of_found keeps'.found ⟨.of_unset rfl keeps', trivial⟩⟩
  | ok rid =>
    simp only [obeys_bind]
    have holds'' : HeapFile.Holds base { s.toHeapFile with
        curPage := some hdr.firstPage, curPageNo := hdr.firstPage, curDirtyFlag := false, curRec :=
          rid } c₁ :=
      ⟨holds'.current, holds'.keeps⟩
    refine holds''.page fun _ page' => ?_
    cases page'.getRecord rid with
    | error => exact .of_found read.found ⟨holds'', rfl⟩
    | ok rec => exact .of_found read.found ⟨holds'', rfl⟩

theorem scanNext_behaves (fuel : Nat) (holds : s.Holds base c) (honest : base.Honest)
    (room : base.pins.length + 2 ≤ bufs) :
    Behaves bufs (scanNext fuel s) c (Reported base s.filePtr) := by
  simp only [scanNext, obeys_ite, obeys_bind, obeys_pure]
  refine ⟨fun _ => .of_found holds.keeps.found ⟨holds, rfl⟩, fun _ => ⟨fun unset => ?_, fun _ =>
    scanLoop_behaves fuel holds honest room⟩⟩
  refine (firstPage_behaves holds honest room unset).mono fun r c' first => ?_
  obtain ⟨status, t⟩ := r
  cases status with
  | some status =>
    refine ⟨fun lost => ?_, first.found⟩
    obtain ⟨status', same, unread⟩ := first.lost lost
    cases same
    exact unread
  | none =>
    have found : c'.lost = false := by
      by_contra lost
      obtain ⟨status, same, _⟩ := first.lost (by simpa using lost)
      cases same
    obtain ⟨holds', file⟩ := first.found found
    exact file ▸ scanLoop_behaves fuel holds' honest room

theorem deleteRecord_behaves (holds : s.Holds base c) :
    Behaves bufs s.deleteRecord c fun r c' => r.2.Holds base c' ∧ r.2.filePtr = s.filePtr := by
  simp only [deleteRecord, obeys_bind]
  refine holds.page fun set page => ?_
  have own : s.own = [(s.filePtr, s.curPageNo), (s.filePtr, s.headerPageNo)] := if_neg set
  have current := holds.current.resolve_left set
  -- the header is written to as well, and both flags are set
  have finish : ∀ c', Keeps base s.filePtr s.own (fun p => p = (s.filePtr, s.curPageNo) ∨
    s.Marked p) c' →
      Behaves bufs s.headerPage c' fun hdr c₁ =>
        Behaves bufs (s.setHeaderPage { hdr with recCnt := hdr.recCnt - 1 }) c₁ fun _ c₂ =>
          HeapFile.Holds base { s.toHeapFile with curDirtyFlag := true, hdrDirtyFlag := true } c₂ := by
    intro c' keeps
    refine keeps.header s.header_mem_own fun hdr => keeps.store s.header_mem_own (fun _ => id)
      fun c₂ keeps' => ?_
    refine .of_set current (own ▸ keeps'.weaken fun p held => ?_)
    rcases held with header | here | (header | ⟨here, _, _⟩)
    · exact .inl ⟨header, rfl⟩
    · exact .inr ⟨here, set, rfl⟩
    · exact .inl ⟨header.1, rfl⟩
    · exact .inr ⟨here, set, rfl⟩
  cases page.deleteRecord s.curRec with
  | error status =>
    simp only [obeys_bind, obeys_pure, and_true]
    exact finish c (holds.keeps.weaken fun _ => .inr)
  | ok page' =>
    simp only [obeys_bind, obeys_pure, and_true]
    exact holds.setPage fun _ c₁ keeps => finish c₁ keeps

theorem new_behaves {name : Name} (returned : Returned base c) (plain : 0 ∉ name)
    (room : base.pins.length + 2 ≤ bufs) :
    Behaves bufs (HeapFileScan.new name) c fun r c' =>
      c'.Shows (∀ s, r = .ok s → s.curPage = none)
        (∀ s, r = .ok s → s.Holds base c' ∧ s.filePtr = name) := by
  simp only [HeapFileScan.new, obeys_bind]
  refine (HeapFile.new_behaves returned plain room).mono fun r c' shows => ?_
  cases r with
  | error => exact ⟨fun _ s other => (by cases other), fun _ s other => (by cases other)⟩
  | ok h =>
    refine ⟨fun lost => ?_, fun found => ?_⟩
    · rintro s ⟨⟩
      exact shows.lost lost h rfl
    · rintro s ⟨⟩
      exact shows.found found h rfl

theorem startScan_holds (holds : s.Holds base c) (filter : Option Filter) :
    (s.startScan filter).2.Holds base c := by
  cases filter with
  | none => exact holds
  | some filter =>
    simp only [HeapFileScan.startScan]
    split <;> exact holds

end HeapFileScan

namespace InsertFileScan
open HeapFile
variable {bufs : Nat} {base : Ledger} {h : HeapFile} {c : Conduct}

/-- The constructor, which moves on to the last page. -/
theorem new_behaves {name : Name} (returned : Returned base c) (honest : base.Honest)
    (plain : 0 ∉ name) (room : base.pins.length + 2 ≤ bufs) :
    Behaves bufs (InsertFileScan.new name) c fun r c' =>
      c'.Shows (∀ h, r = .ok h → h.curPage = none)
        (∀ h, r = .ok h → h.Holds base c' ∧ h.filePtr = name) := by
  simp only [InsertFileScan.new, obeys_bind]
  refine (HeapFile.new_behaves returned plain room).mono fun r c₁ shows => ?_
  cases r with
  | error => exact ⟨fun _ h other => (by cases other), fun _ h other => (by cases other)⟩
  | ok h =>
    simp only [obeys_bind, obeys_ite, obeys_pure]
    by_cases lost : c₁.lost = true
    · have unset := shows.lost lost h rfl
      refine behaves_lost lost fun hdr c₂ lost' =>
        ⟨fun both => absurd unset both.1, fun _ => .of_lost lost' ?_⟩
      rintro h' ⟨⟩
      exact unset
    · have found : c₁.lost = false := by simpa using lost
      obtain ⟨holds, file⟩ := shows.found found h rfl
      refine holds.headerPage fun hdr => ⟨fun both => ?_, fun _ => .of_found found ?_⟩
      · refine holds.release honest both.1 fun c₂ keeps => ?_
        refine keeps.readPage (by simp; omega)
          (fun c₃ read => ⟨fun failed => absurd rfl failed, fun _ => .of_found read.found ?_⟩)
            fun status c₃ failed lost =>
            ⟨fun _ => .of_lost lost fun h other => (by cases other), fun ok =>
              absurd (failed_ne_ok failed) ok⟩
        rintro h' ⟨⟩
        exact ⟨.of_set rfl (read.weaken fun _ => .inl), file⟩
      · rintro h' ⟨⟩
        exact ⟨holds, file⟩

theorem delete_behaves (holds : h.Holds base c) (honest : base.Honest) :
    Behaves bufs (InsertFileScan.delete h) c fun _ c' => Returned base c' := by
  simp only [InsertFileScan.delete, obeys_ite, obeys_bind]
  refine ⟨fun set => ?_, fun _ => HeapFile.delete_behaves holds honest⟩
  refine (holds.set set).unPinPage honest (fun _ => .inl rfl) (fun p held other => ?_) fun c' keeps =>
    HeapFile.delete_behaves (.of_unset rfl keeps) honest
  rcases held with header | ⟨here, _⟩
  · exact header
  · exact absurd here (other rfl)

/-- A record was written to the current page, and the header is next. -/
theorem counted_behaves (current : h.curPage = some h.curPageNo)
    (keeps : Keeps base h.filePtr [(h.filePtr, h.curPageNo), (h.filePtr, h.headerPageNo)]
      (fun p => p = (h.filePtr, h.curPageNo) ∨ p = (h.filePtr, h.headerPageNo)) c) :
    Behaves bufs (counted h) c fun h' c' => h'.Holds base c' ∧ h'.filePtr = h.filePtr := by
  have member : (h.filePtr, h.headerPageNo) ∈
    [(h.filePtr, h.curPageNo), (h.filePtr, h.headerPageNo)] := by simp
  simp only [counted, obeys_bind, obeys_pure, and_true]
  refine keeps.header member fun hdr => keeps.store member (fun _ => id) fun c' keeps' => ?_
  refine .of_set current (keeps'.weaken fun p held => ?_)
  rcases held with header | here | header
  · exact .inl ⟨header, rfl⟩
  · exact .inr ⟨here, by simp [current], rfl⟩
  · exact .inl ⟨header, rfl⟩

/-- The pages that an object writes to are the ones it has pinned. -/
theorem marked_within {p : Name × Int} (held : h.Marked p) :
    p = (h.filePtr, h.curPageNo) ∨ p = (h.filePtr, h.headerPageNo) := by
  rcases held with header | ⟨here, _⟩
  · exact .inr header.1
  · exact .inl here

theorem insertOnNewPage_behaves (holds : h.Holds base c) (honest : base.Honest)
    (room : base.pins.length + 3 ≤ bufs) (small : c.grown = false) (set : h.curPage ≠ none)
    (rec : Record) :
    Behaves bufs (insertOnNewPage h rec) c fun r c' =>
      c'.lost = false ∧ ∀ rid, r.1 = .ok rid → r.2.Holds base c' ∧ r.2.filePtr = h.filePtr := by
  have current := holds.current.resolve_left set
  simp only [insertOnNewPage, obeys_bind]
  refine (holds.set set).allocPage (by simp; omega) small fun n c₁ keeps => ?_
  simp only [obeys_bind, obeys_ite, obeys_pure]
  refine keeps.page List.mem_cons_self fun newPage => ?_
  refine keeps.store List.mem_cons_self (fun _ => id) fun c₂ keeps => ?_
  have header : (h.filePtr, h.headerPageNo) ∈
      [(h.filePtr, n), (h.filePtr, h.curPageNo), (h.filePtr, h.headerPageNo)] := by simp
  refine keeps.header header fun hdr => keeps.store header (fun _ => id) fun c₃ keeps => ?_
  have here : (h.filePtr, h.curPageNo) ∈
    [(h.filePtr, n), (h.filePtr, h.curPageNo), (h.filePtr, h.headerPageNo)] := by simp
  simp only [HeapFile.page, HeapFile.setPage, current]
  refine keeps.page here fun page => keeps.store here (fun _ => id) fun c₄ keeps => ?_
  -- the old page is released as dirty, the new one and the header are kept
  have swapped : Keeps base h.filePtr [(h.filePtr, h.curPageNo), (h.filePtr, n),
    (h.filePtr, h.headerPageNo)]
      (fun p => p = (h.filePtr, h.curPageNo) ∨ p = (h.filePtr, n) ∨ p = (h.filePtr, h.headerPageNo))
        c₄ := by
    refine ⟨keeps.found, keeps.opens, keeps.pins.trans (List.Perm.swap ..), fun p owed =>
      (keeps.owed p owed).imp_left ?_⟩
    rintro (rfl | rfl | rfl | rfl | held)
    · exact .inl rfl
    · exact .inr (.inr rfl)
    · exact .inr (.inl rfl)
    · exact .inr (.inl rfl)
    · exact (marked_within held).imp_right .inr
  have others : ∀ p, (p = (h.filePtr, h.curPageNo) ∨ p = (h.filePtr, n) ∨
    p = (h.filePtr, h.headerPageNo)) →
      (true = true → p ≠ (h.filePtr, h.curPageNo)) → p = (h.filePtr, n) ∨
        p = (h.filePtr, h.headerPageNo) :=
    fun p held other => held.resolve_left (other rfl)
  refine swapped.unPinPage honest (fun _ => .inl rfl) others fun c₅ keeps =>
    ⟨fun failed => absurd rfl failed, fun _ => ?_⟩
  refine keeps.page List.mem_cons_self fun page => ?_
  cases page.insertRecord rec with
  | error status => exact ⟨keeps.found, fun rid other => (by cases other)⟩
  | ok result =>
    obtain ⟨rid, page'⟩ := result
    simp only [obeys_bind, obeys_pure]
    refine keeps.store List.mem_cons_self (fun p held => held.elim .inl id) fun c₆ keeps => ?_
    exact (counted_behaves rfl keeps).mono fun h' c' result => ⟨result.1.keeps.found, fun _ _ => result⟩

theorem insertRecord_behaves (holds : h.Holds base c) (honest : base.Honest)
    (room : base.pins.length + 3 ≤ bufs) (small : c.grown = false) (set : h.curPage ≠ none)
    (rec : Record) :
    Behaves bufs (InsertFileScan.insertRecord h rec) c fun r c' =>
      c'.lost = false ∧ ∀ rid, r.1 = .ok rid → r.2.Holds base c' ∧ r.2.filePtr = h.filePtr := by
  unfold InsertFileScan.insertRecord
  simp only [set, if_false, obeys_ite, obeys_pure, obeys_bind]
  refine ⟨fun _ => ⟨holds.keeps.found, fun rid other => (by cases other)⟩, fun _ => holds.page
    fun _ page => ?_⟩
  rw [InsertFileScan.insertOnPage]
  cases page.insertRecord rec with
  | error => exact insertOnNewPage_behaves holds honest room small set rec
  | ok result =>
    obtain ⟨rid, page'⟩ := result
    simp only [obeys_bind, obeys_pure]
    refine holds.setPage fun _ c' keeps => ?_
    rw [own, if_neg set] at keeps
    refine (counted_behaves (holds.current.resolve_left set) (keeps.weaken fun p held => ?_)).mono
      fun h' c' result =>
      ⟨result.1.keeps.found, fun _ _ => result⟩
    exact held.elim .inl marked_within

end InsertFileScan
end Minirel
