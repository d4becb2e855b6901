import Minirel.HeapFile
import Minirel.Lib.Contract

/-! Rules for accesses through page pointers, under contracts whose ghost state
they do not change. -/
namespace Minirel
open Program

variable {γ : Type} {E : Contract StorageCall.Reply γ} {g : γ} {name : Name} {n : Int}
    {h : HeapFile}

theorem Storage.page_ensures {post : Page → γ → Prop}
    (quiet : ∀ reply, E.next (.load name n) g reply = g) (holds : ∀ page, post page g) :
    (Storage.page name n).Ensures E g post := by
  intro reply _
  rw [quiet]
  cases reply with
  | data page => exact holds page
  | header => trivial

theorem Storage.header_ensures {post : FileHdrPage → γ → Prop}
    (quiet : ∀ reply, E.next (.load name n) g reply = g) (holds : ∀ hdr, post hdr g) :
    (Storage.header name n).Ensures E g post := by
  intro reply _
  rw [quiet]
  cases reply with
  | data => trivial
  | header hdr => exact holds hdr

theorem HeapFile.page_ensures {post : Page → γ → Prop}
    (quiet : ∀ n reply, E.next (.load h.filePtr n) g reply = g)
    (holds : ∀ page, h.curPage ≠ none → post page g) : h.page.Ensures E g post := by
  unfold HeapFile.page
  cases cur : h.curPage with
  | none => trivial
  | some n => exact Storage.page_ensures (quiet n) fun page => holds page (by simp [cur])

theorem HeapFile.setPage_ensures {page : Page} {post : Unit → γ → Prop}
    (holds : ∀ n, h.curPage = some n → post () (E.next (.store h.filePtr n (.data page)) g ())) :
    (h.setPage page).Ensures E g post := by
  unfold HeapFile.setPage
  cases cur : h.curPage with
  | none => trivial
  | some n => exact fun _ _ => holds n cur

end Minirel
