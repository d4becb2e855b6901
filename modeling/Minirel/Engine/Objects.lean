import Mathlib.Data.Finset.Filter
import Mathlib.Data.Finset.Dedup
import Minirel.Engine.HeapFile

/-! The ledger of a number of heap-file objects, on the same file or on others. -/
namespace Minirel
open Conduct

namespace HeapFile
variable {h : HeapFile} {p : Name × Int}

theorem Marked.mem_own (marked : h.Marked p) : p ∈ h.own := by
  rcases marked with ⟨rfl, _⟩ | ⟨rfl, set, _⟩
  · exact h.header_mem_own
  · simp [own, set]

theorem file_of_mem_own (member : p ∈ h.own) : p.1 = h.filePtr := by
  unfold own at member
  split at member <;> simp at member <;> grind

theorem own_length_le (h : HeapFile) : h.own.length ≤ 2 := by
  unfold own
  split <;> simp

end HeapFile

namespace Ledger

open Classical in
/-- Each object has its file open and its pages pinned, and owes those its flags
tell of. -/
noncomputable def of (objects : List HeapFile) : Ledger where
  opens name := objects.countP (·.filePtr = name)
  pins := objects.flatMap HeapFile.own
  owed := (objects.flatMap HeapFile.own).toFinset.filter fun p => ∃ h ∈ objects, h.Marked p

variable {objects objects' rest : List HeapFile} {h : HeapFile} {p : Name × Int} {c : Conduct}

theorem mem_of_owed : p ∈ (of objects).owed ↔ ∃ h ∈ objects, h.Marked p := by
  simp only [of, Finset.mem_filter, List.mem_toFinset, List.mem_flatMap, and_iff_right_iff_imp]
  rintro ⟨h, member, marked⟩
  exact ⟨h, member, marked.mem_own⟩

theorem of_nil : of [] = empty := by
  have none : (of []).owed = ∅ := by
    ext p
    simp [mem_of_owed]
  rw [empty, ← none]
  rfl

theorem of_honest (objects : List HeapFile) : (of objects).Honest := by
  refine ⟨fun p owed => ?_, fun p pinned => ?_⟩
  · obtain ⟨h, member, marked⟩ := mem_of_owed.mp owed
    exact List.mem_flatMap.mpr ⟨h, member, marked.mem_own⟩
  · obtain ⟨h, member, own⟩ := List.mem_flatMap.mp pinned
    refine List.countP_pos_iff.mpr ⟨h, member, ?_⟩
    simpa using (HeapFile.file_of_mem_own own).symm

theorem of_pins_length_le (objects : List HeapFile) :
    (of objects).pins.length ≤ 2 * objects.length := by
  induction objects with
  | nil => simp [of]
  | cons h rest ih =>
    have one := h.own_length_le
    simp only [of, List.flatMap_cons, List.length_append, List.length_cons] at ih ⊢
    omega

theorem returned_perm (same : objects.Perm objects') (returned : Returned (of objects) c) :
    Returned (of objects') c := by
  refine ⟨returned.found, ?_, returned.pins.trans (same.flatMap_right _), fun p owed => ?_⟩
  · rw [returned.opens]
    funext name
    exact same.countP_eq _
  · obtain ⟨h, member, marked⟩ := mem_of_owed.mp (returned.owed p owed)
    exact mem_of_owed.mpr ⟨h, same.mem_iff.mp member, marked⟩

theorem holds_iff_returned (current : h.curPage = none ∨ h.curPage = some h.curPageNo) :
    h.Holds (of rest) c ↔ Returned (of (h :: rest)) c := by
  have opens : Function.update (of rest).opens h.filePtr ((of rest).opens h.filePtr + 1) =
      (of (h :: rest)).opens := by
    funext name
    by_cases same : name = h.filePtr
    · subst same
      simp [of]
    · simp [of, same, Ne.symm same]
  have owed : ∀ p, (h.Marked p ∨ p ∈ (of rest).owed) ↔ p ∈ (of (h :: rest)).owed := by
    simp [mem_of_owed]
  refine ⟨fun holds => ⟨holds.keeps.found, ?_, holds.keeps.pins, ?_⟩, fun returned =>
    ⟨current, returned.found, ?_, returned.pins, ?_⟩⟩
  · rw [← opens]
    exact holds.keeps.opens
  · exact fun p member => (owed p).mp (holds.keeps.owed p member)
  · rw [opens]
    exact returned.opens
  · exact fun p member => (owed p).mpr (returned.owed p member)

end Ledger
end Minirel
