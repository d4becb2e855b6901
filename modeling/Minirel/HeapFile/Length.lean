import Minirel.HeapFile.Writers
import Minirel.HeapFile.Refinement
import Minirel.HeapFile.Growth

/-! The lengths of records that can be inserted. The test at the head of
`insertRecord` lets the empty record through, and leaves out the slot that a
record takes on its page. -/
namespace Minirel

theorem Page.insertRecord_congr (p : Page) {rec rec' : Record} (length : rec.length = rec'.length)
    (bytes : rec.bytes = rec'.bytes) : p.insertRecord rec = p.insertRecord rec' := by
  simp only [insertRecord, charge, place, length, bytes]

namespace InsertFileScan
variable {st : Flat} {name : Name} {f : FlatFile} {hdr : FileHdrPage} {chain : Chain} {h : HeapFile}
  {data : List UInt8} {n : Int}

theorem insertRecord_congr (h : HeapFile) {rec rec' : Record} (length : rec.length = rec'.length)
    (bytes : rec.bytes = rec'.bytes) : insertRecord h rec = insertRecord h rec' := by
  simp only [insertRecord, insertOnPage, insertOnNewPage, Page.insertRecord_congr _ length bytes,
    length]

theorem insertRecord_take (h : HeapFile) (nonneg : 0 ≤ n) (enough : n ≤ data.length) :
    insertRecord h ⟨data, n⟩ = insertRecord h (.ofBytes (data.take n.toNat)) := by
  refine insertRecord_congr h ?_ (by rw [Record.bytes_ofBytes, Record.bytes])
  rw [Record.ofBytes_length, List.length_take]
  simp only
  omega

def Fits (n : Int) : Prop := n + 4 ≤ pageSize - dpFixed

/-- The record was stored: it is read back by its identifier, and a scan reports
it without an error. -/
structure Stored (name : Name) (st : Flat) (rid : RID) (bytes : List UInt8) : Prop where
  read : ∃ h st' h', Flat.run (HeapFile.new name) st = some (.ok h, st') ∧
    Flat.run (h.getRecord rid) st' = some ((.ok bytes, h'), st')
  reported : ∃ s st' rids, Flat.run (HeapFileScan.new name) st = some (.ok s, st') ∧
    Program.Returns Flat.handle (HeapFileScan.scanAll · s) st' ((.fileEof, rids), st') ∧ rid ∈ rids

/-- A record that is empty or does not fit on a page is refused and changes
nothing, any other is stored. -/
structure Sized (name : Name) (st : Flat) (h : HeapFile) (data : List UInt8) (n : Int) : Prop where
  refused : n ≤ 0 ∨ ¬ Fits n → Flat.run (insertRecord h ⟨data, n⟩) st =
    some ((.error .invalidRecLen, h), st)
  stored : ¬ (n ≤ 0 ∨ ¬ Fits n) → ∃ rid h' st', Flat.run (insertRecord h ⟨data, n⟩) st =
    some ((.ok rid, h'), st') ∧ Stored name st' rid (data.take n.toNat)

/-- This is so for all lengths but 0 and those of 1001 to 1004. -/
theorem sized_iff (heap : Heap f hdr chain) (there : st.files name = some f) (named : name ≠ [])
    (opened : h.Opened name f hdr.lastPage) (enough : n ≤ data.length) :
    Sized name st h data n ↔ n < 0 ∨ (1 ≤ n ∧ n ≤ 1000) ∨ 1004 < n := by
  constructor
  · intro sized
    obtain ⟨p, pre, rfl⟩ := heap.last_page
    by_contra other
    by_cases empty : n = 0
    · have refused := sized.refused (.inl (by omega))
      obtain ⟨rid, h', g, run, _⟩ := insertRecord_empty ⟨data, n⟩ heap there opened empty
      rw [run] at refused
      cases refused
    · have refused := sized.refused (.inr (by simp only [Fits, pageSize, dpFixed]; omega))
      obtain ⟨h', g, run, _, _⟩ := insertRecord_noSpace ⟨data, n⟩ heap there opened
        (by simp only; omega) (by simp only; omega)
      rw [run] at refused
      cases refused
  · intro good
    refine ⟨fun bad => insertRecord_invalid ?_, fun fine => ?_⟩
    · simp only [Fits, pageSize, dpFixed] at bad ⊢
      omega
    · simp only [Fits, pageSize, dpFixed] at fine
      have nonneg : 0 ≤ n := by omega
      rw [insertRecord_take h nonneg enough]
      have length : (data.take n.toNat).length = n.toNat := by
        rw [List.length_take]
        omega
      obtain ⟨rid, h', g, hdr', chain', run, heap', opened', joined⟩ :=
        insertRecord_spec heap there opened (show 0 < (data.take n.toNat).length by omega) (by omega)
      have there' := Flat.files_put st name g
      have listed : (rid, data.take n.toNat) ∈ chain'.entries := by
        obtain ⟨front, back, _, after, _⟩ := joined.lists
        rw [after]
        simp
      obtain ⟨k, k', new, read⟩ := Sessions.getRecord_listed named there' heap' listed
      obtain ⟨s, scan, _, ahead⟩ := HeapFileScan.new_ahead heap' there' named
      exact ⟨rid, h', _, run, ⟨k, _, k', new, read⟩, s, _, _, scan,
        HeapFileScan.scanAll_spec heap' there' ahead, List.mem_map.mpr ⟨_, listed, rfl⟩⟩

def onNewFile : HeapFile := ⟨[97], 1, false, some 2, 2, false, nullRid⟩

def withNewFile : Flat := (Flat.empty.put [97] (newFile .empty)).opened [97]

/-- A record of two bytes, out of a buffer of three. -/
theorem sized_iff_two : Sized [97] withNewFile onNewFile [7, 8, 9] 2 := by
  have there : withNewFile.files [97] = some (newFile .empty) := Flat.files_put .empty [97] _
  exact (sized_iff (newFile_heap .empty) there (by decide) ⟨rfl, rfl, rfl, rfl⟩ (by decide)).mpr
    (by decide)

/-- The empty record is inserted, and every scan then fails on it. A record of
1001 bytes is refused with another status, and leaves an empty page behind. -/
theorem lengths_accepted :
    (∃ h st s, Flat.run (insertRecord onNewFile ⟨[], 0⟩) withNewFile = some ((.ok ⟨2, 0⟩, h), st) ∧
      Flat.run (HeapFileScan.new [97]) st = some (.ok s, st.opened [97]) ∧
      ∃ t, Program.Returns Flat.handle (HeapFileScan.scanNext · s) (st.opened [97])
        ((.invalidSlotNo, t), st.opened [97])) ∧
    (∃ h g, Flat.run (insertRecord onNewFile ⟨List.replicate 1001 7, 1001⟩) withNewFile =
      some ((.error .noSpace, h), withNewFile.put [97] g) ∧
        g.numPages = (newFile .empty).numPages + 1) ∧
    ¬ Sized [97] withNewFile onNewFile [] 0 := by
  have there : withNewFile.files [97] = some (newFile .empty) := Flat.files_put .empty [97] _
  have opened : onNewFile.Opened [97] (newFile .empty) 2 := ⟨rfl, rfl, rfl, rfl⟩
  refine ⟨⟨_, _, _, rfl, rfl, _, (HeapFileScan.scanNext_steady _).returns
    (show Flat.run (HeapFileScan.scanNext 2 _) _ = some ((_, _), _) from rfl)⟩, ?_, fun sized => ?_⟩
  · obtain ⟨h, g, run, _, linked⟩ := insertRecord_noSpace ⟨List.replicate 1001 7, 1001⟩
      (show Heap (newFile .empty) _ ([] ++ [(2, firstDataPage .empty)]) from newFile_heap .empty)
        there opened (by simp) (by simp)
    exact ⟨h, g, run, linked.numPages⟩
  · cases sized.refused (.inl (Int.le_refl 0))

end InsertFileScan
end Minirel
