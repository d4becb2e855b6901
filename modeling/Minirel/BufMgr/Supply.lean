import Mathlib.Data.Fintype.Card
import Minirel.BufMgr.Coherence

/-! Calls that cannot fail: while fewer pins are held than there are frames a
page that exists is read and a new one allocated, and a file nobody has pinned
is flushed. What such a call may change besides the pins and the page it is
about is nothing a client sees. -/
namespace Minirel.BufMgr
open Function
variable {bufs : Nat} {P : Type} [PageImage P] {m r s : BufMgr bufs P} {fault : Faults P}
    {file : FilePtr} {pageNo : Int}

def Null (m : BufMgr bufs P) : Prop := ∀ i, (m.bufTable i).valid = false → (m.bufTable i).file = 0

/-- The pool has got no pages but the one that is `new`, and no header page has
changed. -/
structure Gentle (m : BufMgr bufs P) (new : FilePtr × Int → Prop) (r : BufMgr bufs P) : Prop where
  keys : ∀ i k, (r.bufTable i).key = some k → new k ∨ ∃ j, (m.bufTable j).key = some k
  null : m.Null → r.Null
  header : ∀ file, (r.disk file).page 0 = (m.disk file).page 0

theorem Gentle.flags {i : Fin bufs} {k : FilePtr × Int} {d : BufDesc}
    (key : (m.bufTable i).key = some k) (same : d.key = some k) (new : FilePtr × Int → Prop) :
    Gentle m new (m.setDesc i d) := by
  refine ⟨fun j l held => .inr ?_, fun null j invalid => ?_, fun _ => rfl⟩
  · by_cases here : j = i
    · subst here
      rw [setDesc_self, same] at held
      exact ⟨j, key.trans held⟩
    · rw [setDesc_of_ne _ _ here] at held
      exact ⟨j, held⟩
  · by_cases here : j = i
    · subst here
      rw [setDesc_self] at invalid
      simp [(BufDesc.key_eq_some.mp same).1] at invalid
    · rw [setDesc_of_ne _ _ here] at invalid ⊢
      exact null j invalid

/-! A frame is to be had. -/

namespace Clients
variable {t : Clients bufs P}

/-- Each frame in use takes a pin. -/
theorem Invariant.exists_idle (inv : t.Invariant) (room : t.pins.length < bufs) :
    ∃ i, t.mgr.Idle i := by
  by_contra all
  push Not at all
  have covered : (Finset.univ : Finset (Fin bufs)) ⊆ (t.pins.map (·.frame)).toFinset := by
    intro i _
    have used := (not_or.mp (all i)).2
    rw [inv.counted i, Int.natCast_eq_zero] at used
    obtain ⟨pin, member, here⟩ := List.countP_pos_iff.mp (Nat.pos_of_ne_zero used)
    rw [List.mem_toFinset, List.mem_map]
    exact ⟨pin, member, by simpa using here⟩
  have card := (Finset.card_le_card covered).trans (List.toFinset_card_le _)
  simp only [Finset.card_univ, Fintype.card_fin, List.length_map] at card
  omega

theorem Invariant.header_flushed (inv : t.Invariant) (i : Fin bufs) (file : FilePtr) :
    (t.mgr.flushed i file).page 0 = (t.mgr.disk file).page 0 :=
  inv.flushed_of_ne (k := (file, 0)) fun key => absurd (inv.real i _ key).1 (by simp)

theorem Invariant.gentle_entered (inv : t.Invariant) {i : Fin bufs} {k : FilePtr × Int} {page : P}
    (entered : Entered t.mgr i k page r) : Gentle t.mgr (· = k) r := by
  refine ⟨fun j l held => ?_, fun null j invalid => ?_, fun file => ?_⟩
  · by_cases here : j = i
    · subst here
      rw [entered.self, BufDesc.key_set] at held
      exact .inl (Option.some.inj held).symm
    · rw [entered.others j here] at held
      exact .inr ⟨j, held⟩
  · by_cases here : j = i
    · subst here
      rw [entered.self] at invalid
      cases invalid
    · rw [entered.others j here] at invalid ⊢
      exact null j invalid
  · rw [entered.disk]
    exact inv.header_flushed i file

theorem readPage_ok (inv : t.Invariant) (room : t.pins.length < bufs)
    (has : (t.mgr.disk file).HasPage pageNo) :
    ∃ i r, t.mgr.readPage file pageNo noFaults = (.ok i, r) ∧
      Gentle t.mgr (· = (file, pageNo)) r := by
  obtain ⟨j, idle⟩ := inv.exists_idle room
  have spec := readPage_spec inv.toMapped file pageNo noFaults
  generalize t.mgr.readPage file pageNo noFaults = result at spec
  cases spec with
  | hit i found =>
    have key := (inv.entry _ i).mp found
    refine ⟨i, _, rfl, .flags key ?_ _⟩
    exact key
  | exceeded r turned busy => exact absurd idle (busy j)
  | unwritten i status r missing unwritten => exact absurd (inv.spares i) unwritten.unspared
  | unread i status r stats junk missing taken spares disk cause =>
    exact absurd (inv.inside_flushed has i) (cause.resolve_left fun fault => fault rfl)
  | loaded i r missing entered => exact ⟨i, r, rfl, inv.gentle_entered entered⟩

/-- A page behind the last one, of a file without a free list. -/
theorem allocPage_ok (inv : t.Invariant) (file : FilePtr) (room : t.pins.length < bufs) :
    ∃ n g i r, t.mgr.disk.allocatePage file noFaults = (.ok n, update t.mgr.disk file g) ∧
      t.mgr.allocPage file noFaults = (.ok (n, i), r) ∧
      Gentle (t.mgr.onDisk (update t.mgr.disk file g)) (· = (file, n)) r := by
  obtain ⟨free, sound⟩ := inv.sound file
  obtain ⟨n, g, run, granted⟩ := Disk.allocatePage_spec sound
  obtain ⟨j, idle⟩ := inv.exists_idle room
  have spec := allocPage_spec inv.toMapped file noFaults
  generalize t.mgr.allocPage file noFaults = result at spec
  cases spec with
  | refused status disk refused =>
    rw [run] at refused
    cases refused
  | exceeded _ _ r _ turned busy => exact absurd idle (busy j)
  | unwritten other disk i status r again unwritten => exact absurd (inv.spares i) unwritten.unspared
  | present other disk i r again taken present =>
    rw [run] at again
    cases again
    exact absurd (taken.lookup_none (inv.not_cached granted)) present
  | done other disk i r again entered =>
    rw [run] at again
    cases again
    exact ⟨n, g, i, r, run, rfl, (inv.grant granted).gentle_entered entered⟩

end Clients

/-! Flushing. -/

/-- Frames are dropped, and no header page is in a frame that is written. -/
theorem Flushed.gentle {frames : List (Fin bufs)} (flushed : Flushed m file frames r)
    (keeps : Keeps m r) (ready : m.AllReady file fault frames) (new : FilePtr × Int → Prop) :
    Gentle m new r := by
  refine ⟨fun j k held => .inr ⟨j, (keeps j k held).1⟩, fun null j invalid => ?_, fun other => ?_⟩
  · by_cases mine : j ∈ frames ∧ (m.bufTable j).file = file
    · exact (flushed.dropped j mine.1 mine.2).2
    · have same := flushed.others j (not_and_or.mp mine)
      rw [same] at invalid ⊢
      exact null j invalid
  · refine flushed.kept (other, 0) fun i member changed same => ?_
    have low := ((ready i member changed.2.1).writes changed.2.2).1
    have zero := (Prod.mk.inj same).2
    omega

namespace Clients
variable {t : Clients bufs P}

theorem flushFile_ok (inv : t.Invariant) (null : t.mgr.Null) (pointer : file ≠ 0)
    (unpinned : ∀ pin ∈ t.pins, pin.file ≠ file) :
    ∃ r, t.mgr.flushFile file noFaults = (.ok, r) ∧ Invariant { t with mgr := r } ∧
      Gentle t.mgr (fun _ => False) r ∧ ∀ i k, (r.bufTable i).key = some k → k.1 ≠ file := by
  have ready : t.mgr.AllReady file noFaults (List.finRange bufs) := by
    intro i _ names
    have valid : (t.mgr.bufTable i).valid = true := by
      by_contra invalid
      exact pointer (names.symm.trans (null i (by simpa using invalid)))
    have key := BufDesc.key_of_valid valid
    refine ⟨valid, ?_, fun _ => ⟨(inv.real i _ key).1, rfl⟩⟩
    rw [inv.counted i]
    suffices none : t.pins.countP (·.frame = i) = 0 by omega
    rw [List.countP_eq_zero]
    intro pin member here
    have held := inv.held pin member
    rw [show pin.frame = i by simpa using here, key] at held
    exact unpinned pin member ((congrArg Prod.fst (Option.some.inj held)).symm.trans names)
  have keeps := (flushFrames_mapped inv.toMapped file noFaults (List.finRange bufs)).2
  have inv' := flushFile_invariant inv file
  have loop := t.mgr.flushFrames_cases file noFaults (List.nodup_finRange bufs)
  have gone (r : BufMgr bufs P) := @flushFile_no_key _ _ _ t.mgr r file noFaults
  unfold flushFile at inv' gone ⊢
  generalize flushFrames file noFaults (List.finRange bufs) t.mgr = result at keeps inv' loop gone
  cases loop with
  | done r _ flushed =>
    refine ⟨r, rfl, inv', flushed.gentle keeps ready _, ?_⟩
    rintro i ⟨other, n⟩ key rfl
    exact gone r rfl i n key
  | stopped status disk i n before after _ _ _ _ names stuck =>
    exact absurd (ready i (List.mem_finRange i) names) stuck

/-- A file without pages in the pool is replaced on disk. -/
theorem Invariant.mount (inv : t.Invariant) {unix : UnixFile P} (sound : ∃ free, unix.Sound free)
    (unused : ∀ i k, (t.mgr.bufTable i).key = some k → k.1 ≠ file) :
    Invariant { t with
      mgr := t.mgr.onDisk (update t.mgr.disk file unix)
      latest := fun k => if k.1 = file then unix.page k.2 else t.latest k } := by
  have kept : ∀ i k, (t.mgr.bufTable i).key = some k →
    update t.mgr.disk file unix k.1 = t.mgr.disk k.1 ∧
      (if k.1 = file then unix.page k.2 else t.latest k) = t.latest k :=
    fun i k key => ⟨update_of_ne (unused i k key) .., if_neg (unused i k key)⟩
  refine ⟨inv.toMapped.onDisk _, fun other => ?_, fun i k key => ?_, fun i k key => ?_,
    fun i k key clean readers => ?_, fun k has gone => ?_, inv.held, inv.counted⟩
  · change ∃ free, (update t.mgr.disk file unix other).Sound free
    by_cases here : other = file
    · rw [here, update_self]
      exact sound
    · rw [update_of_ne here]
      exact inv.sound other
  · change (update t.mgr.disk file unix k.1).HasPage k.2
    rw [(kept i k key).1]
    exact inv.real i k key
  · exact (inv.cached i k key).trans (kept i k key).2.symm
  · change (update t.mgr.disk file unix k.1).page k.2 = _
    rw [(kept i k key).1]
    exact (inv.written i k key clean readers).trans (kept i k key).2.symm
  · change (update t.mgr.disk file unix k.1).page k.2 = if k.1 = file then unix.page k.2 else t.latest k
    change (update t.mgr.disk file unix k.1).HasPage k.2 at has
    by_cases here : k.1 = file
    · rw [if_pos here, here, update_self]
    · rw [update_of_ne here] at has
      rw [if_neg here, update_of_ne here]
      exact inv.outside k has gone

end Clients
end Minirel.BufMgr
