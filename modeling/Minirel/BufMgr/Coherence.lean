import Minirel.BufMgr.Calls
import Minirel.File.FreeList
import Minirel.Lib.Transition

/-! The pool as a cache of a flat page store. Clients write through the pins
they hold and release a pin dirty if they wrote; transfers do not fail. Then
whatever is evicted in between, a read finds what was written last. -/
namespace Minirel.BufMgr
open Transition Function
variable {bufs : Nat} {P : Type} [PageImage P] {m r : BufMgr bufs P}
  {i : Fin bufs} {k : FilePtr × Int}

/-- A pin some client holds, with whether it wrote or allocated the page. -/
structure Pin (bufs : Nat) where
  file : FilePtr
  pageNo : Int
  frame : Fin bufs
  wrote : Bool
deriving DecidableEq

def Pin.key (pin : Pin bufs) : FilePtr × Int := (pin.file, pin.pageNo)

/-- The manager, the contents last written to each page, and the pins held. -/
structure Clients (bufs : Nat) (P : Type) [PageImage P] where
  mgr : BufMgr bufs P
  latest : FilePtr × Int → P
  pins : List (Pin bufs)

namespace Clients

def Start [NeZero bufs] (t : Clients bufs P) : Prop :=
  ∃ disk : Disk P, (∀ file, ∃ free, (disk file).Sound free) ∧
    t = ⟨.new bufs disk, fun k => (disk k.1).page k.2, []⟩

def readPage (t : Clients bufs P) (file : FilePtr) (pageNo : Int) : Clients bufs P :=
  match t.mgr.readPage file pageNo noFaults with
  | (.ok i, m) => { t with mgr := m, pins := ⟨file, pageNo, i, false⟩ :: t.pins }
  | (.error _, m) => { t with mgr := m }

/-- The contents of a new page are those of the frame it is handed out in; if
no frame was left they are those it has in the file. -/
def allocPage (t : Clients bufs P) (file : FilePtr) : Clients bufs P :=
  match t.mgr.allocPage file noFaults with
  | (.ok (pageNo, i), m) =>
    ⟨m, update t.latest (file, pageNo) (m.bufPool i), ⟨file, pageNo, i, true⟩ :: t.pins⟩
  | (.error _, m) =>
    match t.mgr.disk.allocatePage file noFaults with
    | (.ok pageNo, disk) =>
      { t with mgr := m, latest := update t.latest (file, pageNo) ((disk file).page pageNo) }
    | (.error _, _) => { t with mgr := m }

def write (t : Clients bufs P) (pin : Pin bufs) (page : P) : Clients bufs P :=
  ⟨t.mgr.setPool pin.frame page, update t.latest pin.key page,
    { pin with wrote := true } :: t.pins.erase pin⟩

def unPinPage (t : Clients bufs P) (pin : Pin bufs) (dirty : Bool) : Clients bufs P :=
  { t with mgr := (t.mgr.unPinPage pin.file pin.pageNo dirty).2, pins := t.pins.erase pin }

inductive Action (bufs : Nat) (P : Type)
  | readPage (file : FilePtr) (pageNo : Int)
  | allocPage (file : FilePtr)
  | write (pin : Pin bufs) (page : P)
  | unPinPage (pin : Pin bufs) (dirty : Bool)
  | strayUnPin (file : FilePtr) (pageNo : Int) (dirty : Bool)
  | flushFile (file : FilePtr)

/-- Pages that are read exist, a pin is used only while it is held, and a page
nobody has pinned may still be unpinned. -/
def Step (t : Clients bufs P) : Action bufs P → Clients bufs P → Prop
  | .readPage file pageNo, u => (t.mgr.disk file).HasPage pageNo ∧ u = t.readPage file pageNo
  | .allocPage file, u => u = t.allocPage file
  | .write pin page, u => pin ∈ t.pins ∧ u = t.write pin page
  | .unPinPage pin dirty, u =>
    pin ∈ t.pins ∧ (pin.wrote = true → dirty = true) ∧ u = t.unPinPage pin dirty
  | .strayUnPin file pageNo dirty, u => (∀ pin ∈ t.pins, pin.key ≠ (file, pageNo)) ∧
      u = { t with mgr := (t.mgr.unPinPage file pageNo dirty).2 }
  | .flushFile file, u => u = { t with mgr := (t.mgr.flushFile file noFaults).2 }

structure Invariant (t : Clients bufs P) : Prop extends Mapped t.mgr where
  sound : ∀ file, ∃ free, (t.mgr.disk file).Sound free
  real : ∀ i k, (t.mgr.bufTable i).key = some k → (t.mgr.disk k.1).HasPage k.2
  cached : ∀ i k, (t.mgr.bufTable i).key = some k → t.mgr.bufPool i = t.latest k
  written : ∀ i k, (t.mgr.bufTable i).key = some k → (t.mgr.bufTable i).dirty = false →
    (∀ pin ∈ t.pins, pin.key = k → pin.wrote = false) → (t.mgr.disk k.1).page k.2 = t.latest k
  outside : ∀ k, (t.mgr.disk k.1).HasPage k.2 → (∀ i, (t.mgr.bufTable i).key ≠ some k) →
    (t.mgr.disk k.1).page k.2 = t.latest k
  held : ∀ pin ∈ t.pins, (t.mgr.bufTable pin.frame).key = some pin.key
  counted : ∀ i, (t.mgr.bufTable i).pinCnt = t.pins.countP (·.frame = i)

variable {t : Clients bufs P}

/-! Eviction. -/

theorem Invariant.flushed_cases (inv : t.Invariant) (i : Fin bufs) :
    t.mgr.flushed i = t.mgr.disk ∨ ∃ k, (t.mgr.bufTable i).key = some k ∧
      t.mgr.flushed i = t.mgr.disk.write k.1 k.2 (t.latest k) := by
  unfold flushed
  split
  next dirty =>
    have valid : (t.mgr.bufTable i).valid = true := by
      by_contra invalid
      simp [inv.clean i (by simpa using invalid)] at dirty
    have key := BufDesc.key_of_valid valid
    exact Or.inr ⟨_, key, by rw [inv.cached i _ key]⟩
  next => exact Or.inl rfl

theorem Invariant.flushed_sound (inv : t.Invariant) (i : Fin bufs) (file : FilePtr) :
    (∃ free, (t.mgr.flushed i file).Sound free) ∧
      ∀ pageNo, (t.mgr.flushed i file).HasPage pageNo ↔ (t.mgr.disk file).HasPage pageNo := by
  obtain ⟨free, sound⟩ := inv.sound file
  rcases inv.flushed_cases i with same | ⟨k, key, wrote⟩
  · rw [same]
    exact ⟨⟨free, sound⟩, fun _ => Iff.rfl⟩
  · have has := inv.real i k key
    rw [wrote]
    unfold Disk.write
    by_cases here : file = k.1
    · subst here
      rw [update_self]
      exact ⟨⟨free, sound.write has _⟩, sound.hasPage_write has _⟩
    · rw [update_of_ne here]
      exact ⟨⟨free, sound⟩, fun _ => Iff.rfl⟩

theorem Invariant.inside_flushed (inv : t.Invariant) {file : FilePtr} {pageNo : Int}
    (has : (t.mgr.disk file).HasPage pageNo) (i : Fin bufs) : 1 ≤ pageNo ∧
      pageNo < (t.mgr.flushed i file).size := by
  obtain ⟨⟨free, sound⟩, pages⟩ := inv.flushed_sound i file
  have real := sound.hasPage_iff.mp ((pages pageNo).mpr has)
  exact ⟨real.1, real.2.1⟩

theorem Invariant.spares (inv : t.Invariant) (i : Fin bufs) : t.mgr.Spares noFaults i :=
  fun dirty =>
  ⟨(inv.real i _ (BufDesc.key_of_valid (inv.valid_of_dirty dirty))).1, rfl⟩

theorem Invariant.not_cached (inv : t.Invariant) {file : FilePtr} {pageNo : Int} {g : UnixFile P}
    (granted : (t.mgr.disk file).Granted pageNo g) : t.mgr.lookup (file, pageNo) = none := by
  by_contra cached
  obtain ⟨j, found⟩ := Option.ne_none_iff_exists'.mp cached
  exact granted.fresh (inv.real j _ ((inv.entry _ j).mp found))

theorem Invariant.flushed_of_ne (inv : t.Invariant) (apart : (t.mgr.bufTable i).key ≠ some k) :
    (t.mgr.flushed i k.1).page k.2 = (t.mgr.disk k.1).page k.2 := by
  rcases inv.flushed_cases i with same | ⟨l, key, wrote⟩
  · rw [same]
  · rw [wrote]
    exact Disk.write_page_of_ne _ _ (fun same => apart (by rw [key]; exact congrArg some same.symm))

theorem Invariant.no_pins (inv : t.Invariant) (unpinned : (t.mgr.bufTable i).pinCnt = 0) :
    ∀ pin ∈ t.pins, pin.frame ≠ i := by
  have count := inv.counted i
  rw [unpinned] at count
  have none : t.pins.countP (·.frame = i) = 0 := by omega
  rw [List.countP_eq_zero] at none
  simpa using none

/-- A page that nobody has pinned is on disk once its frame was written back. -/
theorem Invariant.flushed_evicted (inv : t.Invariant) (key : (t.mgr.bufTable i).key = some k)
    (unpinned : (t.mgr.bufTable i).pinCnt = 0) : (t.mgr.flushed i k.1).page k.2 = t.latest k := by
  obtain ⟨_, file, pageNo⟩ := BufDesc.key_eq_some.mp key
  unfold flushed
  split
  next =>
    rw [file, pageNo, Disk.write_page_self]
    exact inv.cached i k key
  next clean =>
    refine inv.written i k key (by simpa using clean) (fun pin member same => ?_)
    have frame := inv.toMapped.unique (same ▸ inv.held pin member) key
    exact absurd frame (inv.no_pins unpinned pin member)

/-- A frame without a page has no pins either, so a frame that is taken over
has none. -/
theorem Invariant.taken_no_pins (inv : t.Invariant)
    (unpinned : (t.mgr.bufTable i).valid = true → (t.mgr.bufTable i).pinCnt = 0) :
    ∀ pin ∈ t.pins, pin.frame ≠ i := by
  intro pin member same
  have key := inv.held pin member
  have valid := (BufDesc.key_eq_some.mp key).1
  rw [same] at valid
  exact inv.no_pins (unpinned valid) pin member same

/-- Entering a page of the file that was not in the pool. A page that was read
carries the latest contents; one that was allocated has a writing pin. -/
theorem Invariant.enter (inv : t.Invariant) {page : P} (wrote : Bool)
    (missing : t.mgr.lookup k = none) (has : (t.mgr.disk k.1).HasPage k.2)
    (entered : Entered t.mgr i k page r) (origin : wrote = true ∨ page = t.latest k) :
    Invariant ⟨r, update t.latest k page, ⟨k.1, k.2, i, wrote⟩ :: t.pins⟩ := by
  have absent := inv.toMapped.absent missing
  have free := inv.taken_no_pins entered.unpinned
  have self : (r.bufTable i).key = some k := by
    rw [entered.self]
    rfl
  have others : ∀ j, j ≠ i → (r.bufTable j).key = (t.mgr.bufTable j).key := fun j apart => by
    rw [entered.others j apart]
    rfl
  have other_ne : ∀ j l, (t.mgr.bufTable j).key = some l → l ≠ k := fun j l key same =>
    absent j (same ▸ key)
  refine ⟨entered.mapped, fun file => ?_, fun j l key => ?_, fun j l key => ?_,
    fun j l key clean readers => ?_, fun l real gone => ?_, fun pin member => ?_, fun j => ?_⟩
  · change ∃ free, (r.disk file).Sound free
    rw [entered.disk]
    exact (inv.flushed_sound i file).1
  · change (r.disk l.1).HasPage l.2
    rw [entered.disk, (inv.flushed_sound i l.1).2]
    by_cases here : j = i
    · subst here
      obtain rfl := Option.some.inj (self.symm.trans key)
      exact has
    · exact inv.real j l ((others j here).symm.trans key)
  · by_cases here : j = i
    · subst here
      obtain rfl := Option.some.inj (self.symm.trans key)
      exact entered.page.trans (update_self k page t.latest).symm
    · have before := (others j here).symm.trans key
      calc r.bufPool j
        _ = t.mgr.bufPool j := entered.pool j here
        _ = t.latest l := inv.cached j l before
        _ = update t.latest k page l := (update_of_ne (other_ne j l before) ..).symm
  · change (r.disk l.1).page l.2 = update t.latest k page l
    rw [entered.disk]
    by_cases here : j = i
    · subst here
      obtain rfl := Option.some.inj (self.symm.trans key)
      have read : wrote = false := readers _ List.mem_cons_self rfl
      rw [update_self, inv.flushed_of_ne (absent j), inv.outside k has absent]
      exact (origin.resolve_left (by simp [read])).symm
    · have before := (others j here).symm.trans key
      rw [update_of_ne (other_ne j l before), inv.flushed_of_ne
        (fun same => here (inv.toMapped.unique before same))]
      refine inv.written j l before ?_ (fun pin member => readers pin (List.mem_cons_of_mem _ member))
      change (r.bufTable j).dirty = false at clean
      rw [entered.others j here] at clean
      exact clean
  · have apart : l ≠ k := fun same => gone i (same ▸ self)
    have real : (t.mgr.disk l.1).HasPage l.2 := by
      rw [← (inv.flushed_sound i l.1).2, ← entered.disk]
      exact real
    change (r.disk l.1).page l.2 = update t.latest k page l
    rw [update_of_ne apart, entered.disk]
    by_cases victim : (t.mgr.bufTable i).key = some l
    · exact inv.flushed_evicted victim (entered.unpinned (BufDesc.key_eq_some.mp victim).1)
    · rw [inv.flushed_of_ne victim]
      refine inv.outside l real (fun j key => ?_)
      by_cases here : j = i
      · exact victim (here ▸ key)
      · exact gone j ((others j here).trans key)
  · rcases List.mem_cons.mp member with rfl | member
    · exact self
    · exact (others _ (free pin member)).trans (inv.held pin member)
  · change (r.bufTable j).pinCnt = _
    by_cases here : j = i
    · subst here
      have none : t.pins.countP (·.frame = j) = 0 := by
        rw [List.countP_eq_zero]
        simpa using free
      rw [entered.self]
      simp [none, BufDesc.set]
    · rw [entered.others j here]
      simpa [Ne.symm here] using inv.counted j

theorem Invariant.drop (inv : t.Invariant) {d : BufDesc} (key : (t.mgr.bufTable i).key = some k)
    (unpinned : (t.mgr.bufTable i).pinCnt = 0) (mapped : Mapped r)
    (table : r.bufTable = update t.mgr.bufTable i d) (gone : d.key = none) (pins : d.pinCnt = 0)
    (pool : r.bufPool = t.mgr.bufPool) (disk : r.disk = t.mgr.flushed i) :
    Invariant { t with mgr := r } := by
  have self : r.bufTable i = d := by rw [table, update_self]
  have others : ∀ j, j ≠ i → r.bufTable j = t.mgr.bufTable j := fun j apart => by
    rw [table, update_of_ne apart]
  have still : ∀ j l, (r.bufTable j).key = some l → j ≠ i ∧ (t.mgr.bufTable j).key = some l := by
    intro j l key
    by_cases here : j = i
    · rw [here, self, gone] at key
      cases key
    · exact ⟨here, by rw [← others j here]; exact key⟩
  refine ⟨mapped, fun file => ?_, fun j l now => ?_, fun j l now => ?_, fun j l now clean readers => ?_,
    fun l real absent => ?_, fun pin member => ?_, fun j => ?_⟩
  · change ∃ free, (r.disk file).Sound free
    rw [disk]
    exact (inv.flushed_sound i file).1
  · change (r.disk l.1).HasPage l.2
    rw [disk, (inv.flushed_sound i l.1).2]
    exact inv.real j l (still j l now).2
  · exact (congrFun pool j).trans (inv.cached j l (still j l now).2)
  · obtain ⟨apart, before⟩ := still j l now
    change (r.bufTable j).dirty = false at clean
    change (r.disk l.1).page l.2 = t.latest l
    rw [others j apart] at clean
    rw [disk, inv.flushed_of_ne (fun same => apart (inv.toMapped.unique before same))]
    exact inv.written j l before clean readers
  · change (r.disk l.1).page l.2 = t.latest l
    change (r.disk l.1).HasPage l.2 at real
    rw [disk] at real ⊢
    by_cases victim : (t.mgr.bufTable i).key = some l
    · exact inv.flushed_evicted victim unpinned
    · rw [inv.flushed_of_ne victim]
      refine inv.outside l ((inv.flushed_sound i l.1).2 _ |>.mp real) (fun j key => ?_)
      by_cases here : j = i
      · exact victim (here ▸ key)
      · exact absent j (by change (r.bufTable j).key = _; rw [others j here]; exact key)
  · change (r.bufTable pin.frame).key = _
    rw [others _ (inv.no_pins unpinned pin member)]
    exact inv.held pin member
  · change (r.bufTable j).pinCnt = _
    by_cases here : j = i
    · subst here
      rw [self, pins, ← unpinned]
      exact inv.counted j
    · rw [others j here]
      exact inv.counted j

/-! Steps. -/

theorem Invariant.rotated (inv : t.Invariant) (turned : Rotated t.mgr r) :
    Invariant { t with mgr := r } := by
  have key := turned.key
  refine ⟨inv.toMapped.rotated turned, ?_, fun j l now => ?_, fun j l now => ?_,
    fun j l now clean readers => ?_, fun l real gone => ?_, fun pin member => ?_, fun j => ?_⟩
  · change ∀ file, ∃ free, (r.disk file).Sound free
    rw [turned.disk]
    exact inv.sound
  · change (r.disk l.1).HasPage l.2
    rw [turned.disk]
    exact inv.real j l ((key j).symm.trans now)
  · exact (congrFun turned.pool j).trans (inv.cached j l ((key j).symm.trans now))
  · change (r.disk l.1).page l.2 = _
    change (r.bufTable j).dirty = false at clean
    rw [turned.table j] at clean
    rw [turned.disk]
    exact inv.written j l ((key j).symm.trans now) clean readers
  · change (r.disk l.1).page l.2 = _
    change (r.disk l.1).HasPage l.2 at real
    rw [turned.disk] at real ⊢
    exact inv.outside l real (fun j held => gone j ((key j).trans held))
  · exact (key _).trans (inv.held pin member)
  · change (r.bufTable j).pinCnt = _
    rw [turned.table j]
    exact inv.counted j

theorem Invariant.flags (inv : t.Invariant) {d : BufDesc} {pins : List (Pin bufs)}
    (key : (t.mgr.bufTable i).key = some k) (same : d.key = some k)
    (held : ∀ pin ∈ pins, pin ∈ t.pins ∨ pin.frame = i ∧ pin.key = k)
    (others : ∀ pin ∈ t.pins, pin.frame ≠ i → pin ∈ pins)
    (count : d.pinCnt = pins.countP (·.frame = i))
    (countOthers : ∀ j, j ≠ i → pins.countP (·.frame = j) = t.pins.countP (·.frame = j))
    (written : d.dirty = false → (∀ pin ∈ pins, pin.key = k → pin.wrote = false) →
      (t.mgr.disk k.1).page k.2 = t.latest k) :
    Invariant ⟨t.mgr.setDesc i d, t.latest, pins⟩ := by
  have keys : ∀ j, ((t.mgr.setDesc i d).bufTable j).key = (t.mgr.bufTable j).key := by
    intro j
    by_cases here : j = i
    · rw [here, setDesc_self, same, key]
    · rw [setDesc_of_ne _ _ here]
  have valid := (BufDesc.key_eq_some.mp same).1
  refine ⟨inv.toMapped.setDesc (same.trans key.symm) (by simp [valid]), inv.sound,
    fun j l now => inv.real j l ((keys j).symm.trans now),
    fun j l now => inv.cached j l ((keys j).symm.trans now), fun j l now clean readers => ?_,
    fun l real gone => inv.outside l real (fun j before => gone j ((keys j).trans before)),
    fun pin member => (keys _).trans ?_, fun j => ?_⟩
  · have before := (keys j).symm.trans now
    by_cases here : j = i
    · subst here
      obtain rfl := Option.some.inj (key.symm.trans before)
      exact written (by simpa using clean) readers
    · change ((t.mgr.setDesc i d).bufTable j).dirty = false at clean
      rw [setDesc_of_ne _ _ here] at clean
      refine inv.written j l before clean
        (fun pin member reads => readers pin (others pin member ?_) reads)
      rintro rfl
      exact here (inv.toMapped.unique before (reads ▸ inv.held pin member))
  · rcases held pin member with old | ⟨rfl, rfl⟩
    · exact inv.held pin old
    · exact key
  · change ((t.mgr.setDesc i d).bufTable j).pinCnt = _
    by_cases here : j = i
    · subst here
      rw [setDesc_self]
      exact count
    · rw [setDesc_of_ne _ _ here, countOthers j here]
      exact inv.counted j

theorem countP_erase {pins : List (Pin bufs)} {pin : Pin bufs} (member : pin ∈ pins)
    (i : Fin bufs) :
    pins.countP (·.frame = i) = (pins.erase pin).countP (·.frame = i) + if pin.frame =
      i then 1 else 0 := by
  rw [(List.perm_cons_erase member).countP_eq, List.countP_cons]
  simp

theorem readPage_invariant (inv : t.Invariant) {file : FilePtr} {pageNo : Int}
    (has : (t.mgr.disk file).HasPage pageNo) : (t.readPage file pageNo).Invariant := by
  have spec := readPage_spec inv.toMapped file pageNo noFaults
  unfold readPage
  generalize t.mgr.readPage file pageNo noFaults = result at spec
  cases spec with
  | hit i found =>
    have key := (inv.entry _ _).mp found
    refine inv.flags key key (fun pin member => ?_)
      (fun pin member _ => List.mem_cons_of_mem _ member) ?_
      (fun j apart => ?_) (fun clean readers => ?_)
    · rcases List.mem_cons.mp member with rfl | member
      · exact Or.inr ⟨rfl, rfl⟩
      · exact Or.inl member
    · simp [inv.counted i]
    · simp [Ne.symm apart]
    · exact inv.written i _ key clean (fun pin member => readers pin (List.mem_cons_of_mem _ member))
  | exceeded r turned => exact inv.rotated turned
  | unwritten i status r missing unwritten => exact absurd (inv.spares i) unwritten.unspared
  | unread i status r stats junk missing taken spares disk cause =>
    exact absurd (inv.inside_flushed has i) (cause.resolve_left fun fault => fault rfl)
  | loaded i r missing entered =>
    have latest := inv.outside (file, pageNo) has (inv.toMapped.absent missing)
    have next := inv.enter false missing has entered (Or.inr latest)
    rwa [latest, update_eq_self] at next

theorem Invariant.grant (inv : t.Invariant) {file : FilePtr} {pageNo : Int} {g : UnixFile P}
    (granted : (t.mgr.disk file).Granted pageNo g) :
    Invariant { t with
      mgr := t.mgr.onDisk (update t.mgr.disk file g)
      latest := update t.latest (file, pageNo) (g.page pageNo) } := by
  have pages : ∀ k : FilePtr × Int, (t.mgr.disk k.1).HasPage k.2 →
      k ≠ (file, pageNo) ∧ (update t.mgr.disk file g k.1).HasPage k.2 ∧
        (update t.mgr.disk file g k.1).page k.2 = (t.mgr.disk k.1).page k.2 := by
    intro k has
    by_cases here : k.1 = file
    · rw [here] at has ⊢
      rw [update_self]
      refine ⟨fun same => granted.fresh ?_, (granted.has _).mpr (Or.inr has), granted.page _ has⟩
      rwa [same] at has
    · rw [update_of_ne here]
      exact ⟨fun same => here (by rw [same]), has, rfl⟩
  have new : ∀ k : FilePtr × Int, (update t.mgr.disk file g k.1).HasPage k.2 →
      k ≠ (file, pageNo) → (t.mgr.disk k.1).HasPage k.2 := by
    intro k has apart
    by_cases here : k.1 = file
    · rw [here, update_self, granted.has] at has
      rw [here]
      exact has.resolve_left (fun same => apart (Prod.ext here same))
    · rwa [update_of_ne here] at has
  refine ⟨inv.toMapped.onDisk _, fun other => ?_, fun j l key => (pages l (inv.real j l key)).2.1,
    fun j l key => ?_, fun j l key clean readers => ?_, fun l has gone => ?_, inv.held, inv.counted⟩
  · change ∃ free, (update t.mgr.disk file g other).Sound free
    by_cases here : other = file
    · rw [here, update_self]
      exact granted.sound
    · rw [update_of_ne here]
      exact inv.sound other
  · exact (inv.cached j l key).trans (update_of_ne (pages l (inv.real j l key)).1 ..).symm
  · have old := pages l (inv.real j l key)
    change (update t.mgr.disk file g l.1).page l.2 =
      update t.latest (file, pageNo) (g.page pageNo) l
    rw [old.2.2, update_of_ne old.1]
    exact inv.written j l key clean readers
  · change (update t.mgr.disk file g l.1).page l.2 =
      update t.latest (file, pageNo) (g.page pageNo) l
    by_cases same : l = (file, pageNo)
    · rw [same, update_self, update_self]
    · have before := new l has same
      rw [(pages l before).2.2, update_of_ne same]
      exact inv.outside l before gone

theorem allocPage_invariant (inv : t.Invariant) (file : FilePtr) :
    (t.allocPage file).Invariant := by
  obtain ⟨free, sound⟩ := inv.sound file
  obtain ⟨pageNo, g, run, granted⟩ := Disk.allocatePage_spec sound
  have grant := inv.grant granted
  have spec := allocPage_spec inv.toMapped file noFaults
  unfold allocPage
  generalize t.mgr.allocPage file noFaults = result at spec
  cases spec with
  | refused status disk refused =>
    rw [run] at refused
    cases refused
  | exceeded other disk r again turned =>
    rw [run] at again
    cases again
    simp only [run, update_self]
    exact grant.rotated turned
  | unwritten other disk i status r again unwritten => exact absurd (inv.spares i) unwritten.unspared
  | present other disk i r again taken present =>
    rw [run] at again
    cases again
    exact absurd (taken.lookup_none (inv.not_cached granted)) present
  | done other disk i r again entered =>
    rw [run] at again
    cases again
    have has : (update t.mgr.disk file g file).HasPage pageNo := by
      rw [update_self, granted.has]
      exact Or.inl rfl
    have next := grant.enter true (inv.not_cached granted) has entered (Or.inl rfl)
    rw [update_idem] at next
    simp only [entered.page]
    exact next

theorem write_invariant (inv : t.Invariant) {pin : Pin bufs} (member : pin ∈ t.pins) (page : P) :
    (t.write pin page).Invariant := by
  have key := inv.held pin member
  have unique : ∀ j l, (t.mgr.bufTable j).key = some l → j ≠ pin.frame → l ≠ pin.key :=
    fun j l other apart same => apart (inv.toMapped.unique (same ▸ other) key)
  refine ⟨⟨inv.entry, inv.clean⟩, inv.sound, inv.real, fun j l other => ?_,
    fun j l other clean readers => ?_, fun l real gone => ?_, fun p held => ?_, fun j => ?_⟩
  · by_cases here : j = pin.frame
    · subst here
      obtain rfl := Option.some.inj (key.symm.trans other)
      exact (setPool_self ..).trans (update_self pin.key page t.latest).symm
    · calc (t.mgr.setPool pin.frame page).bufPool j
        _ = t.mgr.bufPool j := setPool_of_ne _ _ here
        _ = t.latest l := inv.cached j l other
        _ = update t.latest pin.key page l :=
            (update_of_ne (unique j l other here) ..).symm
  · have apart : l ≠ pin.key := by
      rintro rfl
      have := readers _ List.mem_cons_self rfl
      simp at this
    refine (inv.written j l other clean (fun p held reads => readers p ?_ reads)).trans
      (update_of_ne apart ..).symm
    have other : p ≠ pin := by
      rintro rfl
      exact apart reads.symm
    exact List.mem_cons_of_mem _ ((List.mem_erase_of_ne other).mpr held)
  · have apart : l ≠ pin.key := fun same => gone pin.frame (same ▸ key)
    exact (inv.outside l real gone).trans (update_of_ne apart ..).symm
  · rcases List.mem_cons.mp held with rfl | held
    · exact key
    · exact inv.held p (List.mem_of_mem_erase held)
  · have counted := inv.counted j
    rw [countP_erase member] at counted
    change (t.mgr.bufTable j).pinCnt = _
    simp only [write, List.countP_cons]
    simpa using counted

theorem unPinPage_found {file : FilePtr} {pageNo : Int} {dirty : Bool}
    (found : m.lookup (file, pageNo) = some i) (pinned : (m.bufTable i).pinCnt ≠ 0) :
    m.unPinPage file pageNo dirty = (.ok, m.setDesc i { m.bufTable i with
      dirty := (m.bufTable i).dirty || dirty, pinCnt := (m.bufTable i).pinCnt - 1 }) := by
  unfold BufMgr.unPinPage
  rw [show m.hashTable.lookup (file, pageNo) = some i from found]
  exact if_neg pinned

/-- A client that has written to its page says so when it releases the page. -/
theorem unPinPage_invariant (inv : t.Invariant) {pin : Pin bufs} (member : pin ∈ t.pins)
    {dirty : Bool} (honest : pin.wrote = true → dirty = true) :
    (t.unPinPage pin dirty).Invariant := by
  have key := inv.held pin member
  have count := countP_erase member
  have pinned : (t.mgr.bufTable pin.frame).pinCnt ≠ 0 := by
    rw [inv.counted, count, if_pos rfl]
    omega
  unfold unPinPage
  rw [unPinPage_found ((inv.entry pin.key pin.frame).mpr key) pinned]
  refine inv.flags key key (fun p held => Or.inl (List.mem_of_mem_erase held))
    (fun p held apart => ?_) ?_
    (fun j apart => ?_) (fun clean readers => ?_)
  · exact (List.mem_erase_of_ne (fun same => apart (by rw [same]))).mpr held
  · have counted := inv.counted pin.frame
    rw [count, if_pos rfl] at counted
    simp only
    omega
  · rw [count, if_neg (Ne.symm apart), Nat.add_zero]
  · simp only [Bool.or_eq_false_iff] at clean
    refine inv.written _ _ key clean.1 (fun p held reads => ?_)
    by_cases same : p = pin
    · rw [same]
      by_contra wrote
      simp [honest (by simpa using wrote)] at clean
    · exact readers p ((List.mem_erase_of_ne same).mpr held) reads

theorem strayUnPin_invariant (inv : t.Invariant) {file : FilePtr} {pageNo : Int} {dirty : Bool}
    (nobody : ∀ pin ∈ t.pins, pin.key ≠ (file, pageNo)) :
    Invariant { t with mgr := (t.mgr.unPinPage file pageNo dirty).2 } := by
  unfold BufMgr.unPinPage
  cases found : t.mgr.hashTable.lookup (file, pageNo) with
  | none => exact inv
  | some i =>
    have key := (inv.entry _ i).mp found
    have none : t.pins.countP (·.frame = i) = 0 := by
      rw [List.countP_eq_zero]
      intro pin member here
      have held := inv.held pin member
      rw [show pin.frame = i by simpa using here, key] at held
      exact nobody pin member (Option.some.inj held).symm
    have unpinned : (t.mgr.bufTable i).pinCnt = 0 := by rw [inv.counted i, none]; rfl
    simp only [unpinned, if_true]
    refine inv.flags key key (fun pin member => Or.inl member) (fun pin member _ => member)
      (by simp [none]) (fun _ _ => rfl) (fun clean readers => ?_)
    simp only [Bool.or_eq_false_iff] at clean
    exact inv.written i _ key clean.1 readers

theorem flushFrame_invariant (inv : t.Invariant) (file : FilePtr) (i : Fin bufs) :
    Invariant { t with mgr := (t.mgr.flushFrame file noFaults i).2 } := by
  have mapped := (flushFrame_mapped inv.toMapped file noFaults i).1
  have flush := t.mgr.flushFrame_cases file noFaults i
  generalize t.mgr.flushFrame file noFaults i = result at mapped flush
  cases flush with
  | skipped => exact inv
  | invalid => exact inv
  | pinned => exact inv
  | unwritten status disk mine dirty fails => exact absurd ⟨(inv.spares i dirty).1, rfl⟩ fails
  | dropped mine ready =>
    have unpinned : (t.mgr.bufTable i).pinCnt = 0 := by
      have := inv.counted i
      have := ready.unpinned
      omega
    exact inv.drop mine.key unpinned mapped rfl rfl unpinned rfl rfl

/-- By induction on the frames that are still to be written out. -/
theorem flushFrames_invariant (inv : t.Invariant) (file : FilePtr) (frames : List (Fin bufs)) :
    Invariant { t with mgr := (flushFrames file noFaults frames t.mgr).2 } := by
  induction frames generalizing t with
  | nil => exact inv
  | cons i rest ih =>
    have step := flushFrame_invariant inv file i
    unfold flushFrames
    split
    next r run =>
      rw [run] at step
      exact ih (t := { t with mgr := r }) step
    next status r _ run => rwa [run] at step

theorem flushFile_invariant (inv : t.Invariant) (file : FilePtr) :
    Invariant { t with mgr := (t.mgr.flushFile file noFaults).2 } :=
  flushFrames_invariant inv file _

/-- A file that was flushed is in no frame. -/
theorem flushFile_no_key {file : FilePtr} {fault : Faults P}
    (run : m.flushFile file fault = (.ok, r)) (i : Fin bufs) (pageNo : Int) :
    (r.bufTable i).key ≠ some (file, pageNo) := by
  have loop := m.flushFrames_cases file fault (List.nodup_finRange bufs)
  rw [show flushFrames file fault (List.finRange bufs) m = (.ok, r) from run] at loop
  cases loop with
  | done _ _ flushed => exact flushed.no_key (List.mem_finRange i) pageNo
  | stopped _ _ _ _ _ _ failed => exact absurd rfl failed

theorem start_invariant [NeZero bufs] (start : t.Start) : t.Invariant := by
  obtain ⟨disk, sound, rfl⟩ := start
  have empty : ∀ i k, ((BufMgr.new bufs disk).bufTable i).key ≠ some k := by
    simp [BufMgr.new, BufDesc.key]
  exact ⟨new_mapped disk, sound,
    fun i k key => absurd key (empty i k), fun i k key => absurd key (empty i k),
    fun i k key => absurd key (empty i k), fun _ _ _ => rfl, by simp, fun _ => rfl⟩

/-- What one call preserves. -/
theorem step_invariant {a : Action bufs P} {u : Clients bufs P} (inv : t.Invariant)
    (step : Step t a u) :
    u.Invariant := by
  cases a with
  | readPage file pageNo =>
    obtain ⟨has, rfl⟩ := step
    exact readPage_invariant inv has
  | allocPage file =>
    obtain rfl := step
    exact allocPage_invariant inv file
  | write pin page =>
    obtain ⟨member, rfl⟩ := step
    exact write_invariant inv member page
  | unPinPage pin dirty =>
    obtain ⟨member, honest, rfl⟩ := step
    exact unPinPage_invariant inv member honest
  | strayUnPin file pageNo dirty =>
    obtain ⟨nobody, rfl⟩ := step
    exact strayUnPin_invariant inv nobody
  | flushFile file =>
    obtain rfl := step
    exact flushFile_invariant inv file

/-- What every run preserves. -/
theorem reachable_invariant [NeZero bufs] (reached : Reachable Start Step t) : t.Invariant :=
  reached.invariant (fun _ start => start_invariant start)
    (fun _ _ _ inv step => step_invariant inv step)

/-! What clients and the disk see. -/

theorem Invariant.read_latest (inv : t.Invariant) {file : FilePtr} {pageNo : Int}
    (has : (t.mgr.disk file).HasPage pageNo)
    (run : t.mgr.readPage file pageNo noFaults = (.ok i, m)) :
    m.bufPool i = t.latest (file, pageNo) := by
  have spec := readPage_spec inv.toMapped file pageNo noFaults
  rw [run] at spec
  cases spec with
  | hit _ found => exact inv.cached i _ ((inv.entry _ _).mp found)
  | loaded _ _ missing entered =>
    exact entered.page.trans (inv.outside (file, pageNo) has (inv.toMapped.absent missing))

theorem Invariant.flushed_latest (inv : t.Invariant) {file : FilePtr} {pageNo : Int}
    (run : t.mgr.flushFile file noFaults = (.ok, m)) (has : (m.disk file).HasPage pageNo) :
    (m.disk file).page pageNo = t.latest (file, pageNo) := by
  have flush := flushFile_invariant inv file
  rw [run] at flush
  exact flush.outside (file, pageNo) has fun i => flushFile_no_key run i pageNo

/-- The destructor's loop: a page whose frame is still to come is dirty there,
every other page is already up to date. -/
theorem Invariant.writeOut_latest (inv : t.Invariant) (frames : List (Fin bufs)) (disk : Disk P)
    (pending : (disk k.1).page k.2 = t.latest k ∨
      ∃ i ∈ frames, (t.mgr.bufTable i).key = some k ∧ (t.mgr.bufTable i).dirty = true) :
    (frames.foldl (t.mgr.writeOut noFaults) disk k.1).page k.2 = t.latest k := by
  induction frames generalizing disk with
  | nil => simpa using pending
  | cons i rest ih =>
    rw [List.foldl_cons]
    apply ih
    unfold writeOut
    by_cases dirty : (t.mgr.bufTable i).valid = true ∧ (t.mgr.bufTable i).dirty = true
    · have key := BufDesc.key_of_valid dirty.1
      have positive := (inv.real i _ key).1
      have wrote : (disk.writePage (t.mgr.bufTable i).file (t.mgr.bufTable i).pageNo (t.mgr.bufPool i)
          ((noFaults : Faults P) (.flushWrite i))).2 =
          disk.write (t.mgr.bufTable i).file (t.mgr.bufTable i).pageNo (t.mgr.bufPool i) := by
        unfold Disk.writePage
        rw [if_neg (by omega)]
        exact congrArg Prod.snd (Disk.intwrite_noFault (by omega) _)
      simp only [dirty, and_self, if_true, wrote]
      by_cases here : k = ((t.mgr.bufTable i).file, (t.mgr.bufTable i).pageNo)
      · left
        rw [here, Disk.write_page_self]
        exact inv.cached i _ key
      · rw [Disk.write_page_of_ne _ _ here]
        refine pending.imp_right ?_
        rintro ⟨j, member, held, waits⟩
        rcases List.mem_cons.mp member with rfl | member
        · exact absurd (Option.some.inj (held.symm.trans key)) here
        · exact ⟨j, member, held, waits⟩
    · simp only [dirty, if_false]
      refine pending.imp_right ?_
      rintro ⟨j, member, held, waits⟩
      rcases List.mem_cons.mp member with rfl | member
      · exact absurd ⟨(BufDesc.key_eq_some.mp held).1, waits⟩ dirty
      · exact ⟨j, member, held, waits⟩

theorem Invariant.destroy_latest (inv : t.Invariant) (has : (t.mgr.disk k.1).HasPage k.2)
    (released : ∀ pin ∈ t.pins, pin.key = k → pin.wrote = false) :
    (t.mgr.destroy noFaults k.1).page k.2 = t.latest k := by
  refine inv.writeOut_latest (List.finRange bufs) t.mgr.disk ?_
  by_cases cached : ∃ i, (t.mgr.bufTable i).key = some k
  · obtain ⟨i, key⟩ := cached
    by_cases dirty : (t.mgr.bufTable i).dirty = true
    · exact Or.inr ⟨i, List.mem_finRange i, key, dirty⟩
    · exact Or.inl (inv.written i k key (by simpa using dirty) released)
  · exact Or.inl (inv.outside k has (fun i key => cached ⟨i, key⟩))

/-- Reads return the latest contents, and flushing a file or destroying the
manager brings the disk up to date, except for pages a client still writes. -/
structure Coherent (t : Clients bufs P) : Prop where
  read : ∀ file pageNo i m, (t.mgr.disk file).HasPage pageNo →
    t.mgr.readPage file pageNo noFaults = (.ok i, m) → m.bufPool i = t.latest (file, pageNo)
  flush : ∀ file m, t.mgr.flushFile file noFaults = (.ok, m) → ∀ pageNo, (m.disk file).HasPage pageNo →
    (m.disk file).page pageNo = t.latest (file, pageNo)
  destroy : ∀ file pageNo, (t.mgr.disk file).HasPage pageNo →
    (∀ pin ∈ t.pins, pin.key = (file, pageNo) → pin.wrote = false) →
    (t.mgr.destroy noFaults file).page pageNo = t.latest (file, pageNo)

/-- The pool is a coherent cache in every state its clients can bring about. -/
theorem pool_coherent [NeZero bufs] (reached : Reachable Start Step t) : t.Coherent := by
  have inv := reachable_invariant reached
  exact ⟨fun _ _ _ _ has run => inv.read_latest has run, fun _ _ run _ has =>
    inv.flushed_latest run has,
    fun _ _ has released => inv.destroy_latest (k := (_, _)) has released⟩

/-- A page that was written and released, in a pool of one frame. -/
theorem pool_coherent_written :
    let t : Clients 1 DBPage := ⟨.new 1 Disk.twoPages, fun k => (Disk.twoPages k.1).page k.2, []⟩
    let t := ((t.readPage 7 1).write ⟨7, 1, 0, false⟩ ⟨5, 5, 5⟩).unPinPage ⟨7, 1, 0, true⟩ true
    t.latest (7, 1) = ⟨5, 5, 5⟩ ∧ (t.mgr.disk 7).page 1 = ⟨0, 0, 0⟩ ∧ t.Coherent :=
  ⟨by decide +kernel, by decide +kernel, pool_coherent
    (.next (a := .unPinPage ⟨7, 1, 0, true⟩ true) (.next (a := .write ⟨7, 1, 0, false⟩ ⟨5, 5, 5⟩)
      (.next (a := .readPage 7 1)
        (.initial ⟨Disk.twoPages, fun file => ⟨[], Disk.twoPages_sound file⟩, rfl⟩)
        ⟨(Disk.twoPages_sound 7).hasPage_iff.mpr (by decide), rfl⟩)
      ⟨by decide +kernel, rfl⟩) ⟨by decide +kernel, by decide, rfl⟩)⟩

end Clients
end Minirel.BufMgr
