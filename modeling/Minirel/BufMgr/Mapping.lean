import Minirel.BufMgr.Calls
import Minirel.Lib.Transition

/-! The mapping between pages and frames, over runs in which any transfer may
fail. It survives every call but two kinds: one that fails after it has taken
over a valid frame, and an `allocPage` that is handed a page the pool holds. -/
namespace Minirel.BufMgr
open Transition Function
variable {bufs : Nat} {P : Type} [PageImage P] {m r : BufMgr bufs P} {fault : Faults P}
  {i : Fin bufs} {k : FilePtr × Int}

inductive Call
  | readPage (file : FilePtr) (pageNo : Int)
  | allocPage (file : FilePtr)
  | unPinPage (file : FilePtr) (pageNo : Int) (dirty : Bool)
  | flushFile (file : FilePtr)
  | disposePage (file : FilePtr) (pageNo : Int)

/-- The manager together with the data of every page: what is on disk while
the page is not in the pool, and from then on what clients made of it. -/
structure Tracked (bufs : Nat) (P : Type) [PageImage P] where
  mgr : BufMgr bufs P
  data : FilePtr × Int → P

namespace Tracked

def start [NeZero bufs] (disk : Disk P) : Tracked bufs P :=
  ⟨.new bufs disk, fun k => (disk k.1).page k.2⟩

/-- The data after a call: pages outside the pool are those on disk. -/
def settle (m : BufMgr bufs P) (data : FilePtr × Int → P) : Tracked bufs P :=
  ⟨m, fun k => if ∃ i, (m.bufTable i).key = some k then data k else (m.disk k.1).page k.2⟩

/-- A page handed out by `allocPage` starts with what its frame happens to hold. -/
def call (t : Tracked bufs P) (fault : Faults P) : Call → Tracked bufs P
  | .readPage file pageNo => settle (t.mgr.readPage file pageNo fault).2 t.data
  | .allocPage file =>
    match t.mgr.allocPage file fault with
    | (.ok (pageNo, i), m) => settle m (update t.data (file, pageNo) (m.bufPool i))
    | (.error _, m) => settle m t.data
  | .unPinPage file pageNo dirty => settle (t.mgr.unPinPage file pageNo dirty).2 t.data
  | .flushFile file => settle (t.mgr.flushFile file fault).2 t.data
  | .disposePage file pageNo => settle (t.mgr.disposePage file pageNo fault).2 t.data

inductive Event (bufs : Nat) (P : Type)
  | call (c : Call) (fault : Faults P)
  | write (frame : Fin bufs) (page : P)

def Step (t : Tracked bufs P) : Event bufs P → Tracked bufs P → Prop
  | .call c fault, u => u = t.call fault c
  | .write i page, u => ∃ k, (t.mgr.bufTable i).key = some k ∧ (t.mgr.bufTable i).pinCnt > 0 ∧
      u = ⟨t.mgr.setPool i page, update t.data k page⟩

/-- If a page is replaced for a read, it can be written back, and the page that is
read is then in the file and its transfer succeeds. If a page is granted and a frame
is to be had for it, the page that is replaced can be written back, and no other
frame holds the new one. -/
def Safe (m : BufMgr bufs P) (fault : Faults P) : Call → Prop
  | .readPage file pageNo => m.lookup (file, pageNo) = none → ∀ i, m.victim = some i →
      m.Spares fault i ∧ fault .pageRead = none ∧ 1 ≤ pageNo ∧ pageNo < (m.flushed i file).size
  | .allocPage file => (m.disk file).Grants fault → (∃ i, m.Idle i) →
      (∀ i, m.victim = some i → m.Spares fault i) ∧
      ∀ j, m.lookup (file, (m.disk file).nextPage) = some j → m.victim = some j
  | _ => True

def SafeStep (t : Tracked bufs P) (e : Event bufs P) (u : Tracked bufs P) : Prop :=
  Step t e u ∧ ∀ c fault, e = .call c fault → Safe t.mgr fault c

/-- Table and frames agree, no page is in two frames, and what would be written
back is the data of the page it would be written to. -/
structure Consistent (t : Tracked bufs P) : Prop where
  entry : ∀ file pageNo i, t.mgr.hashTable.lookup (file, pageNo) = some i ↔
    (t.mgr.bufTable i).valid = true ∧ (t.mgr.bufTable i).file = file ∧
      (t.mgr.bufTable i).pageNo = pageNo
  unique : ∀ i j, (t.mgr.bufTable i).valid = true → (t.mgr.bufTable j).valid = true →
    (t.mgr.bufTable i).file = (t.mgr.bufTable j).file →
    (t.mgr.bufTable i).pageNo = (t.mgr.bufTable j).pageNo → i = j
  holds : ∀ i, (t.mgr.bufTable i).valid = true → (t.mgr.bufTable i).dirty = true →
    t.mgr.bufPool i = t.data ((t.mgr.bufTable i).file, (t.mgr.bufTable i).pageNo)

structure Invariant (t : Tracked bufs P) : Prop extends Mapped t.mgr where
  holds : ∀ i k, (t.mgr.bufTable i).key = some k → t.mgr.bufPool i = t.data k
  outside : ∀ k, (∀ i, (t.mgr.bufTable i).key ≠ some k) → t.data k = (t.mgr.disk k.1).page k.2

variable {t u : Tracked bufs P} {data : FilePtr × Int → P}

theorem Invariant.consistent (inv : t.Invariant) : t.Consistent where
  entry := fun _ _ i => (inv.entry _ i).trans BufDesc.key_eq_some
  unique := fun _ j h1 h2 file pageNo =>
    inv.unique (k := ((t.mgr.bufTable j).file, (t.mgr.bufTable j).pageNo))
      (BufDesc.key_eq_some.mpr ⟨h1, file, pageNo⟩) (BufDesc.key_eq_some.mpr ⟨h2, rfl, rfl⟩)
  holds := fun i valid _ => inv.holds i _ (BufDesc.key_eq_some.mpr ⟨valid, rfl, rfl⟩)

theorem settle_invariant (mapped : Mapped m)
    (holds : ∀ i k, (m.bufTable i).key = some k → m.bufPool i = data k) :
    (settle m data).Invariant := by
  refine ⟨mapped, fun i k held => ?_, fun k outside => ?_⟩
  · change _ = if ∃ i, (m.bufTable i).key = some k then _ else _
    rw [if_pos ⟨i, held⟩]
    exact holds i k held
  · exact if_neg (fun ⟨i, held⟩ => outside i held)

/-- A call that enters no page. -/
theorem Invariant.settle_keeps (inv : t.Invariant) (next : Mapped r ∧ Keeps t.mgr r) :
    (settle r t.data).Invariant := by
  refine settle_invariant next.1 (fun i k held => ?_)
  obtain ⟨before, same⟩ := next.2 i k held
  rw [same]
  exact inv.holds i k before

/-! What a safe call does not do. -/

section safe
variable {file : FilePtr} {pageNo : Int} {disk : Disk P}

theorem Safe.readPage_written (safe : Safe m fault (.readPage file pageNo)) (inv : Mapped m)
    (missing : m.lookup (file, pageNo) = none) : ¬ Unwritten m fault i r := fun unwritten =>
  unwritten.unspared
    (safe missing i (unwritten.victim_of_valid (inv.valid_of_dirty unwritten.dirty))).1

theorem Safe.readPage_invalid (safe : Safe m fault (.readPage file pageNo))
    (missing : m.lookup (file, pageNo) = none) (taken : Taken m i r)
    (cause : fault .pageRead ≠ none ∨ ¬ (1 ≤ pageNo ∧ pageNo < (m.flushed i file).size)) :
    (m.bufTable i).valid = false := by
  by_contra valid
  obtain ⟨_, sound, inside⟩ := safe missing i (taken.victim_of_valid (by simpa using valid))
  exact cause.elim (fun fault => fault sound) fun outside => outside inside

theorem grants_of_allocatePage (granted : m.disk.allocatePage file fault = (.ok pageNo, disk)) :
    (m.disk file).Grants fault ∧ pageNo = (m.disk file).nextPage := by
  rcases m.disk.allocatePage_status file fault with ⟨grants, ok⟩ | ⟨_, status, error⟩
  · rw [granted] at ok
    exact ⟨grants, Except.ok.inj ok⟩
  · rw [granted] at error
    cases error

theorem Safe.allocPage_written (safe : Safe m fault (.allocPage file)) (inv : Mapped m)
    (granted : m.disk.allocatePage file fault = (.ok pageNo, disk)) :
    ¬ Unwritten (m.onDisk disk) fault i r := by
  intro unwritten
  have victim := unwritten.victim_of_valid (inv.valid_of_dirty unwritten.dirty)
  rw [victim_onDisk] at victim
  exact unwritten.unspared ((safe (grants_of_allocatePage granted).1 ⟨i, unwritten.idle⟩).1 i victim)

theorem Safe.allocPage_fresh (safe : Safe m fault (.allocPage file)) (inv : Mapped m)
    (granted : m.disk.allocatePage file fault = (.ok pageNo, disk))
    (taken : Taken (m.onDisk disk) i r) :
    r.lookup (file, pageNo) = none := by
  obtain ⟨grants, rfl⟩ := grants_of_allocatePage granted
  rw [taken.lookup_eq_none_iff (inv.onDisk disk), victim_onDisk]
  exact (safe grants ⟨i, taken.idle⟩).2

end safe

theorem readPage_invariant (inv : t.Invariant) {file : FilePtr} {pageNo : Int}
    (safe : Safe t.mgr fault (.readPage file pageNo)) :
    (settle (t.mgr.readPage file pageNo fault).2 t.data).Invariant := by
  have spec := readPage_spec inv.toMapped file pageNo fault
  generalize t.mgr.readPage file pageNo fault = result at spec
  cases spec with
  | hit i found =>
    have valid := (BufDesc.key_eq_some.mp ((inv.entry _ _).mp found)).1
    exact inv.settle_keeps ⟨inv.toMapped.setDesc rfl (fun invalid => by simp_all),
      keeps_of_update rfl rfl (fun _ h => h)⟩
  | exceeded r turned => exact inv.settle_keeps ⟨inv.toMapped.rotated turned, turned.keeps⟩
  | unwritten i status r missing unwritten =>
    exact absurd unwritten (safe.readPage_written inv.toMapped missing)
  | unread i status r stats junk missing taken spares disk cause =>
    have invalid := safe.readPage_invalid missing taken cause
    have mapped := taken.mapped inv.toMapped invalid
    refine inv.settle_keeps ⟨⟨mapped.entry, mapped.clean⟩, fun j k held => ?_⟩
    obtain ⟨before, same⟩ := taken.keeps j k held
    have apart : j ≠ i := by
      rintro rfl
      rw [BufDesc.key_eq_none.mpr invalid] at before
      cases before
    exact ⟨before, (setPool_of_ne _ _ apart).trans same⟩
  | loaded i r missing entered =>
    have outside := inv.outside _ (inv.toMapped.absent missing)
    exact settle_invariant entered.mapped
      (entered.holds (fun j k held _ => inv.holds j k held) outside.symm)

theorem allocPage_invariant (inv : t.Invariant) {file : FilePtr}
    (safe : Safe t.mgr fault (.allocPage file)) : (t.call fault (.allocPage file)).Invariant := by
  have spec := allocPage_spec inv.toMapped file fault
  simp only [call]
  generalize t.mgr.allocPage file fault = result at spec
  cases spec with
  | refused status disk =>
    exact inv.settle_keeps ⟨inv.toMapped.onDisk disk, fun _ _ held => ⟨held, rfl⟩⟩
  | exceeded pageNo disk r granted turned =>
    exact inv.settle_keeps ⟨(inv.toMapped.onDisk disk).rotated turned, turned.keeps⟩
  | unwritten pageNo disk i status r granted unwritten =>
    exact absurd unwritten (safe.allocPage_written inv.toMapped granted)
  | present pageNo disk i r granted taken present =>
    exact absurd (safe.allocPage_fresh inv.toMapped granted taken) present
  | done pageNo disk i r granted entered =>
    refine settle_invariant entered.mapped (entered.holds (fun j k held apart => ?_) ?_)
    · have other : k ≠ (file, pageNo) := by
        rintro rfl
        have before : (r.bufTable j).key = some (file, pageNo) := by
          rw [entered.others j apart]
          exact held
        exact apart (entered.mapped.unique before (by rw [entered.self]; rfl))
      rw [update_of_ne other]
      exact inv.holds j k held
    · rw [update_self, entered.page]

theorem call_invariant (inv : t.Invariant) {c : Call} (safe : Safe t.mgr fault c) :
    (t.call fault c).Invariant := by
  cases c with
  | readPage file pageNo => exact readPage_invariant inv safe
  | allocPage file => exact allocPage_invariant inv safe
  | unPinPage file pageNo dirty => exact inv.settle_keeps (unPinPage_mapped inv.toMapped ..)
  | flushFile file => exact inv.settle_keeps (flushFrames_mapped inv.toMapped ..)
  | disposePage file pageNo => exact inv.settle_keeps (disposePage_mapped inv.toMapped ..)

/-- A client writes to a page in the pool. -/
theorem write_invariant (inv : t.Invariant) (held : (t.mgr.bufTable i).key = some k) (page : P) :
    Invariant ⟨t.mgr.setPool i page, update t.data k page⟩ := by
  refine ⟨⟨inv.entry, inv.clean⟩, fun j l other => ?_, fun l outside => ?_⟩
  · by_cases here : j = i
    · subst here
      obtain rfl : k = l := Option.some.inj (held.symm.trans other)
      exact (setPool_self ..).trans (update_self k page t.data).symm
    · have apart : l ≠ k := fun same => here (inv.toMapped.unique (same ▸ other) held)
      calc t.mgr.setPool i page |>.bufPool j
        _ = t.mgr.bufPool j := setPool_of_ne _ _ here
        _ = t.data l := inv.holds j l other
        _ = update t.data k page l := (update_of_ne apart ..).symm
  · have apart : l ≠ k := fun same => outside i (same ▸ held)
    exact (update_of_ne apart ..).trans (inv.outside l outside)

theorem start_invariant [NeZero bufs] (disk : Disk P) :
    (start disk : Tracked bufs P).Invariant := by
  refine ⟨new_mapped disk, fun i k held => ?_, fun k _ => rfl⟩
  simp [start, BufMgr.new, BufDesc.key] at held

theorem safeStep_invariant {e : Event bufs P} (inv : t.Invariant) (step : SafeStep t e u) :
    u.Invariant := by
  obtain ⟨step, safe⟩ := step
  cases e with
  | call c fault =>
    obtain rfl := step
    exact call_invariant inv (safe c fault rfl)
  | write i page =>
    obtain ⟨k, held, _, rfl⟩ := step
    exact write_invariant inv held page

theorem not_consistent_of_taken (taken : Taken m i r) (valid : (m.bufTable i).valid = true)
    (pool : Fin bufs → P) (stats : BufStats) :
    ¬ (settle { r with bufPool := pool, bufStats := stats } data).Consistent := by
  intro consistent
  have held : (m.bufTable i).key = some ((m.bufTable i).file, (m.bufTable i).pageNo) :=
    BufDesc.key_eq_some.mpr ⟨valid, rfl, rfl⟩
  have gone : r.lookup ((m.bufTable i).file, (m.bufTable i).pageNo) = none := by
    rw [taken.lookup, if_pos held]
  have entry := (consistent.entry (m.bufTable i).file (m.bufTable i).pageNo i).mpr (by
    change (r.bufTable i).valid = true ∧ (r.bufTable i).file = _ ∧ (r.bufTable i).pageNo = _
    rw [taken.table i]
    exact ⟨valid, rfl, rfl⟩)
  exact Option.some_ne_none i (entry.symm.trans gone)

/-- A call outside the condition breaks the correspondence at once. -/
theorem call_consistent_iff (inv : t.Invariant) (c : Call) (fault : Faults P) :
    (t.call fault c).Consistent ↔ Safe t.mgr fault c := by
  refine ⟨fun consistent => ?_, fun safe => (call_invariant inv safe).consistent⟩
  cases c with
  | readPage file pageNo =>
    intro missing j victim
    have spec := readPage_spec inv.toMapped file pageNo fault
    simp only [call] at consistent
    generalize t.mgr.readPage file pageNo fault = result at spec consistent
    cases spec with
    | hit i found => simp [missing] at found
    | loaded i r _ entered spares same sound inside =>
      cases same j victim
      exact ⟨spares, sound, inside⟩
    | exceeded r turned busy => exact absurd (victim_idle victim) (busy j)
    | unwritten i status r _ unwritten =>
      have valid := inv.valid_of_dirty unwritten.dirty
      exact absurd consistent (not_consistent_of_taken unwritten.toTaken valid _ _)
    | unread i status r stats junk _ taken =>
      have valid : (t.mgr.bufTable i).valid = true := by
        by_contra invalid
        rw [taken.victim, if_neg invalid] at victim
        cases victim
      exact absurd consistent (not_consistent_of_taken taken valid _ _)
  | allocPage file =>
    intro grants idle
    have spec := allocPage_spec inv.toMapped file fault
    simp only [call] at consistent
    generalize t.mgr.allocPage file fault = result at spec consistent
    cases spec with
    | refused status disk refused =>
      rcases t.mgr.disk.allocatePage_status file fault with ⟨_, ok⟩ | ⟨refuses, _⟩
      · rw [refused] at ok
        cases ok
      · exact absurd grants refuses
    | exceeded pageNo disk r granted turned busy =>
      obtain ⟨i, idle⟩ := idle
      exact absurd idle (busy i)
    | unwritten pageNo disk i status r granted unwritten =>
      have valid := inv.valid_of_dirty unwritten.dirty
      exact absurd consistent (not_consistent_of_taken unwritten.toTaken valid _ _)
    | present pageNo disk i r granted taken present =>
      -- the frame describes the page, but the table still leads to another one
      obtain ⟨j, found⟩ := Option.ne_none_iff_exists'.mp present
      have apart := ((taken.entry (inv.toMapped.onDisk disk) _ j).mp found).1
      have entry := (consistent.entry file pageNo i).mpr (by
        change ((r.setDesc i (.set file pageNo)).bufTable i).valid = true ∧ _
        rw [show (settle (r.setDesc i (.set file pageNo)) t.data).mgr.bufTable i = .set file pageNo from
          setDesc_self .., setDesc_self]
        exact ⟨rfl, rfl, rfl⟩)
      exact absurd (Option.some.inj (found.symm.trans entry)) apart
    | done pageNo disk i r granted entered _ spares same fresh =>
      obtain ⟨_, rfl⟩ := grants_of_allocatePage granted
      refine ⟨fun j victim => ?_, fresh⟩
      cases same j victim
      exact spares
  | unPinPage file pageNo dirty => trivial
  | flushFile file => trivial
  | disposePage file pageNo => trivial

/-- As long as no call fails after replacing a valid frame and no page is
handed out twice, table and frames correspond; any other call breaks this. -/
theorem consistent_of_safe [NeZero bufs] (disk : Disk P)
    (reached : Reachable (· = start disk) SafeStep t) :
    t.Consistent ∧ ∀ c fault, (t.call fault c).Consistent ↔ Safe t.mgr fault c := by
  have inv : t.Invariant := by
    refine reached.invariant ?_ (fun _ _ _ inv step => safeStep_invariant inv step)
    rintro _ rfl
    exact start_invariant disk
  exact ⟨inv.consistent, call_consistent_iff inv⟩

end Tracked

/-! A pool of two frames in which a read past the end of the file strands a
dirty page. -/

namespace Tracked

def stranded : Tracked 2 DBPage :=
  let t := (start Disk.twoPages).call noFaults (.readPage 7 2)
  let t := t.call noFaults (.readPage 7 1)
  let t : Tracked 2 DBPage := ⟨t.mgr.setPool 1 ⟨1, 1, 1⟩, update t.data (7, 1) ⟨1, 1, 1⟩⟩
  let t := t.call noFaults (.unPinPage 7 1 true)
  t.call noFaults (.readPage 7 99)

def overwritten : Tracked 2 DBPage :=
  let t := stranded.call noFaults (.unPinPage 7 2 false)
  let t := t.call noFaults (.readPage 7 1)
  let t : Tracked 2 DBPage := ⟨t.mgr.setPool 0 ⟨2, 2, 2⟩, update t.data (7, 1) ⟨2, 2, 2⟩⟩
  t.call noFaults (.unPinPage 7 1 true)

theorem stranded_reachable : Reachable (· = start Disk.twoPages) Step stranded :=
  .next (a := .call (.readPage 7 99) noFaults) (.next (a := .call (.unPinPage 7 1 true) noFaults)
    (.next (a := .write 1 ⟨1, 1, 1⟩) (.next (a := .call (.readPage 7 1) noFaults)
      (.next (a := .call (.readPage 7 2) noFaults) (.initial rfl) rfl) rfl)
      ⟨(7, 1), by decide, by decide, rfl⟩) rfl) rfl

theorem overwritten_reachable : Reachable (· = start Disk.twoPages) Step overwritten :=
  .next (a := .call (.unPinPage 7 1 true) noFaults) (.next (a := .write 0 ⟨2, 2, 2⟩)
    (.next (a := .call (.readPage 7 1) noFaults) (.next (a := .call (.unPinPage 7 2 false) noFaults)
      stranded_reachable rfl) rfl) ⟨(7, 1), by decide, by decide, rfl⟩) rfl

/-- The page is in both frames, and the destructor writes the older copy last. -/
theorem mapping_lost : Reachable (· = start Disk.twoPages) Step overwritten ∧
    ¬ overwritten.Consistent ∧ overwritten.data (7, 1) = ⟨2, 2, 2⟩ ∧
      (overwritten.mgr.destroy noFaults 7).page 1 = ⟨1, 1, 1⟩ := by
  refine ⟨overwritten_reachable, fun consistent => ?_, by decide +kernel, by decide +kernel⟩
  have same : (0 : Fin 2) = 1 := consistent.unique 0 1 (by decide +kernel) (by decide +kernel)
    (by decide +kernel) (by decide +kernel)
  cases same

def evictable : Tracked 1 DBPage :=
  let t := (start Disk.twoPages).call noFaults (.readPage 7 1)
  let t : Tracked 1 DBPage := ⟨t.mgr.setPool 0 ⟨1, 1, 1⟩, update t.data (7, 1) ⟨1, 1, 1⟩⟩
  t.call noFaults (.unPinPage 7 1 true)

/-- A run of safe calls with an eviction: the frame is written back and serves
another page. -/
theorem consistent_of_safe_eviction :
    let t := evictable.call noFaults (.readPage 7 2)
    t.mgr.lookup (7, 2) = some 0 ∧ (t.mgr.disk 7).page 1 = ⟨1, 1, 1⟩ ∧ t.Consistent := by
  have low : ∀ i, (evictable.mgr.bufTable i).dirty = true → 1 ≤ (evictable.mgr.bufTable i).pageNo :=
    by decide +kernel
  have size : ∀ i, 2 < (evictable.mgr.flushed i 7).size := by decide +kernel
  refine ⟨by decide +kernel, by decide +kernel, (consistent_of_safe Disk.twoPages
    (.next (a := .call (.readPage 7 2) noFaults) (.next (a := .call (.unPinPage 7 1 true) noFaults)
      (.next (a := .write 0 ⟨1, 1, 1⟩) (.next (a := .call (.readPage 7 1) noFaults) (.initial rfl)
        ⟨rfl, fun _ _ same => ?_⟩) ⟨⟨(7, 1), by decide, by decide, rfl⟩, fun _ _ same => by cases same⟩)
      ⟨rfl, fun _ _ same => by cases same; trivial⟩) ⟨rfl, fun _ _ same => ?_⟩)).1⟩
  · cases same
    exact fun _ i victim => by cases victim
  · cases same
    exact fun _ i _ => ⟨fun dirty => ⟨low i dirty, rfl⟩, rfl, by decide, size i⟩

end Tracked
end Minirel.BufMgr
