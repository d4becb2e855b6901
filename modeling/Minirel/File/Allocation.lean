import Mathlib.Data.Finset.Erase
import Mathlib.Data.Finset.Insert
import Minirel.File.FreeList
import Minirel.Lib.Transition

/-! Runs of `allocatePage` and `disposePage` on a file from `File::create`,
whose clients write the pages they were handed. -/
namespace Minirel
open Transition Function

structure Holding (P : Type) [PageImage P] where
  disk : Disk P
  held : Finset Int

inductive FileCall (P : Type)
  | allocatePage (fault : Faults P)
  | disposePage (pageNo : Int) (fault : Faults P)
  | write (pageNo : Int) (page : P)

namespace Holding
variable {P : Type} [PageImage P] {file : FilePtr} {s t : Holding P}

def apply (file : FilePtr) (s : Holding P) : FileCall P → Holding P
  | .allocatePage fault =>
    match s.disk.allocatePage file fault with
    | (.ok pageNo, disk) => ⟨disk, insert pageNo s.held⟩
    | (.error _, disk) => ⟨disk, s.held⟩
  | .disposePage pageNo fault =>
    match s.disk.disposePage file pageNo fault with
    | (.ok, disk) => ⟨disk, s.held.erase pageNo⟩
    | (_, disk) => ⟨disk, s.held⟩
  | .write pageNo page => ⟨s.disk.write file pageNo page, s.held⟩

def Step (file : FilePtr) (allowed : Holding P → FileCall P → Prop) (s : Holding P)
    (call : FileCall P) (t : Holding P) : Prop :=
  t = s.apply file call ∧ allowed s call ∧ ∀ pageNo page, call = .write pageNo page → pageNo ∈ s.held

def Created (file : FilePtr) (s : Holding P) : Prop :=
  s.disk file = UnixFile.create ∧ s.held = ∅

/-- The free list is proper, and no call returns a page that is held. -/
structure Proper (file : FilePtr) (s : Holding P) : Prop where
  freeList : ∃ free, (s.disk file).Chain (dbp ((s.disk file).page 0)).nextFree free ∧ free.Nodup ∧
    (∀ pageNo ∈ free, 2 ≤ pageNo ∧ pageNo < (dbp ((s.disk file).page 0)).numPages) ∧
    (dbp ((s.disk file).page 0)).firstPage ∉ free
  fresh : ∀ fault pageNo disk, s.disk.allocatePage file fault = (.ok pageNo, disk) → pageNo ∉ s.held

/-- No page is disposed of that is on the free list, and no write fails. -/
def Safe (file : FilePtr) (s : Holding P) : FileCall P → Prop
  | .allocatePage fault => Disk.Written fault
  | .disposePage pageNo fault => Disk.Written fault ∧
      ∀ free, (s.disk file).Chain (dbp ((s.disk file).page 0)).nextFree free → pageNo ∉ free
  | .write _ _ => True

/-- The pages held are the ones in use; the first page stays in use. -/
structure Invariant (file : FilePtr) (s : Holding P) (free : List Int) : Prop where
  sound : (s.disk file).Sound free
  held : ∀ pageNo, pageNo ∈ s.held ↔ (s.disk file).HasPage pageNo
  first : (dbp ((s.disk file).page 0)).firstPage = -1 ∧ (s.disk file).size = 1 ∨
    (dbp ((s.disk file).page 0)).firstPage = 1 ∧ (s.disk file).HasPage 1

theorem Created.invariant (created : Created file s) : Invariant file s [] := by
  obtain ⟨file_eq, held⟩ := created
  constructor
  · rw [file_eq]
    exact UnixFile.create_sound
  · intro pageNo
    rw [held, file_eq, UnixFile.create_sound.hasPage_iff]
    simp only [Finset.notMem_empty, UnixFile.create, false_iff]
    omega
  · left
    rw [file_eq, UnixFile.create_header]
    exact ⟨rfl, rfl⟩

theorem Invariant.free_range {free : List Int} {pageNo : Int} (inv : Invariant file s free)
    (member : pageNo ∈ free) : 2 ≤ pageNo ∧ pageNo < (s.disk file).size := by
  have range := inv.sound.range pageNo member
  rcases inv.first with ⟨_, size⟩ | ⟨_, has⟩
  · omega
  · have notFree := (inv.sound.hasPage_iff.mp has).2.2
    have apart : pageNo ≠ 1 := fun same => notFree (same ▸ member)
    omega

theorem Invariant.first_notMem {free : List Int} (inv : Invariant file s free) :
    (dbp ((s.disk file).page 0)).firstPage ∉ free := by
  intro member
  have range := inv.free_range member
  rcases inv.first with ⟨first, _⟩ | ⟨first, _⟩ <;> omega

theorem Invariant.proper {free : List Int} (inv : Invariant file s free) : Proper file s := by
  refine ⟨⟨free, inv.sound.chain, inv.sound.distinct, fun pageNo member => ?_, inv.first_notMem⟩, ?_⟩
  · rw [inv.sound.count]
    exact inv.free_range member
  · intro fault pageNo disk allocated held
    have has := inv.sound.hasPage_iff.mp ((inv.held pageNo).mp held)
    rw [Disk.allocatePage_page allocated] at has
    cases free with
    | nil =>
      rw [if_neg (fun h => h inv.sound.chain), inv.sound.count] at has
      omega
    | cons next rest =>
      obtain ⟨same, notEnd, _⟩ := inv.sound.chain
      rw [same, if_pos notEnd] at has
      exact has.2.2 List.mem_cons_self

/-- The page comes from the free list or is new, so that nobody holds it. -/
theorem allocatePage_invariant {free : List Int} {fault : Faults P} (inv : Invariant file s free)
    (written : Disk.Written fault) :
    ∃ free, Invariant file (s.apply file (.allocatePage fault)) free := by
  have outcome := Disk.allocatePage_cases inv.sound written
  have returned : ∀ pageNo disk, s.disk.allocatePage file fault = (.ok pageNo, disk) → _ :=
    fun _ _ run => Disk.allocatePage_page run
  simp only [apply]
  generalize s.disk.allocatePage file fault = result at outcome returned ⊢
  cases outcome with
  | failed => exact ⟨free, inv⟩
  | @granted pageNo g granted first =>
    obtain ⟨free', sound⟩ := granted.sound
    refine ⟨free', ?_, fun other => ?_, ?_⟩
    · simpa using sound
    · simp only [update_self, granted.has, Finset.mem_insert, inv.held]
    · simp only [update_self, granted.has, first]
      right
      rcases inv.first with ⟨none, size⟩ | ⟨one, has⟩
      · -- a new file has no free page, so it is extended by its first page
        have ended : (dbp ((s.disk file).page 0)).nextFree = -1 := by
          cases free with
          | nil => exact inv.sound.chain
          | cons next rest =>
            have := inv.sound.range next List.mem_cons_self
            omega
        have page := returned pageNo _ rfl
        rw [if_neg (fun h => h ended), inv.sound.count] at page
        exact ⟨by rw [if_pos ⟨page, none⟩, page, size], .inl (by rw [page, size])⟩
      · exact ⟨by rw [if_neg (fun h => by omega), one], .inr has⟩

/-- A page that is in use goes to the front of the free list. -/
theorem disposePage_invariant {free : List Int} {pageNo : Int} {fault : Faults P}
    (inv : Invariant file s free) (written : Disk.Written fault) (inUse : pageNo ∉ free) :
    ∃ free, Invariant file (s.apply file (.disposePage pageNo fault)) free := by
  have outcome := Disk.disposePage_cases inv.sound written pageNo
  simp only [apply]
  generalize s.disk.disposePage file pageNo fault = result at outcome ⊢
  cases outcome with
  | @refused status bad _ =>
    refine ⟨free, ?_⟩
    cases status <;> first | exact inv | exact absurd rfl bad
  | @freed g low high notFirst freed =>
    have has := inv.sound.hasPage_iff.mpr ⟨low, high, inUse⟩
    refine ⟨pageNo :: free, ?_, fun other => ?_, ?_⟩
    · simpa using freed.sound inv.sound has
    · simp only [update_self, freed.hasPage_iff inv.sound has, Finset.mem_erase, inv.held]
      exact and_comm
    · simp only [update_self, freed.hasPage_iff inv.sound has, freed.size, freed.header]
      exact inv.first.imp_right fun ⟨one, has⟩ => ⟨one, has, fun same => notFirst (one.trans same)⟩

theorem write_invariant {free : List Int} {pageNo : Int} (inv : Invariant file s free)
    (held : pageNo ∈ s.held) (page : P) :
    Invariant file (s.apply file (.write pageNo page)) free := by
  have has := (inv.held pageNo).mp held
  have bounds := inv.sound.hasPage_iff.mp has
  have header : ((s.disk file).write pageNo page).page 0 = (s.disk file).page 0 :=
    UnixFile.write_page_of_ne _ _ (by omega)
  have size : ((s.disk file).write pageNo page).size = (s.disk file).size := Int.max_eq_left (by omega)
  refine ⟨?_, fun other => ?_, ?_⟩
  · simpa only [apply, Disk.write, update_self] using inv.sound.write has page
  · simp only [apply, Disk.write, update_self, inv.sound.hasPage_write has, inv.held]
  · simp only [apply, Disk.write, update_self, inv.sound.hasPage_write has, header, size]
    exact inv.first

/-- What one call preserves, for some list of free pages. -/
theorem step_invariant {call : FileCall P} (inv : ∃ free, Invariant file s free)
    (step : Step file (Safe file) s call t) : ∃ free, Invariant file t free := by
  obtain ⟨free, inv⟩ := inv
  obtain ⟨rfl, safe, holds⟩ := step
  cases call with
  | allocatePage fault => exact allocatePage_invariant inv safe
  | disposePage pageNo fault => exact disposePage_invariant inv safe.1 (safe.2 free inv.sound.chain)
  | write pageNo page => exact ⟨free, write_invariant inv (holds pageNo page rfl) page⟩

/-- Disposing of a page that is free already breaks the list. -/
theorem disposePage_proper_iff {free : List Int} {pageNo : Int} (inv : Invariant file s free) :
    Proper file (s.apply file (.disposePage pageNo noFaults)) ↔ pageNo ∉ free := by
  constructor
  · intro proper member
    obtain ⟨whole, chain, _⟩ := proper.freeList
    have outcome := Disk.disposePage_cases inv.sound Disk.Written.noFaults pageNo
    simp only [apply] at chain
    generalize s.disk.disposePage file pageNo noFaults = result at outcome chain
    cases outcome with
    | refused _ reason =>
      obtain ⟨low, high⟩ := inv.sound.range pageNo member
      rcases reason with failed | failed | first
      · exact failed rfl
      · exact failed rfl
      · exact inv.first_notMem ((first low high).symm ▸ member)
    | freed _ _ _ freed =>
      simp only [update_self] at chain
      exact freed.endless inv.sound member whole chain
  · intro inUse
    obtain ⟨_, inv'⟩ := disposePage_invariant inv Disk.Written.noFaults inUse
    exact inv'.proper

/-- While every call is safe the free list stays proper and no page in use is
handed out. A call of `disposePage` keeps that exactly when it is safe. -/
theorem proper_of_safe (reached : Reachable (Created file) (Step file (Safe file)) s) :
    Proper file s ∧ ∀ pageNo, Proper file (s.apply file (.disposePage pageNo noFaults)) ↔
      Safe file s (.disposePage pageNo noFaults) := by
  obtain ⟨free, inv⟩ := reached.invariant (fun s created => ⟨[], Created.invariant created⟩)
    (fun s call t inv step => step_invariant inv step)
  refine ⟨inv.proper, fun pageNo => ?_⟩
  rw [disposePage_proper_iff inv]
  constructor
  · intro inUse
    refine ⟨Disk.Written.noFaults, fun other chain => ?_⟩
    rwa [chain.unique inv.sound.chain]
  · exact fun safe => safe.2 free inv.sound.chain

/-- Two pages of a new file are allocated, and the second is disposed of. -/
def secondFreed : Holding DBPage :=
  List.foldl (apply 7) ⟨fun _ => .create, ∅⟩
    [.allocatePage noFaults, .allocatePage noFaults, .disposePage 2 noFaults]

theorem secondFreed_reached (allowed : Holding DBPage → FileCall DBPage → Prop)
    (allocate : ∀ s, allowed s (.allocatePage noFaults))
    (dispose : ∀ s : Holding DBPage, dbp ((s.disk 7).page 0) = ⟨-1, 1, 3⟩ →
      allowed s (.disposePage 2 noFaults)) :
    Reachable (Created 7) (Step 7 allowed) secondFreed := by
  refine .next (.next (.next (.initial (s := ⟨fun _ => .create, ∅⟩) ⟨rfl, rfl⟩) ⟨rfl, allocate _, ?_⟩)
    ⟨rfl, allocate _, ?_⟩) ⟨rfl, dispose _ rfl, ?_⟩ <;> simp

/-- The page that was disposed of is on the free list alone. -/
theorem proper_of_safe_secondFreed : Proper 7 secondFreed :=
  (proper_of_safe (secondFreed_reached (Safe 7) (fun _ => Disk.Written.noFaults)
    (fun s header => ⟨Disk.Written.noFaults, fun free chain => by
      rw [header] at chain
      cases free with
      | nil => simp
      | cons next rest => exact absurd chain.1 (fun same => chain.2.1 same.symm)⟩))).1

/-- Disposed of again, the page is on the list behind itself and is handed out
for ever. -/
theorem handed_out_twice : ∃ s : Holding DBPage, Reachable (Created 7) (Step 7 fun _ _ => True) s ∧
    2 ∈ s.held ∧ (s.disk.allocatePage 7 noFaults).1 = .ok 2 ∧ ¬ Proper 7 s := by
  have reached := secondFreed_reached (fun _ _ => True) (fun _ => trivial) (fun _ _ => trivial)
  refine ⟨_, .next (a := .allocatePage noFaults) (.next (a := .disposePage 2 noFaults) reached
    ⟨rfl, trivial, by simp⟩) ⟨rfl, trivial, by simp⟩, by decide, rfl, fun proper => ?_⟩
  exact proper.fresh noFaults 2 _ rfl (by decide)

end Holding
end Minirel
