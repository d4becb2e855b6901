import Mathlib.Data.List.Nodup
import Minirel.File

/-! Files whose header describes them: the page count is the size of the UNIX
file and the free list is a chain of distinct pages. A page exists in its file
when it is inside and not on that list. -/
namespace Minirel
open Function
variable {P : Type} [PageImage P]

namespace UnixFile
variable {f : UnixFile P} {pageNo : Int} {free : List Int}

def Chain (f : UnixFile P) : Int → List Int → Prop
  | next, [] => next = -1
  | next, pageNo :: rest => next = pageNo ∧ pageNo ≠ -1 ∧ f.Chain (dbp (f.page pageNo)).nextFree rest

/-- What the header says is true of the file. -/
structure Sound (f : UnixFile P) (free : List Int) : Prop where
  count : (dbp (f.page 0)).numPages = f.size
  header : 1 ≤ f.size
  chain : f.Chain (dbp (f.page 0)).nextFree free
  range : ∀ pageNo ∈ free, 1 ≤ pageNo ∧ pageNo < f.size
  distinct : free.Nodup

def HasPage (f : UnixFile P) (pageNo : Int) : Prop :=
  1 ≤ pageNo ∧ pageNo < (dbp (f.page 0)).numPages ∧
    ∀ free, f.Chain (dbp (f.page 0)).nextFree free → pageNo ∉ free

theorem Chain.unique {next : Int} {first second : List Int} (a : f.Chain next first)
    (b : f.Chain next second) : first = second := by
  induction first generalizing next second with
  | nil =>
    cases second with
    | nil => rfl
    | cons pageNo rest => exact absurd (b.1.symm.trans a) b.2.1
  | cons pageNo rest ih =>
    cases second with
    | nil => exact absurd (a.1.symm.trans b) a.2.1
    | cons other rest' =>
      obtain ⟨rfl, _, a⟩ := a
      obtain ⟨rfl, _, b⟩ := b
      rw [ih a b]

/-- Clients may read every page but the header and the free ones. -/
theorem Sound.hasPage_iff (sound : f.Sound free) :
    f.HasPage pageNo ↔ 1 ≤ pageNo ∧ pageNo < f.size ∧ pageNo ∉ free := by
  unfold HasPage
  rw [sound.count]
  refine ⟨fun h => ⟨h.1, h.2.1, h.2.2 free sound.chain⟩, fun h => ⟨h.1, h.2.1, fun other chain => ?_⟩⟩
  rw [chain.unique sound.chain]
  exact h.2.2

theorem Chain.congr {g : UnixFile P} {next : Int} (chain : f.Chain next free)
    (same : ∀ pageNo ∈ free, g.page pageNo = f.page pageNo) : g.Chain next free := by
  induction free generalizing next with
  | nil => exact chain
  | cons pageNo rest ih =>
    refine ⟨chain.1, chain.2.1, ?_⟩
    rw [same pageNo List.mem_cons_self]
    exact ih chain.2.2 (fun other member => same other (List.mem_cons_of_mem _ member))

@[simp] theorem write_page_self (f : UnixFile P) (pageNo : Int) (page : P) :
    (f.write pageNo page).page pageNo = page := update_self ..

theorem write_page_of_ne (f : UnixFile P) {pageNo other : Int} (page : P) (apart : other ≠ pageNo) :
    (f.write pageNo page).page other = f.page other := update_of_ne apart ..

theorem Sound.write (sound : f.Sound free) (has : f.HasPage pageNo) (page : P) :
    (f.write pageNo page).Sound free := by
  rw [sound.hasPage_iff] at has
  have header : (f.write pageNo page).page 0 = f.page 0 := write_page_of_ne _ _ (by omega)
  have size : (f.write pageNo page).size = f.size := Int.max_eq_left (by omega)
  refine ⟨?_, ?_, ?_, ?_, sound.distinct⟩
  · rw [header, size]
    exact sound.count
  · rw [size]
    exact sound.header
  · rw [header]
    exact sound.chain.congr (fun other member =>
      write_page_of_ne _ _ (fun same => has.2.2 (same ▸ member)))
  · rw [size]
    exact sound.range

theorem Sound.hasPage_write (sound : f.Sound free) (has : f.HasPage pageNo) (page : P)
    (other : Int) :
    (f.write pageNo page).HasPage other ↔ f.HasPage other := by
  have size : (f.write pageNo page).size = f.size := by
    have := (sound.hasPage_iff.mp has).2.1
    exact Int.max_eq_left (by omega)
  rw [(sound.write has page).hasPage_iff, sound.hasPage_iff, size]

structure Granted (f : UnixFile P) (pageNo : Int) (g : UnixFile P) : Prop where
  sound : ∃ free, g.Sound free
  fresh : ¬ f.HasPage pageNo
  has : ∀ other, g.HasPage other ↔ other = pageNo ∨ f.HasPage other
  page : ∀ other, f.HasPage other → g.page other = f.page other

theorem Sound.pop {rest : List Int} (sound : f.Sound (pageNo :: rest)) :
    f.Granted pageNo (f.write 0 (setDbp (f.page 0)
      { dbp (f.page 0) with nextFree := (dbp (f.page pageNo)).nextFree })) := by
  obtain ⟨outside, distinct⟩ := List.nodup_cons.mp sound.distinct
  have inside := sound.range pageNo List.mem_cons_self
  have header := sound.header
  obtain ⟨g, hg⟩ : ∃ g, g = f.write 0 (setDbp (f.page 0)
    { dbp (f.page 0) with nextFree := (dbp (f.page pageNo)).nextFree }) := ⟨_, rfl⟩
  have size : g.size = f.size := by rw [hg]; exact Int.max_eq_left (by omega)
  have fields : dbp (g.page 0) =
      { dbp (f.page 0) with nextFree := (dbp (f.page pageNo)).nextFree } := by
    rw [hg, write_page_self, PageImage.dbp_setDbp]
  have kept : ∀ other, other ≠ 0 → g.page other = f.page other := fun other apart => by
    rw [hg, write_page_of_ne _ _ apart]
  have after : g.Sound rest := by
    refine ⟨by rw [fields, size]; exact sound.count, by rw [size]; exact header, ?_, ?_, distinct⟩
    · rw [fields]
      refine sound.chain.2.2.congr (fun other member => kept other ?_)
      have := sound.range other (List.mem_cons_of_mem _ member)
      omega
    · rw [size]
      exact fun other member => sound.range other (List.mem_cons_of_mem _ member)
  rw [← hg]
  refine ⟨⟨rest, after⟩, ?_, fun other => ?_, fun other has => kept other ?_⟩
  · rw [sound.hasPage_iff]
    simp
  · rw [after.hasPage_iff, sound.hasPage_iff, size]
    by_cases same : other = pageNo
    · subst same
      simp [inside, outside]
    · simp [same]
  · have := has.1
    omega

theorem Sound.extend (sound : f.Sound []) (firstPage : Int) :
    f.Granted f.size ((f.write f.size PageImage.zero).write 0 (setDbp (f.page 0)
      { dbp (f.page 0) with numPages := f.size + 1, firstPage := firstPage })) := by
  have header := sound.header
  obtain ⟨g, hg⟩ : ∃ g, g = (f.write f.size PageImage.zero).write 0 (setDbp (f.page 0)
    { dbp (f.page 0) with numPages := f.size + 1, firstPage := firstPage }) := ⟨_, rfl⟩
  have size : g.size = f.size + 1 := by
    rw [hg]
    change max (max f.size (f.size + 1)) (0 + 1) = _
    omega
  have fields : dbp (g.page 0) =
      { dbp (f.page 0) with numPages := f.size + 1, firstPage := firstPage } := by
    rw [hg, write_page_self, PageImage.dbp_setDbp]
  have after : g.Sound [] := by
    refine ⟨by rw [fields, size], by omega, ?_, by simp, List.nodup_nil⟩
    rw [fields]
    exact sound.chain
  rw [← hg]
  refine ⟨⟨[], after⟩, ?_, fun other => ?_, fun other has => ?_⟩
  · rw [sound.hasPage_iff]
    simp
  · rw [after.hasPage_iff, sound.hasPage_iff, size]
    simp only [List.not_mem_nil, not_false_eq_true, and_true]
    omega
  · have inside := sound.hasPage_iff.mp has
    rw [hg, write_page_of_ne _ _ (by omega), write_page_of_ne _ _ (by omega)]

structure Freed (f : UnixFile P) (pageNo : Int) (g : UnixFile P) : Prop where
  size : g.size = f.size
  header : dbp (g.page 0) = { dbp (f.page 0) with nextFree := pageNo }
  next : (dbp (g.page pageNo)).nextFree = (dbp (f.page 0)).nextFree
  page : ∀ other, other ≠ 0 → other ≠ pageNo → g.page other = f.page other

theorem Freed.sound {g : UnixFile P} (freed : f.Freed pageNo g) (sound : f.Sound free)
    (has : f.HasPage pageNo) :
    g.Sound (pageNo :: free) := by
  obtain ⟨low, high, outside⟩ := sound.hasPage_iff.mp has
  refine ⟨?_, ?_, ?_, ?_, List.nodup_cons.mpr ⟨outside, sound.distinct⟩⟩
  · rw [freed.header, freed.size]
    exact sound.count
  · rw [freed.size]
    exact sound.header
  · rw [freed.header]
    refine ⟨rfl, by omega, ?_⟩
    rw [freed.next]
    refine sound.chain.congr
      (fun other member => freed.page other ?_ (fun same => outside (same ▸ member)))
    have := sound.range other member
    omega
  · rw [freed.size]
    exact List.forall_mem_cons.mpr ⟨⟨low, high⟩, sound.range⟩

theorem Freed.hasPage_iff {g : UnixFile P} (freed : f.Freed pageNo g) (sound : f.Sound free)
    (has : f.HasPage pageNo) (other : Int) : g.HasPage other ↔ f.HasPage other ∧
      other ≠ pageNo := by
  rw [(freed.sound sound has).hasPage_iff, sound.hasPage_iff, freed.size, List.mem_cons, not_or]
  tauto

/-- A list that reaches `pageNo` goes on there in any file with the same links before it. -/
theorem Chain.reaches {g : UnixFile P} {next : Int} {front back whole : List Int}
    (chain : f.Chain next (front ++ pageNo :: back))
    (same : ∀ other ∈ front, g.page other = f.page other) (chain' : g.Chain next whole) :
    ∃ rest, whole = front ++ rest ∧ g.Chain pageNo rest := by
  induction front generalizing next whole with
  | nil =>
    obtain ⟨rfl, _⟩ := chain
    exact ⟨whole, rfl, chain'⟩
  | cons first front ih =>
    obtain ⟨rfl, notEnd, chain⟩ := chain
    cases whole with
    | nil => exact absurd chain' notEnd
    | cons second whole =>
      obtain ⟨rfl, _, chain'⟩ := chain'
      obtain ⟨sameFirst, sameRest⟩ := List.forall_mem_cons.mp same
      rw [sameFirst] at chain'
      obtain ⟨rest, rfl, goesOn⟩ := ih chain sameRest chain'
      exact ⟨rest, rfl, goesOn⟩

/-- A page that was free already closes a cycle: the list no longer ends. -/
theorem Freed.endless {g : UnixFile P} (freed : f.Freed pageNo g) (sound : f.Sound free)
    (member : pageNo ∈ free) (whole : List Int) : ¬ g.Chain (dbp (g.page 0)).nextFree whole := by
  intro chain
  rw [freed.header] at chain
  obtain ⟨front, back, rfl⟩ := List.append_of_mem member
  have distinct := sound.distinct
  rw [List.nodup_middle, List.nodup_cons, List.mem_append, not_or] at distinct
  cases whole with
  | nil =>
    have := sound.range pageNo member
    have ended : pageNo = -1 := chain
    omega
  | cons first rest =>
    obtain ⟨rfl, _, tail⟩ := id chain
    rw [freed.next] at tail
    obtain ⟨again, rfl, chain'⟩ := sound.chain.reaches (fun other listed => freed.page other (by
        have := sound.range other (by simp [listed])
        omega) (fun same => distinct.1.1 (same ▸ listed))) tail
    -- from `pageNo` the list would be a proper part of itself
    have lengths := congrArg List.length (chain.unique chain')
    simp only [List.length_cons, List.length_append] at lengths
    omega

theorem create_header : dbp ((create : UnixFile P).page 0) = ⟨-1, -1, 1⟩ := by simp [create]

theorem create_sound : (create : UnixFile P).Sound [] := by
  refine ⟨?_, Int.le_refl 1, ?_, by simp, List.nodup_nil⟩
  · rw [create_header]
    rfl
  · rw [create_header]
    rfl

end UnixFile

namespace Disk
variable {d : Disk P} {file : FilePtr} {pageNo : Int} {free : List Int}

theorem intread_noFault (inside : 0 ≤ pageNo ∧ pageNo < (d file).size) :
    d.intread file pageNo none = .ok ((d file).page pageNo) := if_pos inside

theorem intwrite_noFault (inside : 0 ≤ pageNo) (page : P) :
    d.intwrite file pageNo page none = (.ok, d.write file pageNo page) := if_neg (by omega)

/-- Only reads may fail. -/
structure Written (fault : Faults P) : Prop where
  header : fault .headerWrite = none
  extend : fault .extendWrite = none
  away : fault .awayWrite = none

omit [PageImage P] in
theorem Written.noFaults : Written (noFaults : Faults P) := ⟨rfl, rfl, rfl⟩

theorem writeHeader_written {fault : Faults P} (written : Written fault) (header : P) :
    d.writeHeader file header fault pageNo = (.ok pageNo, d.write file 0 header) := by
  simp only [writeHeader, written.header, intwrite_noFault (Int.le_refl 0)]

inductive Allocation (d : Disk P) (file : FilePtr) (fault : Faults P) :
    Except Status Int × Disk P → Prop
  | failed (read : fault .headerRead ≠ none ∨ fault .freeRead ≠ none) (status : Status) :
      Allocation d file fault (.error status, d)
  | granted {pageNo : Int} {g : UnixFile P} (granted : (d file).Granted pageNo g)
      (first : (dbp (g.page 0)).firstPage =
        if pageNo = (d file).size ∧ (dbp ((d file).page 0)).firstPage = -1 then pageNo
        else (dbp ((d file).page 0)).firstPage) :
      Allocation d file fault (.ok pageNo, update d file g)

theorem allocatePage_cases (sound : (d file).Sound free) {fault : Faults P}
    (written : Written fault) :
    Allocation d file fault (d.allocatePage file fault) := by
  have header := sound.header
  unfold allocatePage
  cases failed : fault .headerRead with
  | some junk => exact .failed (.inl (by simp [failed])) _
  | none =>
    rw [intread_noFault ⟨Int.le_refl 0, by omega⟩]
    cases free with
    | cons pageNo rest =>
      obtain ⟨next, notEnd, _⟩ := sound.chain
      have inside := sound.range pageNo List.mem_cons_self
      simp only [next, ne_eq, notEnd, not_false_eq_true, if_true]
      cases failed' : fault .freeRead with
      | some junk => exact .failed (.inr (by simp [failed'])) _
      | none =>
        rw [intread_noFault ⟨by omega, inside.2⟩]
        simp only [writeHeader_written written]
        refine .granted sound.pop ?_
        rw [if_neg (by omega), UnixFile.write_page_self, PageImage.dbp_setDbp]
    | nil =>
      have ended : (dbp ((d file).page 0)).nextFree = -1 := sound.chain
      simp only [ended, ne_eq, not_true_eq_false, if_false, written.extend, sound.count,
        intwrite_noFault (show 0 ≤ (d file).size by omega), writeHeader_written written]
      obtain ⟨firstPage, first⟩ : ∃ n, n = if (dbp ((d file).page 0)).firstPage = -1 then (d file).size
        else (dbp ((d file).page 0)).firstPage := ⟨_, rfl⟩
      have granted : Allocation d file fault _ := .granted (sound.extend firstPage) (by
        rw [UnixFile.write_page_self, PageImage.dbp_setDbp]
        simp only [true_and, first])
      simpa only [Disk.write, update_self, update_idem, ended, first] using granted

/-- The page returned, whichever transfers fail. -/
theorem allocatePage_page {fault : Faults P} {e : Disk P}
    (allocated : d.allocatePage file fault = (.ok pageNo, e)) :
    pageNo = if (dbp ((d file).page 0)).nextFree ≠ -1 then (dbp ((d file).page 0)).nextFree
      else (dbp ((d file).page 0)).numPages := by
  have handed : ∀ {c : Disk P} {header n}, c.writeHeader file header fault n = (.ok pageNo, e) →
      pageNo = n := by
    intro c header n run
    unfold writeHeader at run
    split at run <;> cases run
    rfl
  unfold allocatePage at allocated
  split at allocated
  · cases allocated
  next header read =>
    obtain rfl := intread_ok read
    simp only at allocated
    split at allocated
    next listed =>
      rw [if_pos listed]
      split at allocated
      · cases allocated
      · exact handed allocated
    next empty =>
      rw [if_neg empty]
      split at allocated
      · exact handed allocated
      · cases allocated

/-- On a sound file and a disk that does not fail, a page is always found. -/
theorem allocatePage_spec (sound : (d file).Sound free) :
    ∃ pageNo g, d.allocatePage file noFaults = (.ok pageNo, update d file g) ∧
      (d file).Granted pageNo g := by
  have outcome := allocatePage_cases sound Written.noFaults
  generalize d.allocatePage file noFaults = result at outcome
  cases outcome with
  | failed read status => simp [noFaults] at read
  | granted granted first => exact ⟨_, _, rfl, granted⟩

/-- A file from which no page was given back grows by one page. -/
theorem allocatePage_extend (sound : (d file).Sound []) :
    ∃ g, d.allocatePage file noFaults = (.ok (d file).size, update d file g) ∧
      dbp (g.page 0) = ⟨-1, if (dbp ((d file).page 0)).firstPage = -1 then (d file).size
        else (dbp ((d file).page 0)).firstPage, (d file).size + 1⟩ := by
  have header := sound.header
  have ended : (dbp ((d file).page 0)).nextFree = -1 := sound.chain
  have read : (noFaults : Faults P) .headerRead = none := rfl
  unfold allocatePage
  rw [read, intread_noFault ⟨Int.le_refl 0, by omega⟩]
  simp only [ended, ne_eq, not_true_eq_false, if_false, Written.noFaults.extend, sound.count,
    intwrite_noFault (show 0 ≤ (d file).size by omega), writeHeader_written Written.noFaults]
  refine ⟨_, by rw [Disk.write, Disk.write, update_self, update_idem], ?_⟩
  rw [UnixFile.write_page_self, PageImage.dbp_setDbp]

inductive Disposal (d : Disk P) (file : FilePtr) (fault : Faults P) (pageNo : Int) :
    Status × Disk P → Prop
  | refused {status : Status} (bad : status ≠ .ok)
      (reason : fault .headerRead ≠ none ∨ fault .awayRead ≠ none ∨
        (1 ≤ pageNo → pageNo < (d file).size → (dbp ((d file).page 0)).firstPage = pageNo)) :
      Disposal d file fault pageNo (status, d)
  | freed {g : UnixFile P} (low : 1 ≤ pageNo) (high : pageNo < (d file).size)
      (notFirst : (dbp ((d file).page 0)).firstPage ≠ pageNo) (freed : (d file).Freed pageNo g) :
      Disposal d file fault pageNo (.ok, update d file g)

theorem disposePage_cases (sound : (d file).Sound free) {fault : Faults P} (written : Written fault)
    (pageNo : Int) : Disposal d file fault pageNo (d.disposePage file pageNo fault) := by
  have header := sound.header
  unfold disposePage
  split
  · exact .refused (by decide) (.inr (.inr (fun _ _ => by omega)))
  next low =>
    cases failed : fault .headerRead with
    | some junk => exact .refused (by decide : Status.unixErr ≠ .ok) (.inl (by simp [failed]))
    | none =>
      rw [intread_noFault ⟨Int.le_refl 0, by omega⟩]
      simp only
      split
      next outside =>
        rw [sound.count] at outside
        exact .refused (by decide) (.inr (.inr (fun _ _ => by omega)))
      next inside =>
        rw [sound.count, not_or] at inside
        cases failed' : fault .awayRead with
        | some junk =>
          exact .refused (by decide : Status.unixErr ≠ .ok) (.inr (.inl (by simp [failed'])))
        | none =>
          rw [intread_noFault ⟨by omega, by omega⟩]
          simp only [written.away, written.header, intwrite_noFault (show 0 ≤ pageNo by omega),
            intwrite_noFault (Int.le_refl 0), Disk.write, update_self, update_idem]
          refine .freed (by omega) (by omega) inside.1 ⟨?_, ?_, ?_, fun other apart apart' => ?_⟩
          · simp only [UnixFile.write]
            omega
          · rw [UnixFile.write_page_self, PageImage.dbp_setDbp]
          · rw [UnixFile.write_page_of_ne _ _ (by omega), UnixFile.write_page_self,
              PageImage.dbp_setDbp]
          · rw [UnixFile.write_page_of_ne _ _ apart, UnixFile.write_page_of_ne _ _ apart']

def twoPages : Disk DBPage := fun _ =>
  { size := 3
    page := fun pageNo => if pageNo = 0 then ⟨-1, 1, 3⟩ else PageImage.zero
    hole := fun _ behind => if_neg (by omega) }

theorem twoPages_sound (file : FilePtr) : (twoPages file).Sound [] :=
  ⟨rfl, (by decide : (1 : Int) ≤ 3), rfl, by simp, List.nodup_nil⟩

end Disk
end Minirel
