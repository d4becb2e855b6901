import Minirel.File.FreeList

/-! `allocatePage` and `disposePage` when any transfer may fail: what becomes of
the header, and of the page that was to be disposed of. -/
namespace Minirel
variable {P : Type} [PageImage P]

namespace UnixFile
variable {f g : UnixFile P} {free : List Int}

structure Intact (f g : UnixFile P) : Prop where
  numPages : (dbp (g.page 0)).numPages = (dbp (f.page 0)).numPages
  freeList : ∀ free, g.Chain (dbp (g.page 0)).nextFree free ↔ f.Chain (dbp (f.page 0)).nextFree free

theorem Chain.next_unique {next next' : Int} (chain : f.Chain next free)
    (chain' : g.Chain next' free) :
    next' = next := by
  cases free with
  | nil => exact Eq.trans chain' (Eq.symm chain)
  | cons => exact chain'.1.trans chain.1.symm

theorem Intact.nextFree (intact : f.Intact g) (sound : f.Sound free) :
    (dbp (g.page 0)).nextFree = (dbp (f.page 0)).nextFree :=
  sound.chain.next_unique ((intact.freeList free).mpr sound.chain)

/-- While the free pages are as they were, the two header fields decide. -/
theorem Sound.intact (sound : f.Sound free) (pages : ∀ pageNo ∈ free, g.page pageNo = f.page pageNo)
    (numPages : (dbp (g.page 0)).numPages = (dbp (f.page 0)).numPages)
    (nextFree : (dbp (g.page 0)).nextFree = (dbp (f.page 0)).nextFree) : f.Intact g := by
  have chain : g.Chain (dbp (g.page 0)).nextFree free := by
    rw [nextFree]
    exact sound.chain.congr pages
  refine ⟨numPages, fun other => ⟨fun other' => ?_, fun other' => ?_⟩⟩
  · rw [other'.unique chain]
    exact sound.chain
  · rw [other'.unique sound.chain]
    exact chain

theorem Sound.second_ne {pageNo : Int} {rest : List Int} (sound : f.Sound (pageNo :: rest)) :
    (dbp (f.page pageNo)).nextFree ≠ pageNo := by
  obtain ⟨_, notEnd, chain⟩ := sound.chain
  cases rest with
  | nil => exact fun same => notEnd (same.symm.trans chain)
  | cons second rest =>
    rw [chain.1]
    rintro rfl
    exact (List.nodup_cons.mp sound.distinct).1 List.mem_cons_self

def nextPage (f : UnixFile P) : Int :=
  if (dbp (f.page 0)).nextFree ≠ -1 then (dbp (f.page 0)).nextFree else (dbp (f.page 0)).numPages

/-- A transfer fails before the header is written: that of the header, of the
first free page, or of the page that extends the file. -/
def Refuses (f : UnixFile P) (fault : Faults P) : Prop :=
  fault .headerRead ≠ none ∨
    if (dbp (f.page 0)).nextFree ≠ -1 then fault .freeRead ≠ none else fault .extendWrite ≠ none

/-- Every transfer of an allocation succeeds and stays inside the file. -/
def Grants (f : UnixFile P) (fault : Faults P) : Prop :=
  ¬ f.Refuses fault ∧ fault .headerWrite = none ∧ 0 < f.size ∧
    if (dbp (f.page 0)).nextFree ≠ -1 then
      0 ≤ (dbp (f.page 0)).nextFree ∧ (dbp (f.page 0)).nextFree < f.size
    else 0 ≤ (dbp (f.page 0)).numPages

def leftover (f : UnixFile P) (pageNo : Int) (fault : Faults P) : Option P :=
  if pageNo < 1 ∨ (fault .headerRead).isSome ∨ (dbp (f.page 0)).firstPage = pageNo ∨
      (dbp (f.page 0)).numPages ≤ pageNo ∨ (fault .awayRead).isSome then some (f.page pageNo)
  else
    match fault .awayWrite, fault .headerWrite with
    | some torn, _ => some torn
    | none, some _ =>
      some (setDbp PageImage.zero { dbp (PageImage.zero : P) with nextFree :=
        (dbp (f.page 0)).nextFree })
    | none, none => none

end UnixFile

namespace Disk
variable {d : Disk P} {file : FilePtr} {free : List Int}

inductive Attempt (d : Disk P) (file : FilePtr) (free : List Int) (fault : Faults P) :
    Except Status Int × Disk P → Prop
  | refused (status : Status) (e : Disk P) (refuses : (d file).Refuses fault)
      (intact : (d file).Intact (e file)) :
      Attempt d file free fault (.error status, e)
  | torn (status : Status) (e : Disk P) (torn : P) (accepts : ¬ (d file).Refuses fault)
      (fails : fault .headerWrite = some torn) (header : (e file).page 0 = torn)
      (pages : ∀ pageNo ∈ free, (e file).page pageNo = (d file).page pageNo) :
      Attempt d file free fault (.error status, e)
  | granted (e : Disk P) (accepts : ¬ (d file).Refuses fault) (written : fault .headerWrite = none)
      (changed : (dbp ((e file).page 0)).numPages ≠ (dbp ((d file).page 0)).numPages ∨
        (dbp ((e file).page 0)).nextFree ≠ (dbp ((d file).page 0)).nextFree) :
      Attempt d file free fault (.ok (d file).nextPage, e)

theorem writeHeader_attempt {c : Disk P} {header : P} {fault : Faults P} {n : Int}
    (sound : (d file).Sound free) (accepts : ¬ (d file).Refuses fault)
    (next : (d file).nextPage = n)
    (pages : ∀ pageNo ∈ free, (c file).page pageNo = (d file).page pageNo)
    (changed : (dbp header).numPages ≠ (dbp ((d file).page 0)).numPages ∨
      (dbp header).nextFree ≠ (dbp ((d file).page 0)).nextFree) :
    Attempt d file free fault (c.writeHeader file header fault n) := by
  subst next
  unfold writeHeader intwrite
  rw [if_neg (by omega)]
  cases fails : fault .headerWrite with
  | none => exact .granted _ accepts fails (by simpa using changed)
  | some torn =>
    refine .torn _ _ torn accepts fails (by simp) fun pageNo member => ?_
    have positive := (sound.range pageNo member).1
    rw [write_page_of_ne _ _ (by simp; omega)]
    exact pages pageNo member

theorem allocatePage_attempt (sound : (d file).Sound free) (fault : Faults P) :
    Attempt d file free fault (d.allocatePage file fault) := by
  have header := sound.header
  have same : (d file).Intact (d file) := ⟨rfl, fun _ => Iff.rfl⟩
  unfold allocatePage
  cases headerRead : fault .headerRead with
  | some junk => exact .refused _ _ (.inl (by simp [headerRead])) same
  | none =>
    rw [intread_noFault ⟨Int.le_refl 0, by omega⟩]
    simp only
    split
    next listed =>
      have refuses : (d file).Refuses fault ↔ fault .freeRead ≠ none := by
        simp [UnixFile.Refuses, headerRead, listed]
      have next : (d file).nextPage = (dbp ((d file).page 0)).nextFree := if_pos listed
      cases freeRead : fault .freeRead with
      | some junk => exact .refused _ _ (refuses.mpr (by simp [freeRead])) same
      | none =>
        cases free with
        | nil => exact absurd sound.chain listed
        | cons pageNo rest =>
          obtain ⟨rfl, _, chain⟩ := sound.chain
          have inside := sound.range _ List.mem_cons_self
          rw [intread_noFault ⟨by omega, inside.2⟩]
          refine writeHeader_attempt sound (fun h => refuses.mp h freeRead) next (fun _ _ => rfl)
            (.inr ?_)
          simpa using sound.second_ne
    next unlisted =>
      rw [not_not] at unlisted
      have refuses : (d file).Refuses fault ↔ fault .extendWrite ≠ none := by
        simp [UnixFile.Refuses, headerRead, unlisted]
      have next : (d file).nextPage = (d file).size := (if_neg (not_not.mpr unlisted)).trans sound.count
      obtain rfl : free = [] := sound.chain.unique unlisted
      rw [sound.count]
      unfold intwrite
      rw [if_neg (by omega)]
      cases extend : fault .extendWrite with
      | some torn =>
        have kept : ((d.write file (d file).size torn) file).page 0 = (d file).page 0 :=
          write_page_of_ne _ _ (by simp; omega)
        exact .refused _ _ (refuses.mpr (by simp [extend]))
          (sound.intact (by simp) (by rw [kept]) (by rw [kept]))
      | none =>
        refine writeHeader_attempt sound (fun h => refuses.mp h extend) next (by simp) (.inl ?_)
        rw [PageImage.dbp_setDbp, sound.count]
        simp only
        omega

theorem writeHeader_status (d : Disk P) (file : FilePtr) (header : P) (fault : Faults P) (n : Int) :
    fault .headerWrite = none ∧ (d.writeHeader file header fault n).1 = .ok n ∨
      fault .headerWrite ≠ none ∧ ∃ status, (d.writeHeader file header fault n).1 =
        .error status := by
  unfold writeHeader intwrite
  rw [if_neg (by omega)]
  cases fault .headerWrite with
  | none => exact .inl ⟨rfl, rfl⟩
  | some torn => exact .inr ⟨by simp, _, rfl⟩

/-- On any file: what decides whether a page is handed out, and which. -/
theorem allocatePage_status (d : Disk P) (file : FilePtr) (fault : Faults P) :
    (d file).Grants fault ∧ (d.allocatePage file fault).1 = .ok (d file).nextPage ∨
      ¬ (d file).Grants fault ∧ ∃ status, (d.allocatePage file fault).1 = .error status := by
  unfold allocatePage UnixFile.Grants UnixFile.Refuses UnixFile.nextPage intread
  cases fault .headerRead with
  | some junk => exact .inr ⟨by simp, _, rfl⟩
  | none =>
    by_cases header : 0 < (d file).size
    · simp only [header, Int.le_refl, and_self, if_true]
      by_cases listed : (dbp ((d file).page 0)).nextFree ≠ -1
      · simp only [if_pos listed]
        cases fault .freeRead with
        | some junk => exact .inr ⟨by simp, _, rfl⟩
        | none =>
          by_cases inside : 0 ≤ (dbp ((d file).page 0)).nextFree ∧
            (dbp ((d file).page 0)).nextFree < (d file).size
          · simp only [if_pos inside]
            exact (writeHeader_status ..).imp (fun h => ⟨by simp [h.1, inside], h.2⟩) fun h =>
              ⟨by simp [h.1], h.2⟩
          · simp only [if_neg inside]
            exact .inr ⟨by simp [inside], _, rfl⟩
      · simp only [if_neg listed, intwrite]
        by_cases low : (dbp ((d file).page 0)).numPages < 0
        · simp only [if_pos low]
          exact .inr ⟨by simp [low], _, rfl⟩
        · simp only [if_neg low]
          cases fault .extendWrite with
          | some torn => exact .inr ⟨by simp, _, rfl⟩
          | none =>
            exact (writeHeader_status ..).imp (fun h => ⟨by simp [h.1]; omega, h.2⟩) fun h =>
              ⟨by simp [h.1], h.2⟩
    · simp only [header, and_false, if_false]
      exact .inr ⟨by simp, _, rfl⟩

theorem write_size (page : P) {pageNo : Int} (inside : pageNo < (d file).size) :
    (d.write file pageNo page file).size = (d file).size := by
  simp only [write, Function.update_self, UnixFile.write]
  omega

theorem readPage_sound {pageNo : Int} {fault : Option P} {page : P}
    (read : d.readPage file pageNo fault = .ok page) :
    fault = none := by
  unfold readPage intread at read
  split at read
  · cases read
  · cases fault with
    | some junk => cases read
    | none => rfl

theorem readPage_inside {pageNo : Int} {fault : Option P} {page : P}
    (read : d.readPage file pageNo fault = .ok page) :
    1 ≤ pageNo ∧ pageNo < (d file).size := by
  cases readPage_sound read
  unfold readPage intread at read
  split at read
  · cases read
  · simp only at read
    split at read
    · omega
    · cases read

/-- A disposal succeeds or leaves behind what `leftover` says, in a file of the
same size. -/
theorem disposePage_leftover (sound : (d file).Sound free) (pageNo : Int) (fault : Faults P) :
    (d file).leftover pageNo fault = none ∧ (d.disposePage file pageNo fault).1 = .ok ∨
    (d.disposePage file pageNo fault).1 ≠ .ok ∧ ((d.disposePage file pageNo fault).2 file).size =
      (d file).size ∧ (d file).leftover pageNo fault =
        some (((d.disposePage file pageNo fault).2 file).page pageNo) := by
  have header := sound.header
  have early (refused : pageNo < 1 ∨ (fault .headerRead).isSome ∨
    (dbp ((d file).page 0)).firstPage = pageNo ∨
      (dbp ((d file).page 0)).numPages ≤ pageNo ∨ (fault .awayRead).isSome) :
      (d file).leftover pageNo fault = some ((d file).page pageNo) := if_pos refused
  unfold disposePage
  by_cases low : pageNo < 1
  · rw [if_pos low]
    exact .inr ⟨by simp, rfl, early (.inl low)⟩
  rw [if_neg low]
  cases headerRead : fault .headerRead with
  | some junk => exact .inr ⟨by simp [intread], rfl, early (by simp [headerRead])⟩
  | none =>
    rw [intread_noFault ⟨Int.le_refl 0, by omega⟩]
    simp only
    by_cases outside : (dbp ((d file).page 0)).firstPage = pageNo ∨
      pageNo ≥ (dbp ((d file).page 0)).numPages
    · rw [if_pos outside]
      exact .inr ⟨by simp, rfl, early (by tauto)⟩
    rw [if_neg outside]
    rw [not_or, sound.count] at outside
    cases awayRead : fault .awayRead with
    | some junk => exact .inr ⟨by simp [intread], rfl, early (by simp [awayRead])⟩
    | none =>
      rw [intread_noFault ⟨by omega, by omega⟩]
      have late : (d file).leftover pageNo fault = _ :=
        if_neg (by simp [low, headerRead, awayRead, outside, sound.count])
      have inside : pageNo < (d file).size := by omega
      unfold intwrite
      simp only [show ¬ pageNo < 0 by omega, if_false]
      cases awayWrite : fault .awayWrite with
      | some torn =>
        simp only [awayWrite] at late
        exact .inr ⟨by simp, write_size torn inside, by rw [late, write_page_self]⟩
      | none =>
        cases headerWrite : fault .headerWrite with
        | none => exact .inl ⟨by rw [late, awayWrite, headerWrite], rfl⟩
        | some torn =>
          simp only [awayWrite, headerWrite] at late
          simp only [Int.lt_irrefl, if_false]
          refine .inr ⟨by simp, ?_, ?_⟩
          · rw [write_size _ (by rw [write_size _ inside]; omega), write_size _ inside]
          · rw [late, write_page_of_ne _ _ (by simp; omega), write_page_self]

theorem writePage_cases (d : Disk P) (file : FilePtr) (pageNo : Int) (page : P) (fault : Option P) :
    (1 ≤ pageNo ∧ fault = none ∧
      d.writePage file pageNo page fault = (.ok, d.write file pageNo page)) ∨
      (¬ (1 ≤ pageNo ∧ fault = none) ∧ (d.writePage file pageNo page fault).1 ≠ .ok) := by
  unfold writePage intwrite
  split
  · exact .inr ⟨by omega, by simp⟩
  · rw [if_neg (by omega)]
    cases fault with
    | none => exact .inl ⟨by omega, rfl, rfl⟩
    | some torn => exact .inr ⟨by simp, by simp⟩

/-! Which pages the two calls leave alone. -/

section untouched
variable {pageNo : Int} {k : FilePtr × Int}

theorem intwrite_page (d : Disk P) (page : P) (torn : Option P) (apart : k ≠ (file, pageNo)) :
    ((d.intwrite file pageNo page torn).2 k.1).page k.2 = (d k.1).page k.2 := by
  unfold intwrite
  split
  · rfl
  · cases torn with
    | none => exact write_page_of_ne _ _ apart
    | some torn => exact write_page_of_ne _ _ apart

theorem writePage_page (d : Disk P) (page : P) (torn : Option P)
    (apart : 1 ≤ pageNo → k ≠ (file, pageNo)) :
    ((d.writePage file pageNo page torn).2 k.1).page k.2 = (d k.1).page k.2 := by
  unfold writePage
  split
  · rfl
  · exact intwrite_page d page torn (apart (by omega))

theorem writeHeader_page (d : Disk P) (header : P) (fault : Faults P) (n : Int)
    (apart : k ≠ (file, 0)) :
    ((d.writeHeader file header fault n).2 k.1).page k.2 = (d k.1).page k.2 := by
  have kept := intwrite_page d header (fault .headerWrite) apart
  unfold writeHeader
  split
  next run => rwa [run] at kept
  next run => rwa [run] at kept

theorem allocatePage_untouched (d : Disk P) (fault : Faults P) (header : k ≠ (file, 0))
    (behind : (dbp ((d file).page 0)).nextFree = -1 →
      k ≠ (file, (dbp ((d file).page 0)).numPages)) :
    ((d.allocatePage file fault).2 k.1).page k.2 = (d k.1).page k.2 := by
  unfold allocatePage
  split
  · rfl
  next fields read =>
    rw [intread_ok read]
    simp only
    split
    · split
      · rfl
      · exact writeHeader_page d _ fault _ header
    next unlisted =>
      have kept := intwrite_page d PageImage.zero (fault .extendWrite) (behind (not_not.mp unlisted))
      split
      next run =>
        rw [run] at kept
        exact (writeHeader_page _ _ fault _ header).trans kept
      next run => rwa [run] at kept

theorem disposePage_untouched (d : Disk P) (fault : Faults P) (header : k ≠ (file, 0))
    (apart : k ≠ (file, pageNo)) :
    ((d.disposePage file pageNo fault).2 k.1).page k.2 = (d k.1).page k.2 := by
  unfold disposePage
  split
  · rfl
  · split
    · rfl
    · simp only
      split
      · rfl
      · split
        · rfl
        · split
          next e run =>
            have kept := congrArg (fun r => (r.2 k.1).page k.2) run
            rw [intwrite_page d _ _ apart] at kept
            exact (intwrite_page e _ _ header).trans kept.symm
          next run =>
            have kept := congrArg (fun r => (r.2 k.1).page k.2) run
            rw [intwrite_page d _ _ apart] at kept
            exact kept.symm

end untouched

end Disk
end Minirel
