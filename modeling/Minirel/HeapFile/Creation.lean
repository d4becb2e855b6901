import Minirel.HeapFile.Object
import Minirel.HeapFile.Pins

/-! Creation of a heap file when any call may fail: what a failed creation
leaves open. -/
namespace Minirel
open Program

/-- Which calls fail, by the number of calls made before, and what they report. -/
abbrev Failures := Nat → Option { status : Status // status ≠ .ok }

def noFailures : Failures := fun _ => none

/-- Flat storage whose calls may fail, with the pins taken on its pages. -/
structure Erratic where
  store : Flat
  pins : Pins
  calls : Nat

namespace Erratic
variable {failures : Failures} {s : Erratic} {name : Name}

/-- What a call that fails returns. Accesses through a pointer do not fail, and
`closeFile` ignores what goes wrong in `File::close`. -/
def failure : (c : StorageCall) → Status → Option c.Reply
  | .openFile _, status | .createFile _, status | .destroyFile _, status | .readPage _ _, status
  | .unPinPage _ _ _, status | .flushFile _, status => some status
  | .getFirstPage _, status | .allocPage _, status => some (.error status)
  | .closeFile _, _ | .load _ _, _ | .store _ _ _, _ => none

/-- A call that fails opens and pins nothing. -/
def handle (failures : Failures) : Handler StorageCall.Reply Erratic := fun c s =>
  match (failures s.calls).bind fun status => failure c status.1 with
  | some reply => some (reply, { s with calls := s.calls + 1 })
  | none => (Flat.handle c s.store).map fun r => (r.1, ⟨r.2, Pins.account c s.pins r.1, s.calls + 1⟩)

/-- Without failures the storage is flat, and the pins are counted along. -/
theorem run_noFailures (p : Prog α) (s : Erratic) :
    (run (handle noFailures) p s).map (fun r => (r.1, r.2.store, r.2.pins)) =
      run (traced Flat.handle Pins.account) p (s.store, s.pins) := by
  induction p generalizing s with
  | done | halt => rfl
  | call c k ih =>
    simp only [run, handle, noFailures, traced, Option.bind_none]
    cases Flat.handle c s.store with
    | none => rfl
    | some r => exact ih r.1 ⟨r.2, Pins.account c s.pins r.1, s.calls + 1⟩

theorem flat_of_run {p : Prog α} {value : α} {t : Erratic}
    (returned : run (handle noFailures) p s = some (value, t)) :
    run (traced Flat.handle Pins.account) p (s.store, s.pins) = some (value, t.store, t.pins) := by
  rw [← run_noFailures, returned]
  rfl

theorem exists_run_of_flat {p : Prog α} {value : α} {st : Flat} {pins : Pins}
    (returned : run (traced Flat.handle Pins.account) p (s.store, s.pins) =
      some (value, st, pins)) :
    ∃ calls, run (handle noFailures) p s = some (value, ⟨st, pins, calls⟩) := by
  rw [← run_noFailures] at returned
  obtain ⟨⟨_, t⟩, ran, same⟩ := Option.map_eq_some_iff.mp returned
  cases same
  exact ⟨t.calls, ran⟩

theorem run_failed {c : StorageCall} {status : { status : Status // status ≠ .ok }}
    {reply : c.Reply} (fault : failures s.calls = some status)
    (fails : failure c status.1 = some reply) :
    run (handle failures) (perform c) s = some (reply, { s with calls := s.calls + 1 }) := by
  simp [handle, fault, fails]

theorem run_sound {c : StorageCall} {reply : c.Reply} {t : Flat}
    (sound : failures s.calls = none ∨ ∀ status, failure c status = none)
    (flat : Flat.run (perform c) s.store = some (reply, t)) :
    run (handle failures) (perform c) s =
      some (reply, ⟨t, Pins.account c s.pins reply, s.calls + 1⟩) := by
  have unfailing : ((failures s.calls).bind fun status => failure c status.1) = none := by
    rcases sound with sound | sound
    · rw [sound]
      rfl
    · cases failures s.calls <;> simp [sound]
  rw [Flat.run, run_perform] at flat
  rw [run_perform, handle, unfailing, flat]
  rfl

theorem run_page {f : FlatFile} {page : Page} {n : Int} (there : s.store.files name = some f)
    (image : f.page n = .data page) :
    run (handle failures) (Storage.page name n) s =
      some (page, { s with calls := s.calls + 1 }) := by
  have unfailing : ((failures s.calls).bind fun status => failure (.load name n) status.1) = none := by
    cases failures s.calls <;> rfl
  simp [Storage.page, run, handle, unfailing, Flat.handle, there, image, Pins.account]

end Erratic

def fillHeapFile (fileName : Name) : Prog Status := do
  match ← Storage.allocPage fileName with
  | .error status => return status
  | .ok hdrPageNo =>
    match ← Storage.allocPage fileName with
    | .error status => return status
    | .ok newPageNo =>
      let newPage ← Storage.page fileName newPageNo
      Storage.setPage fileName newPageNo ((newPage.init newPageNo).setNextPage (-1))
      Storage.setHeader fileName hdrPageNo ⟨newPageNo, newPageNo, 1, 0⟩
      let status ← Storage.unPinPage fileName newPageNo true
      if status ≠ .ok then return status
      let status ← Storage.unPinPage fileName hdrPageNo true
      if status ≠ .ok then return status
      let status ← Storage.flushFile fileName
      if status ≠ .ok then return status
      Storage.closeFile fileName

theorem createHeapFile_eq (fileName : Name) : createHeapFile fileName = (do
    let status ← Storage.openFile fileName
    if status = .ok then return .fileExists
    let status ← Storage.createFile fileName
    if status ≠ .ok then return status
    let status ← Storage.openFile fileName
    if status ≠ .ok then return status
    fillHeapFile fileName) := rfl

namespace Erratic
variable {failures : Failures} {s : Erratic} {name : Name}

/-- No call of `fillHeapFile` fails: it allocates two pages, accesses them three
times, releases both and flushes the file. -/
def Fills (failures : Failures) (calls : Nat) : Prop := ∀ i ∈ [0, 1, 5, 6, 7],
    failures (calls + i) = none

theorem not_fills {calls i : Nat} {status : { status : Status // status ≠ .ok }}
    (call : i ∈ [0, 1, 5, 6, 7]) (fails : failures (calls + i) = some status) :
    ¬ Fills failures calls := fun fills => by
  rw [fills i call] at fails
  cases fails

section checked
variable {call rest : Prog Status} {t : Erratic}

theorem run_check_failed {status : Status}
    (returns : run (handle failures) call s = some (status, t)) (failed : status ≠ .ok) :
    run (handle failures) (call >>= fun status => if status ≠ .ok then pure status else rest) s =
      some (status, t) := by
  rw [run_bind_of _ _ returns, if_pos failed]
  rfl

theorem run_check_ok (returns : run (handle failures) call s = some (.ok, t)) :
    run (handle failures) (call >>= fun status => if status ≠ .ok then pure status else rest) s =
      run (handle failures) rest t := by
  rw [run_bind_of _ _ returns, if_neg (by simp)]

end checked

section calls
variable {f : FlatFile} {n : Int}

theorem run_allocPage (sound : failures s.calls = none) (there : s.store.files name = some f) :
    run (handle failures) (Storage.allocPage name) s =
      some (.ok f.numPages,
        ⟨s.store.put name (s.store.allocated f), s.pins + .one (name, f.numPages), s.calls + 1⟩) :=
  run_sound (.inl sound) (Flat.run_allocPage there)

theorem run_allocPage_failed {status : { status : Status // status ≠ .ok }}
    (fails : failures s.calls = some status) :
    run (handle failures) (Storage.allocPage name) s =
      some (.error status.1, { s with calls := s.calls + 1 }) :=
  run_failed fails rfl

theorem run_setPage (page : Page) (there : s.store.files name = some f) :
    run (handle failures) (Storage.setPage name n page) s =
      some ((), ⟨s.store.put name (f.set n (.data page)), s.pins, s.calls + 1⟩) :=
  run_sound (.inr fun _ => rfl) (Flat.run_setPage there)

theorem run_setHeader (fields : FileHdrPage) (there : s.store.files name = some f) :
    run (handle failures) (Storage.setHeader name n fields) s =
      some ((), ⟨s.store.put name (f.set n (.header fields)), s.pins, s.calls + 1⟩) :=
  run_sound (.inr fun _ => rfl) (Flat.run_setHeader there)

theorem run_unPinPage (dirty : Bool) (sound : failures s.calls = none) :
    run (handle failures) (Storage.unPinPage name n dirty) s =
      some (.ok, ⟨s.store, s.pins - .one (name, n), s.calls + 1⟩) :=
  run_sound (.inl sound) (Flat.run_unPinPage ..)

theorem run_flushFile (sound : failures s.calls = none) :
    run (handle failures) (Storage.flushFile name) s = some (.ok, ⟨s.store, s.pins, s.calls + 1⟩) :=
  run_sound (.inl sound) (Flat.run_flushFile ..)

theorem run_closeFile (isOpen : s.store.openCnt name ≠ 0) :
    run (handle failures) (Storage.closeFile name) s =
      some (.ok, ⟨s.store.closed name, s.pins, s.calls + 1⟩) :=
  run_sound (.inr fun _ => rfl) (Flat.run_closeFile isOpen)

end calls

/-- A file whose new pages cannot be written stays open. -/
theorem run_fillHeapFile (failures : Failures) {f : FlatFile} (there : s.store.files name = some f)
    (isOpen : s.store.openCnt name ≠ 0) :
    ∃ status t, run (handle failures) (fillHeapFile name) s = some (status, t) ∧
      (Fills failures s.calls ∧ status = .ok ∧ t.store.openCnt = (s.store.closed name).openCnt ∧
        t.pins = s.pins ∨ ¬ Fills failures s.calls ∧ status ≠ .ok ∧
          t.store.openCnt = s.store.openCnt) := by
  have known (g : FlatFile) : (s.store.put name g).files name = some g := Flat.files_put ..
  unfold fillHeapFile
  rcases hdrPage : failures s.calls with _ | status
  case some =>
    rw [run_bind_of _ _ (run_allocPage_failed hdrPage)]
    exact ⟨_, _, rfl, .inr ⟨not_fills (i := 0) (by simp) hdrPage, status.2, rfl⟩⟩
  rw [run_bind_of _ _ (run_allocPage hdrPage there)]
  simp only
  rcases newPage : failures (s.calls + 1) with _ | status
  case some =>
    rw [run_bind_of _ _ (run_allocPage_failed newPage)]
    exact ⟨_, _, rfl, .inr ⟨not_fills (by simp) newPage, status.2, rfl⟩⟩
  rw [run_bind_of _ _ (run_allocPage newPage (known _))]
  simp only [Flat.put_put]
  rw [run_bind_of _ _ (run_page (known _) (Function.update_self ..)),
    run_bind_of _ _ (run_setPage _ (known _)), Flat.put_put,
    run_bind_of _ _ (run_setHeader _ (known _))]
  simp only [Flat.put_put]
  rcases first : failures (s.calls + 5) with _ | status
  case some =>
    rw [run_check_failed (run_failed first rfl) status.2]
    exact ⟨_, _, rfl, .inr ⟨not_fills (by simp) first, status.2, rfl⟩⟩
  rw [run_check_ok (run_unPinPage _ first)]
  rcases second : failures (s.calls + 6) with _ | status
  case some =>
    rw [run_check_failed (run_failed second rfl) status.2]
    exact ⟨_, _, rfl, .inr ⟨not_fills (by simp) second, status.2, rfl⟩⟩
  rw [run_check_ok (run_unPinPage _ second)]
  rcases flush : failures (s.calls + 7) with _ | status
  case some =>
    rw [run_check_failed (run_failed flush rfl) status.2]
    exact ⟨_, _, rfl, .inr ⟨not_fills (by simp) flush, status.2, rfl⟩⟩
  rw [run_check_ok (run_flushFile flush), run_closeFile (by exact isOpen)]
  refine ⟨_, _, rfl, .inl ⟨?_, rfl, rfl, ?_⟩⟩
  · simp [Fills, hdrPage, newPage, first, second, flush]
  · simp

def Creates (s : Flat) (name : Name) : Prop :=
  name ≠ [] ∧ s.files name = none ∧ s.openCnt name = 0 ∧ s.creatable name = true

/-- A creation that returns an error leaves every open count and every pin as it
was, and is not the reason why the file could not be destroyed. -/
def Atomic (failures : Failures) (s : Erratic) (name : Name) : Prop :=
  ∃ status t, run (handle failures) (createHeapFile name) s = some (status, t) ∧
    (status ≠ .ok → t.store.openCnt = s.store.openCnt ∧ t.pins = s.pins ∧
      ∀ u, Flat.run (destroyHeapFile name) t.store = some (.fileOpen, u) → 0 < s.store.openCnt name)

/-- The file cannot be opened at first, and it either is not created or not
opened afterwards, or is filled without a failure. -/
def Clean (failures : Failures) (s : Erratic) (name : Name) : Prop :=
  (failures s.calls = none → name = [] ∨ s.store.files name = none ∧ s.store.openCnt name = 0) ∧
  ((failures (s.calls + 1) = none → ¬ Creates s.store name) ∨ failures (s.calls + 2) ≠ none ∨
    Fills failures (s.calls + 3))

section outcome
variable {status : Status} {t u : Erratic}

theorem destroyHeapFile_open {st st' : Flat}
    (returned : Flat.run (destroyHeapFile name) st = some (.fileOpen, st')) :
    0 < st.openCnt name := by
  rw [destroyHeapFile, Flat.run, Storage.destroyFile, run_perform, Flat.handle] at returned
  split_ifs at returned with nameless isOpen absent
  · cases returned
  · exact isOpen
  · cases returned
  · cases returned

theorem atomic_of_same (returned : run (handle failures) (createHeapFile name) s = some (status, t))
    (openCnt : t.store.openCnt = s.store.openCnt) (pins : t.pins = s.pins) :
    Atomic failures s name :=
  ⟨status, t, returned, fun _ =>
    ⟨openCnt, pins, fun _ refused => openCnt ▸ destroyHeapFile_open refused⟩⟩

theorem atomic_of_ok (returned : run (handle failures) (createHeapFile name) s = some (.ok, t)) :
    Atomic failures s name := ⟨_, t, returned, fun failed => absurd rfl failed⟩

theorem not_atomic (returned : run (handle failures) (createHeapFile name) s = some (status, t))
    (failed : status ≠ .ok) (isOpen : t.store.openCnt = (s.store.opened name).openCnt) :
    ¬ Atomic failures s name := by
  rintro ⟨status', t', returned', same⟩
  cases Option.some.inj (returned.symm.trans returned')
  have unchanged := congrFun ((same failed).1.symm.trans isOpen) name
  rw [Flat.openCnt_opened] at unchanged
  omega

end outcome

/-- The probe, unless it fails, raises the open count of a file that is there. -/
theorem run_openFile_cases (failures : Failures) (s : Erratic) (name : Name) :
    ∃ status t, run (handle failures) (Storage.openFile name) s = some (status, t) ∧
      t.calls = s.calls + 1 ∧ t.pins = s.pins ∧
      (status = .ok ∧ t.store = s.store.opened name ∧ failures s.calls = none ∧ name ≠ [] ∧
          (0 < s.store.openCnt name ∨ s.store.files name ≠ none) ∨
        status ≠ .ok ∧ t.store = s.store ∧
          (failures s.calls = none → name = [] ∨ s.store.files name = none ∧
            s.store.openCnt name = 0)) := by
  rcases sound : failures s.calls with _ | status
  case some => exact ⟨_, _, run_failed sound rfl, rfl, rfl, .inr ⟨status.2, rfl, nofun⟩⟩
  by_cases nameless : name = []
  · subst nameless
    exact ⟨_, _, run_sound (.inl sound) (Flat.run_openFile_nameless _), rfl, rfl,
      .inr ⟨by simp, rfl, fun _ => .inl rfl⟩⟩
  by_cases known : 0 < s.store.openCnt name ∨ s.store.files name ≠ none
  · exact ⟨_, _, run_sound (.inl sound) (Flat.run_openFile_known known nameless), rfl, rfl,
      .inl ⟨rfl, rfl, rfl, nameless, known⟩⟩
  · obtain ⟨unopened, absent⟩ := not_or.mp known
    replace unopened : s.store.openCnt name = 0 := by omega
    replace absent := not_not.mp absent
    exact ⟨_, _, run_sound (.inl sound) (Flat.run_openFile_absent absent unopened nameless), rfl, rfl,
      .inr ⟨by simp, rfl, fun _ => .inr ⟨absent, unopened⟩⟩⟩

theorem run_createFile_cases (failures : Failures) (s : Erratic) (name : Name) :
    ∃ status t, run (handle failures) (Storage.createFile name) s = some (status, t) ∧
      t.calls = s.calls + 1 ∧ t.pins = s.pins ∧
      (status = .ok ∧ t.store = s.store.put name s.store.emptyFile ∧ failures s.calls = none ∧
        Creates s.store name ∨ status ≠ .ok ∧ t.store = s.store ∧
          (failures s.calls = none → ¬ Creates s.store name)) := by
  rcases sound : failures s.calls with _ | status
  case some => exact ⟨_, _, run_failed sound rfl, rfl, rfl, .inr ⟨status.2, rfl, nofun⟩⟩
  by_cases creates : Creates s.store name
  · obtain ⟨named, absent, unopened, creatable⟩ := creates
    exact ⟨_, _, run_sound (.inl sound) (Flat.run_createFile absent unopened named creatable), rfl, rfl,
      .inl ⟨rfl, rfl, rfl, named, absent, unopened, creatable⟩⟩
  · have refused : ∃ status, Flat.run (Storage.createFile name) s.store = some (status, s.store) ∧
        status ≠ .ok := by
      rw [Flat.run, Storage.createFile, run_perform, Flat.handle]
      split_ifs with nameless known creatable
      · exact ⟨_, rfl, by simp⟩
      · exact ⟨_, rfl, by simp⟩
      · obtain ⟨unopened, absent⟩ := not_or.mp known
        exact absurd ⟨nameless, not_not.mp absent, by omega, creatable⟩ creates
      · exact ⟨_, rfl, by simp⟩
    obtain ⟨status, flat, failed⟩ := refused
    exact ⟨_, _, run_sound (.inl sound) flat, rfl, rfl, .inr ⟨failed, rfl, fun _ => creates⟩⟩

/-- Creation is atomic exactly when nothing fails while the new file is open. -/
theorem atomic_iff_clean (failures : Failures) (s : Erratic) (name : Name) :
    Atomic failures s name ↔ Clean failures s name := by
  obtain ⟨status, t, probe, calls, pins, probed⟩ := run_openFile_cases failures s name
  rcases probed with ⟨rfl, opened, sound, named, known⟩ | ⟨failed, store, unknown⟩
  · -- the file exists: the count taken by the probe stays
    have returned : run (handle failures) (createHeapFile name) s = some (.fileExists, t) := by
      rw [createHeapFile_eq, run_bind_of _ _ probe]
      rfl
    refine iff_of_false (not_atomic returned (by simp) (by rw [opened])) fun clean => ?_
    rcases clean.1 sound with nameless | ⟨absent, unopened⟩
    · exact named nameless
    · rcases known with isOpen | exists'
      · omega
      · exact exists' absent
  obtain ⟨status', t', create, calls', pins', created⟩ := run_createFile_cases failures t name
  rw [store, calls] at created
  have probed : run (handle failures) (createHeapFile name) s = run (handle failures)
      (Storage.createFile name >>= fun status => if status ≠ .ok then pure status else
        Storage.openFile name >>= fun status =>
          if status ≠ .ok then pure status else fillHeapFile name) t := by
    rw [createHeapFile_eq, run_bind_of _ _ probe, if_neg failed]
  rcases created with ⟨rfl, created, sound, creates⟩ | ⟨failed', store', uncreated⟩
  case inr =>
    have returned := probed.trans (run_check_failed create failed')
    exact iff_of_true (atomic_of_same returned (by rw [store']) (pins'.trans pins))
      ⟨unknown, .inl uncreated⟩
  replace probed := probed.trans (run_check_ok create)
  obtain ⟨status, t₂, reopen, calls₂, pins₂, reopened⟩ := run_openFile_cases failures t' name
  rw [calls', calls] at reopened
  rcases reopened with ⟨rfl, opened, sound₂, -, -⟩ | ⟨failed₂, store₂, unknown₂⟩
  case inr =>
    have returned := probed.trans (run_check_failed reopen failed₂)
    have fails : failures (s.calls + 2) ≠ none := fun sound₂ => by
      rcases unknown₂ sound₂ with nameless | ⟨absent, -⟩
      · exact creates.1 nameless
      · simp [created] at absent
    exact iff_of_true (atomic_of_same returned (by rw [store₂, created]; rfl)
      (pins₂.trans (pins'.trans pins)))
      ⟨unknown, .inr (.inl fails)⟩
  have there : t₂.store.files name = some s.store.emptyFile := by rw [opened, created]; simp
  have isOpen : t₂.store.openCnt = (s.store.opened name).openCnt := by rw [opened, created]; rfl
  obtain ⟨status, t₃, fill, filled⟩ := run_fillHeapFile failures there (by simp [isOpen])
  have returned := probed.trans ((run_check_ok reopen).trans fill)
  rw [calls₂, calls', calls] at filled
  rcases filled with ⟨fills, rfl, -, -⟩ | ⟨unfilled, failed₃, same⟩
  · exact iff_of_true (atomic_of_ok returned) ⟨unknown, .inr (.inr fills)⟩
  · refine iff_of_false (not_atomic returned failed₃ (same.trans isOpen)) fun clean => ?_
    rcases clean.2 with uncreated | fails | fills
    · exact uncreated sound creates
    · exact fails sound₂
    · exact unfilled fills

/-- The second creation of a file is refused and leaves the file open, so that it
cannot be destroyed. A creation that finds no frame for the data page leaves the
header page pinned. -/
theorem refused_creation_opens :
    (∃ t u, Flat.run (createHeapFile [97]) .empty = some (.ok, t) ∧ t.openCnt [97] = 0 ∧
      Flat.run (createHeapFile [97]) t = some (.fileExists, u) ∧ u.openCnt [97] = 1 ∧
      Flat.run (destroyHeapFile [97]) u = some (.fileOpen, u) ∧
        ¬ Atomic (fun _ => none) ⟨t, 0, 0⟩ [97]) ∧
    ∃ t, run (handle fun k => if k = 4 then some ⟨.bufferExceeded, by decide⟩ else none)
      (createHeapFile [97]) ⟨.empty, 0, 0⟩ = some (.bufferExceeded, t) ∧ t.store.openCnt [97] = 1 ∧
        t.pins ([97], 1) = 1 :=
  ⟨⟨_, _, rfl, rfl, rfl, rfl, rfl, not_atomic rfl (by decide) rfl⟩, _, rfl, rfl, rfl⟩

end Erratic
end Minirel
