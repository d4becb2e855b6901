import Mathlib.Logic.Function.Basic
import Minirel.Storage

/-! Storage in which no call fails for want of frames or because of the disk: a
directory of files, each an array of page images, with open counts. Frames are
not modelled, so a page pointer sees the page itself. -/
namespace Minirel
open Function

structure FlatFile where
  firstPage : Int
  numPages : Int
  page : Int → Image

/-- `creatable` tells which names UNIX accepts for a new file; `scratch` is what
a newly allocated page holds. -/
structure Flat where
  files : Name → Option FlatFile
  openCnt : Name → Nat
  creatable : Name → Bool
  scratch : Page

namespace Flat

def empty : Flat := ⟨fun _ => none, fun _ => 0, fun _ => true,
    ⟨fun _ => 171, 5, 900, -3, 0, 17, 17⟩⟩

def put (s : Flat) (name : Name) (f : FlatFile) : Flat :=
  { s with files := update s.files name (some f) }

def opened (s : Flat) (name : Name) : Flat :=
  { s with openCnt := update s.openCnt name (s.openCnt name + 1) }

def closed (s : Flat) (name : Name) : Flat :=
  { s with openCnt := update s.openCnt name (s.openCnt name - 1) }

def emptyFile (s : Flat) : FlatFile := ⟨-1, 1, fun _ => .data s.scratch⟩

def allocated (s : Flat) (f : FlatFile) : FlatFile where
  firstPage := if f.firstPage = -1 then f.numPages else f.firstPage
  numPages := f.numPages + 1
  page := update f.page f.numPages (.data s.scratch)

end Flat

def FlatFile.set (f : FlatFile) (pageNo : Int) (image : Image) : FlatFile :=
  { f with page := update f.page pageNo image }

@[simp] theorem FlatFile.set_page_self (f : FlatFile) (pageNo : Int) (image : Image) :
    (f.set pageNo image).page pageNo = image := update_self ..

theorem FlatFile.set_page_of_ne (f : FlatFile) {pageNo other : Int} (image : Image)
    (apart : other ≠ pageNo) :
    (f.set pageNo image).page other = f.page other := update_of_ne apart ..

namespace Flat

/-- Calls through a pointer to a file that is not there have no meaning. -/
def handle : Program.Handler StorageCall.Reply Flat
  | .openFile name, s =>
    if name = [] then some (.badFile, s)
    else if 0 < s.openCnt name ∨ s.files name ≠ none then some (.ok, s.opened name)
    else some (.unixErr, s)
  | .closeFile file, s => if s.openCnt file = 0 then none else some (.ok, s.closed file)
  | .createFile name, s =>
    if name = [] then some (.badFile, s)
    else if 0 < s.openCnt name ∨ s.files name ≠ none then some (.fileExists, s)
    else if s.creatable name then some (.ok, s.put name s.emptyFile)
    else some (.unixErr, s)
  | .destroyFile name, s =>
    if name = [] then some (.badFile, s)
    else if 0 < s.openCnt name then some (.fileOpen, s)
    else if s.files name = none then some (.unixErr, s)
    else some (.ok, { s with files := update s.files name none })
  | .getFirstPage file, s => (s.files file).map fun f => (.ok f.firstPage, s)
  | .readPage file pageNo, s => (s.files file).map fun f =>
    (if pageNo < 1 then .badPageNo else if pageNo ≥ f.numPages then .unixErr else .ok, s)
  | .allocPage file, s => (s.files file).map fun f => (.ok f.numPages, s.put file (s.allocated f))
  | .unPinPage _ _ _, s => some (.ok, s)
  | .flushFile _, s => some (.ok, s)
  | .load file pageNo, s => (s.files file).map fun f => (f.page pageNo, s)
  | .store file pageNo image, s => (s.files file).map fun f => ((), s.put file (f.set pageNo image))

abbrev run (p : Prog α) (s : Flat) : Option (α × Flat) := Program.run handle p s

variable {s : Flat} {name other : Name} {f g : FlatFile} {pageNo : Int}

@[simp] theorem files_put (s : Flat) (name : Name) (f : FlatFile) :
    (s.put name f).files name = some f :=
  update_self ..

theorem files_put_of_ne (f : FlatFile) (apart : other ≠ name) :
    (s.put name f).files other = s.files other :=
  update_of_ne apart ..

@[simp] theorem put_put (s : Flat) (name : Name) (f g : FlatFile) :
    (s.put name f).put name g = s.put name g := by
  simp [put]

theorem put_comm (s : Flat) (apart : name ≠ other) :
    (s.put name f).put other g = (s.put other g).put name f := by
  simp only [put, update_comm apart.symm]

theorem put_self (there : s.files name = some f) : s.put name f = s := by
  unfold put
  rw [← there, update_eq_self]

@[simp] theorem openCnt_put (s : Flat) (name : Name) (f : FlatFile) :
    (s.put name f).openCnt = s.openCnt := rfl

@[simp] theorem scratch_put (s : Flat) (name : Name) (f : FlatFile) :
    (s.put name f).scratch = s.scratch := rfl

@[simp] theorem files_opened (s : Flat) (name : Name) : (s.opened name).files = s.files := rfl

@[simp] theorem opened_put (s : Flat) (name other : Name) (f : FlatFile) :
    (s.put name f).opened other = (s.opened other).put name f := rfl

@[simp] theorem closed_put (s : Flat) (name other : Name) (f : FlatFile) :
    (s.put name f).closed other = (s.closed other).put name f := rfl

@[simp] theorem closed_opened (s : Flat) (name : Name) : (s.opened name).closed name = s := by
  simp [closed, opened]

@[simp] theorem openCnt_opened (s : Flat) (name : Name) :
    (s.opened name).openCnt name = s.openCnt name + 1 := update_self ..

@[simp] theorem openCnt_closed (s : Flat) (name : Name) :
    (s.closed name).openCnt name = s.openCnt name - 1 := update_self ..

/-! What each call does to a file that is there. -/

section calls
variable {page : Page} {hdr : FileHdrPage}

theorem run_getFirstPage (there : s.files name = some f) :
    run (Storage.getFirstPage name) s = some (.ok f.firstPage, s) :=
  (Program.run_perform handle s (.getFirstPage name)).trans (by simp [handle, there])

theorem run_readPage (there : s.files name = some f) (low : 1 ≤ pageNo)
    (high : pageNo < f.numPages) :
    run (Storage.readPage name pageNo) s = some (.ok, s) :=
  (Program.run_perform handle s (.readPage name pageNo)).trans
    (by simp [handle, there, show ¬ pageNo < 1 by omega, show ¬ f.numPages ≤ pageNo by omega])

theorem run_allocPage (there : s.files name = some f) :
    run (Storage.allocPage name) s = some (.ok f.numPages, s.put name (s.allocated f)) :=
  (Program.run_perform handle s (.allocPage name)).trans (by simp [handle, there])

@[simp] theorem run_unPinPage (s : Flat) (name : Name) (pageNo : Int) (dirty : Bool) :
    run (Storage.unPinPage name pageNo dirty) s = some (.ok, s) := rfl

@[simp] theorem run_flushFile (s : Flat) (name : Name) :
    run (Storage.flushFile name) s = some (.ok, s) := rfl

theorem run_page (there : s.files name = some f) (image : f.page pageNo = .data page) :
    run (Storage.page name pageNo) s = some (page, s) := by
  simp [run, Storage.page, Program.run, handle, there, image]

theorem run_header (there : s.files name = some f) (image : f.page pageNo = .header hdr) :
    run (Storage.header name pageNo) s = some (hdr, s) := by
  simp [run, Storage.header, Program.run, handle, there, image]

theorem run_setPage (there : s.files name = some f) :
    run (Storage.setPage name pageNo page) s = some ((), s.put name (f.set pageNo (.data page))) :=
  (Program.run_perform handle s (.store name pageNo (.data page))).trans (by simp [handle, there])

theorem run_setHeader (there : s.files name = some f) :
    run (Storage.setHeader name pageNo hdr) s =
      some ((), s.put name (f.set pageNo (.header hdr))) :=
  (Program.run_perform handle s (.store name pageNo (.header hdr))).trans (by simp [handle, there])

theorem run_openFile_known (known : 0 < s.openCnt name ∨ s.files name ≠ none) (named : name ≠ []) :
    run (Storage.openFile name) s = some (.ok, s.opened name) :=
  (Program.run_perform handle s (.openFile name)).trans
    (by simp only [handle, named, known, if_false, if_true])

theorem run_openFile (there : s.files name = some f) (named : name ≠ []) :
    run (Storage.openFile name) s = some (.ok, s.opened name) :=
  run_openFile_known (Or.inr (by simp [there])) named

@[simp] theorem run_openFile_nameless (s : Flat) :
    run (Storage.openFile []) s = some (.badFile, s) := rfl

theorem run_openFile_absent (absent : s.files name = none) (unopened : s.openCnt name = 0)
    (named : name ≠ []) :
    run (Storage.openFile name) s = some (.unixErr, s) :=
  (Program.run_perform handle s (.openFile name)).trans (by simp [handle, absent, unopened, named])

theorem run_createFile (absent : s.files name = none) (unopened : s.openCnt name = 0)
    (named : name ≠ []) (creatable : s.creatable name = true) :
    run (Storage.createFile name) s = some (.ok, s.put name s.emptyFile) :=
  (Program.run_perform handle s (.createFile name)).trans
    (by simp [handle, absent, unopened, named, creatable])

@[simp] theorem run_createFile_nameless (s : Flat) :
    run (Storage.createFile []) s = some (.badFile, s) := rfl

theorem run_createFile_known (known : 0 < s.openCnt name ∨ s.files name ≠ none)
    (named : name ≠ []) :
    run (Storage.createFile name) s = some (.fileExists, s) :=
  (Program.run_perform handle s (.createFile name)).trans
    (by simp only [handle, named, known, if_false, if_true])

theorem run_createFile_refused (absent : s.files name = none) (unopened : s.openCnt name = 0)
    (named : name ≠ []) (refused : s.creatable name = false) :
    run (Storage.createFile name) s = some (.unixErr, s) :=
  (Program.run_perform handle s (.createFile name)).trans
    (by simp [handle, absent, unopened, named, refused])

theorem run_destroyFile_open (isOpen : 0 < s.openCnt name) (named : name ≠ []) :
    run (Storage.destroyFile name) s = some (.fileOpen, s) :=
  (Program.run_perform handle s (.destroyFile name)).trans
    (by simp only [handle, named, isOpen, if_false, if_true])

theorem run_destroyFile_absent (absent : s.files name = none) (unopened : s.openCnt name = 0)
    (named : name ≠ []) :
    run (Storage.destroyFile name) s = some (.unixErr, s) :=
  (Program.run_perform handle s (.destroyFile name)).trans (by simp [handle, absent, unopened, named])

theorem run_destroyFile (there : s.files name = some f) (unopened : s.openCnt name = 0)
    (named : name ≠ []) :
    run (Storage.destroyFile name) s = some (.ok, { s with files := update s.files name none }) :=
  (Program.run_perform handle s (.destroyFile name)).trans (by simp [handle, there, unopened, named])

theorem run_closeFile (isOpen : s.openCnt name ≠ 0) :
    run (Storage.closeFile name) s = some (.ok, s.closed name) :=
  (Program.run_perform handle s (.closeFile name)).trans (by simp [handle, isOpen])

/-! What a call that has a result tells about the file. -/

theorem run_allocPage_inv {reply : Except Status Int} {t : Flat}
    (returned : run (Storage.allocPage name) s = some (reply, t)) :
    ∃ f, s.files name = some f ∧ reply = .ok f.numPages ∧ t = s.put name (s.allocated f) := by
  rw [run, Storage.allocPage, Program.run_perform] at returned
  obtain ⟨f, there, same⟩ := Option.map_eq_some_iff.mp returned
  cases same
  exact ⟨f, there, rfl, rfl⟩

theorem run_readPage_inv {status : Status} {t : Flat}
    (returned : run (Storage.readPage name pageNo) s = some (status, t)) :
    (status = .ok ∨ status = .badPageNo ∨ status = .unixErr) ∧ t = s := by
  rw [run, Storage.readPage, Program.run_perform] at returned
  obtain ⟨f, there, same⟩ := Option.map_eq_some_iff.mp returned
  cases same
  refine ⟨?_, rfl⟩
  split
  · exact .inr (.inl rfl)
  · split
    · exact .inr (.inr rfl)
    · exact .inl rfl

theorem run_page_inv {t : Flat} (returned : run (Storage.page name pageNo) s = some (page, t)) :
    ∃ f, s.files name = some f ∧ f.page pageNo = .data page ∧ t = s := by
  simp only [run, Storage.page, Program.run, handle] at returned
  cases there : s.files name with
  | none => simp [there] at returned
  | some f =>
    simp only [there, Option.map_some] at returned
    cases image : f.page pageNo with
    | header fields => simp [image] at returned
    | data page' =>
      simp only [image, Program.run, Option.some.injEq, Prod.mk.injEq] at returned
      obtain ⟨rfl, rfl⟩ := returned
      exact ⟨f, rfl, image, rfl⟩

theorem run_header_inv {t : Flat} (returned : run (Storage.header name pageNo) s = some (hdr, t)) :
    ∃ f, s.files name = some f ∧ f.page pageNo = .header hdr ∧ t = s := by
  simp only [run, Storage.header, Program.run, handle] at returned
  cases there : s.files name with
  | none => simp [there] at returned
  | some f =>
    simp only [there, Option.map_some] at returned
    cases image : f.page pageNo with
    | data page => simp [image] at returned
    | header fields =>
      simp only [image, Program.run, Option.some.injEq, Prod.mk.injEq] at returned
      obtain ⟨rfl, rfl⟩ := returned
      exact ⟨f, rfl, image, rfl⟩

theorem run_store_inv {image : Image} {u : Unit} {t : Flat}
    (returned : run (Program.perform (StorageCall.store name pageNo image)) s = some (u, t)) :
    ∃ f, s.files name = some f ∧ t = s.put name (f.set pageNo image) := by
  rw [run, Program.run_perform] at returned
  obtain ⟨f, there, same⟩ := Option.map_eq_some_iff.mp returned
  cases same
  exact ⟨f, there, rfl⟩

end calls

end Flat
end Minirel
