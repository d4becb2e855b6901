import Mathlib.Data.Set.Finite.Basic
import Minirel.BufMgr.AllocBuf
import Minirel.DB

/-! The storage engine behind the interface of storage calls: the `DB` object
with its `File` objects and the buffer manager, over a directory of UNIX files.
Clients hold pointers to `File` objects and into frames, and nothing checks
that these are still good. -/
namespace Minirel
open Function

/-- A page of a file: the header page that `File` keeps for itself, or one that
clients use. -/
inductive Block
  | fields (header : DBPage)
  | image (image : Image)

def Page.blank : Page := ⟨fun _ => 0, 0, 0, 0, 0, 0, 0⟩

instance : PageImage Block where
  zero := .image (.data .blank)
  dbp
    | .fields header => header
    | .image _ => ⟨0, 0, 0⟩
  setDbp _ header := .fields header
  dbp_setDbp _ _ := rfl

/-- What is decided outside: which names UNIX accepts, where `new` puts an
object, and what the bytes of another kind of page are as a data page. -/
structure Host where
  creatable : Name → Bool
  address : (FilePtr → Option File) → FilePtr
  fresh : ∀ files, {file | files file ≠ none}.Finite → address files ≠ 0 ∧ files (address files) = none
  recast : Block → Page

def Host.asPage (host : Host) : Block → Page
  | .image (.data page) => page
  | block => host.recast block

/-- The UNIX files are in `directory` by their paths, while a file is open as it
was when it was opened: its pages are then those the buffer manager has on disk
for its object. `filePtrs` and `frames` are the pointers that clients got last
for a file and for a page. -/
structure Engine (bufs : Nat) where
  db : DB bufs Block
  directory : Name → Option (UnixFile Block)
  filePtrs : Name → FilePtr
  frames : Name × Int → Option (Fin bufs)

namespace Engine
variable {bufs : Nat}

def start (bufs : Nat) [NeZero bufs] (directory : Name → Option (UnixFile Block)) :
    Engine bufs where
  db := ⟨.empty, fun _ => none, .new bufs fun _ => .create⟩
  directory := directory
  filePtrs := fun _ => 0
  frames := fun _ => none

def withMgr (e : Engine bufs) (m : BufMgr bufs Block) : Engine bufs :=
  { e with db := { e.db with bufMgr := m } }

def paths (e : Engine bufs) : Paths := fun path => (e.directory path).isSome

def follow (e : Engine bufs) (paths : Paths) : Engine bufs :=
  { e with directory := fun path => if paths path then some ((e.directory path).getD .create)
    else none }

def createFile (host : Host) (e : Engine bufs) (name : Name) : Status × Engine bufs :=
  let (status, paths) :=
    e.db.createFile e.paths name (if host.creatable name then .complete else .refused)
  (status, e.follow paths)

def destroyFile (e : Engine bufs) (name : Name) : Status × Engine bufs :=
  let (status, paths) := e.db.destroyFile e.paths name
  (status, e.follow paths)

def mount (e : Engine bufs) (file : FilePtr) (unix : Option (UnixFile Block)) : Engine bufs :=
  match unix with
  | some unix => e.withMgr (e.db.bufMgr.onDisk (update e.db.bufMgr.disk file unix))
  | none => e

def openFile (host : Host) (e : Engine bufs) (name : Name) : Option (Status × Engine bufs) :=
  match e.db.openFile name (e.paths (path name)) (host.address e.db.files) with
  | none => none
  | some (.error status, db) => some (status, { e with db := db })
  | some (.ok file, db) =>
    let opened := { e with db := db, filePtrs := update e.filePtrs name file }
    some (.ok, if e.db.files file = none then opened.mount file (e.directory (path name)) else opened)

def closeFile (e : Engine bufs) (name : Name) : Option (Status × Engine bufs) :=
  let file := e.filePtrs name
  match e.db.closeFile file noFaults true with
  | none => none
  | some (status, db) =>
    let closed := { e with db := db }
    some (status, if e.db.files file ≠ none ∧ db.files file = none then
      { closed with directory := update e.directory (path name) (some (db.bufMgr.disk file)) }
    else closed)

def pointTo (e : Engine bufs) (page : Name × Int) (frame : Fin bufs) : Engine bufs :=
  { e with frames := update e.frames page (some frame) }

def readPage (e : Engine bufs) (name : Name) (pageNo : Int) : Status × Engine bufs :=
  match e.db.bufMgr.readPage (e.filePtrs name) pageNo noFaults with
  | (.error status, m) => (status, e.withMgr m)
  | (.ok frame, m) => (.ok, (e.withMgr m).pointTo (name, pageNo) frame)

/-- A new page is in a frame that still holds what it held before. -/
def allocPage (host : Host) (e : Engine bufs) (name : Name) : Except Status Int × Engine bufs :=
  match e.db.bufMgr.allocPage (e.filePtrs name) noFaults with
  | (.error status, m) => (.error status, e.withMgr m)
  | (.ok (pageNo, frame), m) =>
    let m := m.setPool frame (.image (.data (host.asPage (m.bufPool frame))))
    (.ok pageNo, (e.withMgr m).pointTo (name, pageNo) frame)

def unPinPage (e : Engine bufs) (name : Name) (pageNo : Int) (dirty : Bool) :
    Status × Engine bufs :=
  let (status, m) := e.db.bufMgr.unPinPage (e.filePtrs name) pageNo dirty
  (status, e.withMgr m)

def flushFile (e : Engine bufs) (name : Name) : Status × Engine bufs :=
  let (status, m) := e.db.bufMgr.flushFile (e.filePtrs name) noFaults
  (status, e.withMgr m)

def load (e : Engine bufs) (name : Name) (pageNo : Int) : Option Image :=
  match (e.frames (name, pageNo)).map e.db.bufMgr.bufPool with
  | some (.image image) => some image
  | _ => none

def store (e : Engine bufs) (name : Name) (pageNo : Int) (image : Image) : Option (Engine bufs) :=
  (e.frames (name, pageNo)).map fun frame => e.withMgr (e.db.bufMgr.setPool frame (.image image))

/-- A method of an object that is gone has no result. -/
def handle (host : Host) : Program.Handler StorageCall.Reply (Engine bufs)
  | .openFile name, e => e.openFile host name
  | .closeFile name, e => e.closeFile name
  | .createFile name, e => some (e.createFile host name)
  | .destroyFile name, e => some (e.destroyFile name)
  | .getFirstPage name, e =>
    if e.db.files (e.filePtrs name) = none then none
    else some (e.db.bufMgr.disk.getFirstPage (e.filePtrs name) none, e)
  | .readPage name pageNo, e =>
    if e.db.files (e.filePtrs name) = none then none else some (e.readPage name pageNo)
  | .allocPage name, e =>
    if e.db.files (e.filePtrs name) = none then none else some (e.allocPage host name)
  | .unPinPage name pageNo dirty, e => some (e.unPinPage name pageNo dirty)
  | .flushFile name, e => some (e.flushFile name)
  | .load name pageNo, e => (e.load name pageNo).map fun image => (image, e)
  | .store name pageNo image, e => (e.store name pageNo image).map fun e => ((), e)

abbrev run (host : Host) (p : Prog α) (e : Engine bufs) : Option (α × Engine bufs) :=
  Program.run (handle host) p e

end Engine
end Minirel
