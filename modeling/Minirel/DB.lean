import Minirel.BufMgr
import Minirel.Storage

/-! Open files (classes `File`, `OpenFileHashTbl` and `DB` of db.h, db.C) over
the buffer manager: how a file is created, opened, closed and destroyed. -/
namespace Minirel
open Function

namespace OpenFileHashTbl

/-- `int` arithmetic on the (signed) characters of the name. -/
def hash (fileName : Name) : Nat :=
  ((fileName.foldl (fun value c => (31 * value + (c.toNat : Int).bmod 256).bmod (2 ^ 32)) 0).tmod
    113).natAbs

end OpenFileHashTbl

abbrev OpenFileHashTbl := ChainedTable Name FilePtr OpenFileHashTbl.hash

/-- The fields of a `File` object besides its UNIX descriptor. -/
structure File where
  fileName : Name
  openCnt : Int
deriving DecidableEq, Repr

/-- `File::open` with whether the UNIX `open` succeeds. -/
def File.open (f : File) (opens : Bool) : Status × File :=
  if f.openCnt = 0 then
    if opens then (.ok, { f with openCnt := 1 }) else (.unixErr, f)
  else (.ok, { f with openCnt := f.openCnt + 1 })

abbrev Paths := Name → Bool

def path (fileName : Name) : Name := fileName.takeWhile (· ≠ 0)

/-- What the UNIX calls of `File::create` come to on a path without a file. -/
inductive CreateOutcome
  | refused
  | incomplete
  | complete
deriving DecidableEq, Repr

/-- A header that cannot be written leaves the file behind. -/
def File.create (directory : Paths) (fileName : Name) (creation : CreateOutcome) : Status × Paths :=
  if directory (path fileName) then (.fileExists, directory)
  else
    match creation with
    | .refused => (.unixErr, directory)
    | .incomplete => (.unixErr, update directory (path fileName) true)
    | .complete => (.ok, update directory (path fileName) true)

def File.destroy (directory : Paths) (fileName : Name) : Status × Paths :=
  if directory (path fileName) then (.ok, update directory (path fileName) false)
  else (.unixErr, directory)

/-- The open-file table, the `File` objects that exist, and the buffer manager. -/
structure DB (bufs : Nat) (P : Type) [PageImage P] where
  openFiles : OpenFileHashTbl
  files : FilePtr → Option File
  bufMgr : BufMgr bufs P

namespace DB
variable {bufs : Nat} {P : Type} [PageImage P]

def setFile (db : DB bufs P) (file : FilePtr) (f : Option File) : DB bufs P :=
  { db with files := update db.files file f }

def createFile (db : DB bufs P) (directory : Paths) (fileName : Name) (creation : CreateOutcome) :
    Status × Paths :=
  if fileName = [] then (.badFile, directory)
  else
    match db.openFiles.lookup fileName with
    | some _ => (.fileExists, directory)
    | none => File.create directory fileName creation

def destroyFile (db : DB bufs P) (directory : Paths) (fileName : Name) : Status × Paths :=
  if fileName = [] then (.badFile, directory)
  else
    match db.openFiles.lookup fileName with
    | some _ => (.fileOpen, directory)
    | none => File.destroy directory fileName

/-- A new object gets the given address; one that cannot be opened is deleted at
once. There is no result if the table points to no object. -/
def openFile (db : DB bufs P) (fileName : Name) (opens : Bool) (address : FilePtr) :
    Option (Except Status FilePtr × DB bufs P) :=
  if fileName = [] then some (.error .badFile, db)
  else
    match db.openFiles.lookup fileName with
    | some file => do
      let f ← db.files file
      let (status, f) := f.open opens
      return (if status = .ok then .ok file else .error status, db.setFile file (some f))
    | none =>
      let (status, f) := (⟨fileName, 0⟩ : File).open opens
      if status ≠ .ok then some (.error status, db)
      else
        let db := db.setFile address (some f)
        match db.openFiles.insert fileName address with
        | some openFiles => some (.ok address, { db with openFiles := openFiles })
        | none => some (.error .hashTblError, db)

/-- `File::close` with whether the UNIX `close` succeeds. The status of
`flushFile` is dropped. -/
def close (db : DB bufs P) (file : FilePtr) (f : File) (fault : Faults P) (closes : Bool) :
    Status × DB bufs P :=
  if f.openCnt ≤ 0 then (.fileNotOpen, db)
  else
    let f := { f with openCnt := f.openCnt - 1 }
    let db := db.setFile file (some f)
    if f.openCnt = 0 then
      let (_, bufMgr) := db.bufMgr.flushFile file fault
      let db := { db with bufMgr := bufMgr }
      if closes then (.ok, db) else (.unixErr, db)
    else (.ok, db)

/-- The end of `closeFile`: an object without references left goes. -/
def dropClosed (db : DB bufs P) (file : FilePtr) (f : File) : Status × DB bufs P :=
  if f.openCnt = 0 then
    match db.openFiles.remove f.fileName with
    | none => (.badFilePtr, db)
    | some openFiles => (.ok, { db.setFile file none with openFiles := openFiles })
  else (.ok, db)

/-- `DB::closeFile`; the status of `File::close` is dropped too. There is no
result for a pointer to no object. -/
def closeFile (db : DB bufs P) (file : FilePtr) (fault : Faults P) (closes : Bool) :
    Option (Status × DB bufs P) :=
  if file = 0 then some (.badFilePtr, db)
  else do
    let f ← db.files file
    let (_, db) := db.close file f fault closes
    let f ← db.files file
    return db.dropClosed file f

end DB
end Minirel
