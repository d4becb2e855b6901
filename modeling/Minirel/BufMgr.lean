import Mathlib.Algebra.GroupWithZero.Nat
import Minirel.File
import Minirel.Lib.ChainedTable

/-! The buffer manager (buf.h, buf.C, bufHash.C). The pool size is a parameter
and frames are indices below it. Every call returns the manager it leaves
behind, also when it fails: several of its error paths return after parts of
the state have been changed. -/
namespace Minirel

/-- `((((int) (bufs * 1.2)) * 2) / 2) + 1`. -/
def htSize (bufs : Nat) : Nat := bufs * 6 / 5 * 2 / 2 + 1

def BufHashTbl.hash (bufs : Nat) (key : FilePtr × Int) : Int := (key.1 + key.2).tmod (htSize bufs)

abbrev BufHashTbl (bufs : Nat) := ChainedTable (FilePtr × Int) (Fin bufs) (BufHashTbl.hash bufs)

structure BufDesc where
  file : FilePtr
  pageNo : Int
  pinCnt : Int
  dirty : Bool
  valid : Bool
  refbit : Bool
deriving DecidableEq, Repr

namespace BufDesc

def clear (d : BufDesc) : BufDesc :=
  { d with pinCnt := 0, file := 0, pageNo := -1, dirty := false, valid := false }

def set (file : FilePtr) (pageNo : Int) : BufDesc := ⟨file, pageNo, 1, false, true, true⟩

end BufDesc

structure BufStats where
  accesses : Nat
  diskreads : Nat
  diskwrites : Nat
deriving DecidableEq, Repr

structure BufMgr (bufs : Nat) (P : Type) [PageImage P] where
  clockHand : Fin bufs
  hashTable : BufHashTbl bufs
  bufTable : Fin bufs → BufDesc
  bufStats : BufStats
  bufPool : Fin bufs → P
  disk : Disk P

/-! The smallest pools. -/

instance oneFrame : NeZero 1 := ⟨Nat.one_ne_zero⟩

instance twoFrames : NeZero 2 := ⟨Nat.succ_ne_zero 1⟩

namespace BufMgr
variable {bufs : Nat} {P : Type} [PageImage P]

/-- The constructor; both tables are cleared by `memset`. -/
def new (bufs : Nat) [NeZero bufs] (disk : Disk P) : BufMgr bufs P where
  clockHand := Fin.ofNat bufs (bufs - 1)
  hashTable := .empty
  bufTable := fun _ => ⟨0, 0, 0, false, false, false⟩
  bufStats := ⟨0, 0, 0⟩
  bufPool := fun _ => PageImage.zero
  disk := disk

def setDesc (m : BufMgr bufs P) (frame : Fin bufs) (d : BufDesc) : BufMgr bufs P :=
  { m with bufTable := Function.update m.bufTable frame d }

def setPool (m : BufMgr bufs P) (frame : Fin bufs) (page : P) : BufMgr bufs P :=
  { m with bufPool := Function.update m.bufPool frame page }

/-- `hashTable->remove(..)`, whose status is ignored by every caller. -/
def removeEntry (m : BufMgr bufs P) (file : FilePtr) (pageNo : Int) : BufMgr bufs P :=
  { m with hashTable := (m.hashTable.remove (file, pageNo)).getD m.hashTable }

def advanceClock (m : BufMgr bufs P) : BufMgr bufs P :=
  { m with clockHand := ⟨(m.clockHand + 1) % bufs, Nat.mod_lt _ m.clockHand.pos⟩ }

def clearRefbit (m : BufMgr bufs P) : BufMgr bufs P :=
  { m.setDesc m.clockHand { m.bufTable m.clockHand with refbit := false } with
    bufStats := { m.bufStats with accesses := m.bufStats.accesses + 1 } }

/-- The loop of `allocBuf` with `n` frames left to look at. The results are
what is left of `n`, `found`, and the manager with the hand where it stopped. -/
def sweep : Nat → BufMgr bufs P → Nat × Bool × BufMgr bufs P
  | 0, m => (0, false, m)
  | n + 1, m =>
    let m := m.advanceClock
    let d := m.bufTable m.clockHand
    if !d.valid then (n, false, m)
    else if !d.refbit then
      if d.pinCnt = 0 then (n, true, m.removeEntry d.file d.pageNo)
      else sweep n m
    else sweep n m.clearRefbit

def writeBack (m : BufMgr bufs P) (fault : Faults P) : Except Status (Fin bufs) × BufMgr bufs P :=
  let d := m.bufTable m.clockHand
  if d.dirty then
    let stats := { m.bufStats with diskwrites := m.bufStats.diskwrites + 1 }
    match m.disk.writePage d.file d.pageNo (m.bufPool m.clockHand) (fault .victimWrite) with
    | (.ok, disk) => (.ok m.clockHand, { m with bufStats := stats, disk := disk })
    | (status, disk) => (.error status, { m with bufStats := stats, disk := disk })
  else (.ok m.clockHand, m)

def allocBuf (m : BufMgr bufs P) (fault : Faults P) : Except Status (Fin bufs) × BufMgr bufs P :=
  let (left, found, m) := sweep (2 * bufs) m
  if !found ∧ left = 0 then (.error .bufferExceeded, m) else m.writeBack fault

def enter (m : BufMgr bufs P) (file : FilePtr) (pageNo : Int) (frame : Fin bufs) :
    Except Status (Fin bufs) × BufMgr bufs P :=
  match m.hashTable.insert (file, pageNo) frame with
  | some table => (.ok frame, { m with hashTable := table })
  | none => (.error .hashTblError, m)

/-- `page` is returned as the frame it points to. -/
def readPage (m : BufMgr bufs P) (file : FilePtr) (pageNo : Int) (fault : Faults P) :
    Except Status (Fin bufs) × BufMgr bufs P :=
  match m.hashTable.lookup (file, pageNo) with
  | some frame =>
    let d := m.bufTable frame
    (.ok frame, m.setDesc frame { d with refbit := true, pinCnt := d.pinCnt + 1 })
  | none =>
    match m.allocBuf fault with
    | (.error status, m) => (.error status, m)
    | (.ok frame, m) =>
      let m := { m with bufStats := { m.bufStats with diskreads := m.bufStats.diskreads + 1 } }
      match m.disk.readPage file pageNo (fault .pageRead) with
      | .error (status, left) => (.error status, m.setPool frame (left.getD (m.bufPool frame)))
      | .ok page => ((m.setPool frame page).setDesc frame (.set file pageNo)).enter file pageNo frame

def unPinPage (m : BufMgr bufs P) (file : FilePtr) (pageNo : Int) (dirty : Bool) :
    Status × BufMgr bufs P :=
  match m.hashTable.lookup (file, pageNo) with
  | none => (.hashNotFound, m)
  | some frame =>
    let d := m.bufTable frame
    let d := { d with dirty := d.dirty || dirty }
    if d.pinCnt = 0 then (.pageNotPinned, m.setDesc frame d)
    else (.ok, m.setDesc frame { d with pinCnt := d.pinCnt - 1 })

/-- One iteration of `flushFile`; `ok` lets the loop go on. -/
def flushFrame (m : BufMgr bufs P) (file : FilePtr) (fault : Faults P) (frame : Fin bufs) :
    Status × BufMgr bufs P :=
  let d := m.bufTable frame
  let drop := fun (m : BufMgr bufs P) =>
    (m.removeEntry file d.pageNo).setDesc frame
      { d with dirty := false, file := 0, pageNo := -1, valid := false }
  if d.valid ∧ d.file = file then
    if d.pinCnt > 0 then (.pagePinned, m)
    else if d.dirty then
      match m.disk.writePage d.file d.pageNo (m.bufPool frame) (fault (.flushWrite frame)) with
      | (.ok, disk) => (.ok, drop { m with disk := disk })
      | (status, disk) => (status, { m with disk := disk })
    else (.ok, drop m)
  else if ¬ d.valid ∧ d.file = file then (.badBuffer, m)
  else (.ok, m)

def flushFrames (file : FilePtr) (fault : Faults P) : List (Fin bufs) → BufMgr bufs P →
    Status × BufMgr bufs P
  | [], m => (.ok, m)
  | frame :: rest, m =>
    match m.flushFrame file fault frame with
    | (.ok, m) => flushFrames file fault rest m
    | (status, m) => (status, m)

def flushFile (m : BufMgr bufs P) (file : FilePtr) (fault : Faults P) : Status × BufMgr bufs P :=
  flushFrames file fault (List.finRange bufs) m

def disposePage (m : BufMgr bufs P) (file : FilePtr) (pageNo : Int) (fault : Faults P) :
    Status × BufMgr bufs P :=
  let m :=
    match m.hashTable.lookup (file, pageNo) with
    | some frame => m.setDesc frame (m.bufTable frame).clear
    | none => m
  let m := m.removeEntry file pageNo
  match m.disk.disposePage file pageNo fault with
  | (status, disk) => (status, { m with disk := disk })

def allocPage (m : BufMgr bufs P) (file : FilePtr) (fault : Faults P) :
    Except Status (Int × Fin bufs) × BufMgr bufs P :=
  match m.disk.allocatePage file fault with
  | (.error status, disk) => (.error status, { m with disk := disk })
  | (.ok pageNo, disk) =>
    match { m with disk := disk }.allocBuf fault with
    | (.error status, m) => (.error status, m)
    | (.ok frame, m) =>
      match (m.setDesc frame (.set file pageNo)).enter file pageNo frame with
      | (.ok frame, m) => (.ok (pageNo, frame), m)
      | (.error status, m) => (.error status, m)

/-- The destructor writes out what is still dirty; the statuses of the writes
are dropped. -/
def writeOut (fault : Faults P) (m : BufMgr bufs P) (disk : Disk P) (frame : Fin bufs) : Disk P :=
  let d := m.bufTable frame
  if d.valid ∧ d.dirty then
    (disk.writePage d.file d.pageNo (m.bufPool frame) (fault (.flushWrite frame))).2
  else disk

def destroy (m : BufMgr bufs P) (fault : Faults P) : Disk P :=
  (List.finRange bufs).foldl (m.writeOut fault) m.disk

end BufMgr
end Minirel
