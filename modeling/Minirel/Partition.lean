import Minirel.Interp
import Minirel.HeapFile

/-! The split of a heap file into partitions (class `Partition` of partition.h,
partition.C). -/
namespace Minirel

namespace Partition

/-- The name of a partition file; `ends` adds a terminator to it. -/
def partName (fileName : Name) (p : Nat) : Name :=
  chars "/tmp/" ++ fileName ++ chars "." ++ decimal p ++ [0]

/-- The inserters; those before a failure stay open. -/
def openParts : List Name → Prog (Except Status (List HeapFile))
  | [] => return .ok []
  | name :: names => do
    match ← InsertFileScan.new name with
    | .error status => return .error status
    | .ok part =>
      match ← openParts names with
      | .error status => return .error status
      | .ok parts => return .ok (part :: parts)

/-- The loop over the records. The end of the file is no error. -/
def distribute (hashfcn : List UInt8 → Int) :
    Nat → HeapFileScan → List HeapFile → Prog (Status × HeapFileScan × List HeapFile)
  | 0, _, _ => .halt
  | fuel + 1, rel, part => do
    let (status, rel) ← rel.scanNext fuel
    if status ≠ .ok then return (if status = .fileEof then .ok else status, rel, part)
    match ← rel.getRecord with
    | .error status => return (status, rel, part)
    | .ok rec =>
      let p := hashfcn rec
      if p < 0 then .halt
      match part[p.toNat]? with
      | none => .halt
      | some h =>
        match ← InsertFileScan.insertRecord h (.ofBytes rec) with
        | (.error status, h) => return (status, rel, part.set p.toNat h)
        | (.ok _, h) => distribute hashfcn fuel rel (part.set p.toNat h)

def closeParts : List HeapFile → Prog Unit
  | [] => return
  | h :: part => do
    InsertFileScan.delete h
    closeParts part

def new (hashfcn : List UInt8 → Int) (fuel : Nat) (rel : HeapFileScan) (fileName : Name) (P : Nat) :
    Prog (Status × HeapFileScan) := do
  match ← openParts ((List.range P).map (partName fileName)) with
  | .error status => return (status, rel)
  | .ok part =>
    let (status, rel) := rel.startScan none
    if status ≠ .ok then return (status, rel)
    let (status, rel, part) ← distribute hashfcn fuel rel part
    if status ≠ .ok then return (status, rel)
    closeParts part
    rel.endScan

end Partition
end Minirel
