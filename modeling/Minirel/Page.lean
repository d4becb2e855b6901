import Minirel.Basic
import Minirel.Lib.Memory

/-! Slotted data pages (page.h, page.C). Records grow upwards from address 0 of
`data[]` and the slot array grows downwards from `slot[0]` through the same
bytes, so both are kept in one memory and an overlap of the two would be
visible as corruption. The counters behind the array are 16-bit fields, each
assignment truncates; slot entries with a positive index lie on them, as they
do in C++. -/
namespace Minirel
open ByteMemory

def pageSize : Nat := 1024

/-- `sizeof(slot_t) + 4*sizeof(short) + 2*sizeof(int)`. -/
def dpFixed : Nat := 4 + 4 * 2 + 2 * 4

structure Slot where
  offset : Int
  length : Int
deriving DecidableEq, Repr

structure Page where
  mem : Mem
  slotCnt : Int
  freePtr : Int
  freeSpace : Int
  dummy : Int
  nextPage : Int
  curPage : Int

namespace Page

/-- Address of `slot[i]`; `slot[0]` follows the `PAGESIZE - DPFIXED` data bytes. -/
def slotAddr (i : Int) : Int := pageSize - dpFixed + 4 * i

/-- What `slot[i]` denotes for `i > 0`: the counters, then the two halves of
the page links, then whatever lies behind the page (read as 0 here). -/
def beyond (p : Page) (i : Int) : Slot :=
  if i = 1 then ⟨p.slotCnt, p.freePtr⟩
  else if i = 2 then ⟨p.freeSpace, p.dummy⟩
  else if i = 3 then ⟨short p.nextPage, short (p.nextPage / 65536)⟩
  else if i = 4 then ⟨short p.curPage, short (p.curPage / 65536)⟩
  else ⟨0, 0⟩

/-- `slot[i]`; the array index is not checked, as in the source. -/
def slot (p : Page) (i : Int) : Slot :=
  if i ≤ 0 then ⟨getShort p.mem (slotAddr i), getShort p.mem (slotAddr i + 2)⟩ else p.beyond i

def setOffset (p : Page) (i v : Int) : Page :=
  if i ≤ 0 then { p with mem := setShort p.mem (slotAddr i) v }
  else if i = 1 then { p with slotCnt := short v }
  else if i = 2 then { p with freeSpace := short v }
  else if i = 3 then { p with nextPage := p.nextPage - short p.nextPage + short v }
  else if i = 4 then { p with curPage := p.curPage - short p.curPage + short v }
  else p

def setLength (p : Page) (i v : Int) : Page :=
  if i ≤ 0 then { p with mem := setShort p.mem (slotAddr i + 2) v }
  else if i = 1 then { p with freePtr := short v }
  else if i = 2 then { p with dummy := short v }
  else if i = 3 then { p with nextPage := short p.nextPage % 65536 + 65536 * short v }
  else if i = 4 then { p with curPage := short p.curPage % 65536 + 65536 * short v }
  else p

/-- The page bytes before the call are whatever the frame held. -/
def init (p : Page) (pageNo : Int) : Page :=
  { p with
    nextPage := -1
    slotCnt := 0
    curPage := pageNo
    freePtr := 0
    freeSpace := short (pageSize - dpFixed) }

def setNextPage (p : Page) (pageNo : Int) : Page := { p with nextPage := pageNo }

/-- `while (i > slotCnt) { if (stop) break; else i--; }`, the loop shared by
insertion and the two record iterators; `n` counts the slots still ahead. -/
def seek (p : Page) (stop : Slot → Bool) : Nat → Int → Int
  | 0, i => i
  | n + 1, i => if stop (p.slot i) then i else seek p stop n (i - 1)

def seekFrom (p : Page) (stop : Slot → Bool) (i : Int) : Int :=
  p.seek stop (i - p.slotCnt).toNat i

/-- The free-space accounting of an insertion into `slot[i]`: a new slot is
charged for, a reused one is not. -/
def charge (p : Page) (i length : Int) : Page :=
  if i = p.slotCnt then
    { p with freeSpace := short (p.freeSpace - (length + 4)), slotCnt := short (p.slotCnt - 1) }
  else { p with freeSpace := short (p.freeSpace - length) }

/-- Fill in `slot[i]`, copy the record behind the others and move `freePtr`. -/
def place (p : Page) (i : Int) (rec : Record) : Page :=
  let p := (p.setOffset i p.freePtr).setLength i rec.length
  { p with mem := write p.mem p.freePtr rec.bytes, freePtr := short (p.freePtr + rec.length) }

def insertRecord (p : Page) (rec : Record) : Except Status (RID × Page) :=
  let spaceNeeded := rec.length + 4
  if spaceNeeded > p.freeSpace then .error .noSpace
  else
    let i := p.seekFrom (fun s => s.length == -1) 0
    .ok (⟨p.curPage, -i⟩, (p.charge i rec.length).place i rec)

/-- One iteration of the offset adjustment in `deleteRecord`. -/
def shiftSlot (p : Page) (slotNo recLen i : Int) : Page :=
  if (p.slot i).length ≥ 0 ∧ (p.slot i).offset > (p.slot slotNo).offset then
    p.setOffset i ((p.slot i).offset - recLen)
  else p

/-- `for (int i = 0; i > slotCnt; i--)`, with `n` iterations left. -/
def shiftSlots (slotNo recLen : Int) : Nat → Int → Page → Page
  | 0, _, p => p
  | n + 1, i, p => shiftSlots slotNo recLen n (i - 1) (p.shiftSlot slotNo recLen i)

def trimSlot (p : Page) : Page :=
  { p with slotCnt := short (p.slotCnt + 1), freeSpace := short (p.freeSpace + 4) }

/-- `do { slotCnt++; ... } while (slotCnt < 0 && slot[slotCnt + 1].length == -1)`.
Each iteration raises `slotCnt`, so `n = -slotCnt` more are enough. -/
def trimSlots : Nat → Page → Page
  | 0, p => p.trimSlot
  | n + 1, p =>
    let p := p.trimSlot
    if p.slotCnt < 0 ∧ (p.slot (p.slotCnt + 1)).length = -1 then trimSlots n p else p

/-- Close the gap left by the record of `slot[slotNo]`: move the bytes behind
it, adjust the offsets of the records they belong to, back up `freePtr`. -/
def compact (p : Page) (slotNo : Int) : Page :=
  let offset := (p.slot slotNo).offset
  let recLen := (p.slot slotNo).length
  let cnt := p.freePtr - (offset + recLen)
  let p := { p with mem := move p.mem (offset + recLen) offset cnt.toNat }
  let p := shiftSlots slotNo recLen (-p.slotCnt).toNat 0 p
  { p with freePtr := short (p.freePtr - recLen), freeSpace := short (p.freeSpace + recLen) }

def deleteRecord (p : Page) (rid : RID) : Except Status Page :=
  let slotNo := -rid.slotNo
  if slotNo > p.slotCnt ∧ (p.slot slotNo).length > 0 then
    let p := p.compact slotNo
    if slotNo = p.slotCnt + 1 then .ok (trimSlots (-p.slotCnt).toNat p)
    else .ok ((p.setLength slotNo (-1)).setOffset slotNo 0)
  else .error .invalidSlotNo

def firstRecord (p : Page) : Except Status RID :=
  let i := p.seekFrom (fun s => s.length != -1) 0
  if i = p.slotCnt ∨ (p.slot i).length = -1 then .error .noRecords
  else .ok ⟨p.curPage, -i⟩

def nextRecord (p : Page) (curRid : RID) : Except Status RID :=
  let i := p.seekFrom (fun s => s.length != -1) (-curRid.slotNo - 1)
  if i ≤ p.slotCnt ∨ (p.slot i).length = -1 then .error .endOfPage
  else .ok ⟨p.curPage, -i⟩

/-- The returned pointer and length, as the bytes they delimit. -/
def getRecord (p : Page) (rid : RID) : Except Status (List UInt8) :=
  let slotNo := -rid.slotNo
  if slotNo > p.slotCnt ∧ (p.slot slotNo).length > 0 then
    .ok (read p.mem (p.slot slotNo).offset (p.slot slotNo).length.toNat)
  else .error .invalidSlotNo

end Page
end Minirel
