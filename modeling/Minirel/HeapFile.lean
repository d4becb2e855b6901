import Minirel.Filter
import Minirel.Storage

/-! Heap files and their scans (heapfile.h, heapfile.C). Objects are passed and
returned as records of their fields; loops take fuel. -/
namespace Minirel
open Storage

def createHeapFile (fileName : Name) : Prog Status := do
  let status ← openFile fileName
  if status = .ok then return .fileExists
  let status ← createFile fileName
  if status ≠ .ok then return status
  let status ← openFile fileName
  if status ≠ .ok then return status
  match ← allocPage fileName with
  | .error status => return status
  | .ok hdrPageNo =>
    match ← allocPage fileName with
    | .error status => return status
    | .ok newPageNo =>
      let newPage ← page fileName newPageNo
      setPage fileName newPageNo ((newPage.init newPageNo).setNextPage (-1))
      setHeader fileName hdrPageNo ⟨newPageNo, newPageNo, 1, 0⟩
      let status ← unPinPage fileName newPageNo true
      if status ≠ .ok then return status
      let status ← unPinPage fileName hdrPageNo true
      if status ≠ .ok then return status
      let status ← flushFile fileName
      if status ≠ .ok then return status
      closeFile fileName

def destroyHeapFile (fileName : Name) : Prog Status := destroyFile fileName

/-- `curPage` is `none` for NULL and otherwise names the page it points to. -/
structure HeapFile where
  filePtr : Name
  headerPageNo : Int
  hdrDirtyFlag : Bool
  curPage : Option Int
  curPageNo : Int
  curDirtyFlag : Bool
  curRec : RID
deriving DecidableEq, Repr

namespace HeapFile

/-- The constructor. It goes on after a failed read: the header would then be
accessed through a wild pointer, while `curPage` only stays unset and the
constructor reports success. -/
def new (fileName : Name) : Prog (Except Status HeapFile) := do
  let status ← openFile fileName
  if status ≠ .ok then return .error status
  match ← getFirstPage fileName with
  | .error _ => .halt
  | .ok headerPageNo =>
    let status ← readPage fileName headerPageNo
    if status ≠ .ok then .halt
    let hdr ← header fileName headerPageNo
    let status ← readPage fileName hdr.firstPage
    let curPage := if status = .ok then some hdr.firstPage else none
    return .ok ⟨fileName, headerPageNo, false, curPage, hdr.firstPage, false, nullRid⟩

/-- The destructor; failures are only reported. -/
def delete (h : HeapFile) : Prog Unit := do
  if h.curPage ≠ none then
    let _ ← unPinPage h.filePtr h.curPageNo h.curDirtyFlag
  let _ ← unPinPage h.filePtr h.headerPageNo h.hdrDirtyFlag
  let _ ← closeFile h.filePtr
  return ()

def headerPage (h : HeapFile) : Prog FileHdrPage := header h.filePtr h.headerPageNo

def setHeaderPage (h : HeapFile) (fields : FileHdrPage) : Prog Unit :=
  setHeader h.filePtr h.headerPageNo fields

def page (h : HeapFile) : Prog Page :=
  match h.curPage with
  | some pageNo => Storage.page h.filePtr pageNo
  | none => .halt

def setPage (h : HeapFile) (page : Page) : Prog Unit :=
  match h.curPage with
  | some pageNo => Storage.setPage h.filePtr pageNo page
  | none => .halt

def getRecCnt (h : HeapFile) : Prog Int := do return (← h.headerPage).recCnt

/-- The second half of `getRecord`: no page is pinned, read the right one. A
failed read leaves the object as it was. -/
def fetch (h : HeapFile) (rid : RID) : Prog (Except Status (List UInt8) × HeapFile) := do
  let status ← readPage h.filePtr rid.pageNo
  if status ≠ .ok then return (.error status, h)
  let h := { h with
    curPage := some rid.pageNo, curPageNo := rid.pageNo, curDirtyFlag := false, curRec := rid }
  return ((← h.page).getRecord rid, h)

def getRecord (h : HeapFile) (rid : RID) : Prog (Except Status (List UInt8) × HeapFile) := do
  if h.curPage = none then h.fetch rid
  else if rid.pageNo = h.curPageNo then
    return ((← h.page).getRecord rid, { h with curRec := rid })
  else
    let status ← unPinPage h.filePtr h.curPageNo h.curDirtyFlag
    if status ≠ .ok then
      return (.error status, { h with curPage := none, curPageNo := 0, curDirtyFlag := false })
    h.fetch rid

end HeapFile

/-- The scan parameters are meaningful only while a filter is set. -/
structure HeapFileScan extends HeapFile where
  filter : Option Filter
deriving DecidableEq, Repr

namespace HeapFileScan

def new (name : Name) : Prog (Except Status HeapFileScan) := do
  match ← HeapFile.new name with
  | .error status => return .error status
  | .ok h => return .ok ⟨h, none⟩

/-- `none` asks for no filtering; bad parameters leave the old ones in place. -/
def startScan (s : HeapFileScan) : Option Filter → Status × HeapFileScan
  | none => (.ok, { s with filter := none })
  | some f => if f.accepted then (.ok, { s with filter := some f }) else (.badScanParm, s)

def endScan (s : HeapFileScan) : Prog (Status × HeapFileScan) := do
  if s.curPage ≠ none then
    let status ← unPinPage s.filePtr s.curPageNo s.curDirtyFlag
    return (status, { s with curPage := none, curPageNo := 0, curDirtyFlag := false })
  else return (.ok, s)

structure Mark where
  markedPageNo : Int
  markedRec : RID
deriving DecidableEq, Repr

def markScan (s : HeapFileScan) : Mark := ⟨s.curPageNo, s.curRec⟩

/-- The second half of `resetScan`. A failed read leaves `curPage` as it was. -/
def restore (s : HeapFileScan) (mark : Mark) : Prog (Status × HeapFileScan) := do
  let s := { s with curPageNo := mark.markedPageNo, curRec := mark.markedRec }
  let status ← readPage s.filePtr s.curPageNo
  if status ≠ .ok then return (status, s)
  return (.ok, { s with curPage := some s.curPageNo, curDirtyFlag := false })

def resetScan (s : HeapFileScan) (mark : Mark) : Prog (Status × HeapFileScan) := do
  if mark.markedPageNo = s.curPageNo then return (.ok, { s with curRec := mark.markedRec })
  else if s.curPage = none then s.restore mark
  else
    let status ← unPinPage s.filePtr s.curPageNo s.curDirtyFlag
    if status ≠ .ok then return (status, s)
    s.restore mark

/-- The destructor ends the scan; then the base class destructor runs. -/
def delete (s : HeapFileScan) : Prog Unit := do
  let (_, s) ← s.endScan
  s.toHeapFile.delete

def matchRec (s : HeapFileScan) (rec : List UInt8) : Bool :=
  match s.filter with
  | none => true
  | some f => f.matchRec rec

/-- `while ((status == ENDOFPAGE) || (status == NORECORDS))`: go to the next
page that has a record. A page without records leaves `curRec` as it was. -/
def nextPages : Nat → HeapFileScan → Prog (Status × HeapFileScan)
  | 0, _ => .halt
  | fuel + 1, s => do
    let nextPageNo := (← s.page).nextPage
    if nextPageNo = -1 then return (.fileEof, s)
    let status ← unPinPage s.filePtr s.curPageNo s.curDirtyFlag
    let s := { s with curPage := none, curPageNo := -1 }
    if status ≠ .ok then return (status, s)
    let s := { s with curPageNo := nextPageNo, curDirtyFlag := false }
    let status ← readPage s.filePtr s.curPageNo
    if status ≠ .ok then return (status, s)
    let s := { s with curPage := some s.curPageNo }
    match (← s.page).firstRecord with
    | .ok rid => return (.ok, { s with curRec := rid })
    | .error _ => nextPages fuel s

def advance (fuel : Nat) (s : HeapFileScan) : Prog (Status × HeapFileScan) := do
  match (← s.page).nextRecord s.curRec with
  | .ok rid => return (.ok, { s with curRec := rid })
  | .error _ => nextPages fuel s

/-- `for(;;)`: look for a record that satisfies the predicate. -/
def scanLoop : Nat → HeapFileScan → Prog (Status × HeapFileScan)
  | 0, _ => .halt
  | fuel + 1, s => do
    let (status, s) ← s.advance fuel
    if status ≠ .ok then return (status, s)
    match (← s.page).getRecord s.curRec with
    | .error status => return (status, s)
    | .ok rec => if s.matchRec rec then return (.ok, s) else scanLoop fuel s

/-- The case of `scanNext` without a page: position on the first record of the
first page. `none` lets the loop look at the records behind it. -/
def firstPage (s : HeapFileScan) : Prog (Option Status × HeapFileScan) := do
  let s := { s with curPageNo := (← s.headerPage).firstPage }
  if s.curPageNo = -1 then return (some .fileEof, s)
  let status ← readPage s.filePtr s.curPageNo
  let s := { s with curDirtyFlag := false, curRec := nullRid }
  if status ≠ .ok then return (some status, s)
  let s := { s with curPage := some s.curPageNo }
  match (← s.page).firstRecord with
  | .error _ =>
    let status ← unPinPage s.filePtr s.curPageNo s.curDirtyFlag
    if status ≠ .ok then return (some status, s)
    return (some .fileEof, { s with curPageNo := -1, curPage := none })
  | .ok rid =>
    let s := { s with curRec := rid }
    match (← s.page).getRecord rid with
    | .error status => return (some status, s)
    | .ok rec => return (if s.matchRec rec then some .ok else none, s)

/-- On success the record is the current one, which is also returned. -/
def scanNext (fuel : Nat) (s : HeapFileScan) : Prog (Status × HeapFileScan) := do
  if s.curPageNo < 0 then return (.fileEof, s)
  if s.curPage = none then
    match ← s.firstPage with
    | (some status, s) => return (status, s)
    | (none, s) => scanLoop fuel s
  else scanLoop fuel s

def getRecord (s : HeapFileScan) : Prog (Except Status (List UInt8)) := do
  return (← s.page).getRecord s.curRec

/-- The count goes down whether or not the page had the record. -/
def deleteRecord (s : HeapFileScan) : Prog (Status × HeapFileScan) := do
  let page ← s.page
  let status ←
    match page.deleteRecord s.curRec with
    | .ok page => do
      s.setPage page
      pure Status.ok
    | .error status => pure status
  let hdr ← s.headerPage
  s.setHeaderPage { hdr with recCnt := hdr.recCnt - 1 }
  return (status, { s with curDirtyFlag := true, hdrDirtyFlag := true })

def markDirty (s : HeapFileScan) : HeapFileScan := { s with curDirtyFlag := true }

end HeapFileScan

namespace InsertFileScan

/-- The constructor moves on to the last page of the file. -/
def new (name : Name) : Prog (Except Status HeapFile) := do
  match ← HeapFile.new name with
  | .error status => return .error status
  | .ok h =>
    let lastPage := (← h.headerPage).lastPage
    if h.curPage ≠ none ∧ h.curPageNo ≠ lastPage then
      let _ ← unPinPage h.filePtr h.curPageNo h.curDirtyFlag
      let status ← readPage h.filePtr lastPage
      if status ≠ .ok then return .error status
      return .ok { h with curPage := some lastPage, curPageNo := lastPage, curDirtyFlag := false }
    else return .ok h

def delete (h : HeapFile) : Prog Unit := do
  if h.curPage ≠ none then
    let _ ← unPinPage h.filePtr h.curPageNo true
    { h with curPage := none, curPageNo := 0 }.delete
  else h.delete

def counted (h : HeapFile) : Prog HeapFile := do
  let hdr ← h.headerPage
  h.setHeaderPage { hdr with recCnt := hdr.recCnt + 1 }
  return { h with hdrDirtyFlag := true, curDirtyFlag := true }

/-- The current page was full: link a new page behind it and insert there. -/
def insertOnNewPage (h : HeapFile) (rec : Record) : Prog (Except Status RID × HeapFile) := do
  match ← allocPage h.filePtr with
  | .error status => return (.error status, h)
  | .ok newPageNo =>
    let newPage ← Storage.page h.filePtr newPageNo
    Storage.setPage h.filePtr newPageNo ((newPage.init newPageNo).setNextPage (-1))
    let hdr ← h.headerPage
    h.setHeaderPage { hdr with lastPage := newPageNo, pageCnt := hdr.pageCnt + 1 }
    let h := { h with hdrDirtyFlag := true }
    h.setPage ((← h.page).setNextPage newPageNo)
    let status ← unPinPage h.filePtr h.curPageNo true
    if status ≠ .ok then
      let _ ← unPinPage h.filePtr newPageNo true
      return (.error status, { h with curPage := none, curPageNo := -1, curDirtyFlag := false })
    let h := { h with curPage := some newPageNo, curPageNo := newPageNo }
    match (← h.page).insertRecord rec with
    | .error status => return (.error status, h)
    | .ok (rid, page) =>
      h.setPage page
      return (.ok rid, ← counted h)

/-- Insert into the current page, or else into a new one. -/
def insertOnPage (h : HeapFile) (rec : Record) (page : Page) :
    Prog (Except Status RID × HeapFile) :=
  match page.insertRecord rec with
  | .ok (rid, page) => do
    h.setPage page
    return (.ok rid, ← counted h)
  | .error _ => insertOnNewPage h rec

def insertRecord (h : HeapFile) (rec : Record) : Prog (Except Status RID × HeapFile) := do
  -- the length is compared as an unsigned number
  if rec.length < 0 ∨ rec.length > pageSize - dpFixed then return (.error .invalidRecLen, h)
  let mut h := h
  if h.curPage = none then
    let lastPage := (← h.headerPage).lastPage
    h := { h with curPageNo := lastPage }
    let status ← readPage h.filePtr lastPage
    if status ≠ .ok then return (.error status, h)
    h := { h with curPage := some lastPage }
  insertOnPage h rec (← h.page)

end InsertFileScan
end Minirel
