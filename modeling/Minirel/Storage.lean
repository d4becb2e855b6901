import Minirel.Page
import Minirel.Lib.Program

/-! The interface the heap-file layer and everything above it is written
against: the calls of `DB`, `File` and `BufMgr` it makes, and accesses through
the page pointers they return. A pointer is named by the file and page whose
frame it points into. -/
namespace Minirel

/-- The characters of a `std::string` or C string. -/
abbrev Name := List UInt8

instance lawfulName : LawfulBEq Name := inferInstance

/-- The header page of a heap file (heapfile.h). -/
structure FileHdrPage where
  firstPage : Int
  lastPage : Int
  pageCnt : Int
  recCnt : Int
deriving DecidableEq, Repr

/-- What the bytes of a page are used as. -/
inductive Image
  | header (fields : FileHdrPage)
  | data (page : Page)

inductive StorageCall
  | openFile (name : Name)
  | closeFile (file : Name)
  | createFile (name : Name)
  | destroyFile (name : Name)
  | getFirstPage (file : Name)
  | readPage (file : Name) (pageNo : Int)
  | allocPage (file : Name)
  | unPinPage (file : Name) (pageNo : Int) (dirty : Bool)
  | flushFile (file : Name)
  | load (file : Name) (pageNo : Int)
  | store (file : Name) (pageNo : Int) (image : Image)

abbrev StorageCall.Reply : StorageCall → Type
  | .getFirstPage _ | .allocPage _ => Except Status Int
  | .load _ _ => Image
  | .store _ _ _ => Unit
  | _ => Status

abbrev Prog := Program StorageCall.Reply

namespace Storage

def openFile (name : Name) : Prog Status := Program.perform (StorageCall.openFile name)
def closeFile (file : Name) : Prog Status := Program.perform (StorageCall.closeFile file)
def createFile (name : Name) : Prog Status := Program.perform (StorageCall.createFile name)
def destroyFile (name : Name) : Prog Status := Program.perform (StorageCall.destroyFile name)
def getFirstPage (file : Name) : Prog (Except Status Int) :=
  Program.perform (StorageCall.getFirstPage file)
def readPage (file : Name) (pageNo : Int) : Prog Status :=
  Program.perform (StorageCall.readPage file pageNo)
def allocPage (file : Name) : Prog (Except Status Int) :=
  Program.perform (StorageCall.allocPage file)
def unPinPage (file : Name) (pageNo : Int) (dirty : Bool) : Prog Status :=
  Program.perform (StorageCall.unPinPage file pageNo dirty)
def flushFile (file : Name) : Prog Status := Program.perform (StorageCall.flushFile file)

/-- `*(Page*) ptr`; a header page has no meaning as a data page. -/
def page (file : Name) (pageNo : Int) : Prog Page :=
  .call (StorageCall.load file pageNo) fun
    | .data page => .done page
    | .header _ => .halt

/-- `*(FileHdrPage*) ptr`. -/
def header (file : Name) (pageNo : Int) : Prog FileHdrPage :=
  .call (StorageCall.load file pageNo) fun
    | .header fields => .done fields
    | .data _ => .halt

def setPage (file : Name) (pageNo : Int) (page : Page) : Prog Unit :=
  Program.perform (StorageCall.store file pageNo (.data page))

def setHeader (file : Name) (pageNo : Int) (fields : FileHdrPage) : Prog Unit :=
  Program.perform (StorageCall.store file pageNo (.header fields))

end Storage
end Minirel
