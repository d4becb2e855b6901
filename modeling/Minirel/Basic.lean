import Mathlib.Data.List.Basic

/-! Status codes, record identifiers and C strings shared by every layer. The
status enumeration keeps the order of the source; `ok` is the only success. -/
namespace Minirel

inductive Status where
  | ok
  | badFilePtr | badFile | fileTabFull | fileOpen | fileNotOpen
  | unixErr | badPagePtr | badPageNo | fileExists
  | hashTblError | hashNotFound | bufferExceeded | pageNotPinned
  | badBuffer | pagePinned
  | noSpace | noRecords | endOfPage | invalidSlotNo | invalidRecLen
  | badRid | badRecPtr | badScanParm | badScanId | scanTabFull | fileEof | fileHdrFull
  | badIndexParm | recNotFound | bucketFull | dirOverflow
  | nonUniqueEntry | noMoreRecs
  | badSortParm | insufMem
  | badCatParm | relNotFound | attrNotFound
  | nameTooLong | duplAttr | relExists | noIndex
  | indexExists | attrTooLong
  | attrTypeMismatch | tmpResExists
deriving DecidableEq, Repr

structure RID where
  pageNo : Int
  slotNo : Int
deriving DecidableEq, Repr

def nullRid : RID := ⟨-1, -1⟩

/-- A record as the interfaces pass it: the bytes behind the pointer and the
separate length field, which callers may set to anything. -/
structure Record where
  data : List UInt8
  length : Int
deriving DecidableEq, Repr

def Record.ofBytes (bytes : List UInt8) : Record := ⟨bytes, bytes.length⟩

def Record.bytes (rec : Record) : List UInt8 := rec.data.take rec.length.toNat

@[simp] theorem Record.ofBytes_length (bytes : List UInt8) :
    (Record.ofBytes bytes).length = bytes.length := rfl

@[simp] theorem Record.bytes_ofBytes (bytes : List UInt8) :
    (Record.ofBytes bytes).bytes = bytes := by
  simp [Record.bytes, Record.ofBytes]

end Minirel
