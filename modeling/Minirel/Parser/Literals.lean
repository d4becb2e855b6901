import Minirel.Parser.Nodes
import Minirel.Query.Text
import Minirel.Scanner

/-! Literals on their way through the parse tree: the types of columns, which are
coded as one `int`, and the values, which `value_of` prints into a buffer. -/
namespace Minirel

def ErrVal.code : ErrVal → Int
  | incompatible => -1
  | tooManyAttrs => -2
  | invFormatString => -6
  | stringTooLong => -10

theorem ErrVal.code_neg (errval : ErrVal) : errval.code < 0 := by cases errval <;> decide

def AttrType.info (relname : Name) (attr : AttrType) (format : Datatype × Int) : AttrInfo :=
  ⟨relname, attr.attrname, format.1.code, format.2, none⟩

theorem mkAttrDescrs_ok {relname : Name} {room : Nat} {list : List AttrType}
    {formats : List (Datatype × Int)} (short : list.length < room)
    (legal : List.Forall₂ (fun attr format => parseFormatString attr.format = .ok format) list
      formats) :
    mkAttrDescrs relname room list = .ok (List.zipWith (AttrType.info relname) list formats) := by
  induction legal generalizing room with
  | nil =>
    obtain ⟨room, rfl⟩ : ∃ more, room = more + 1 := ⟨room - 1, by simp at short; omega⟩
    rfl
  | @cons attr format list formats first rest ih =>
    obtain ⟨room, rfl⟩ : ∃ more, room = more + 1 := ⟨room - 1, by simp at short; omega⟩
    rw [mkAttrDescrs, first]
    simp only [ih (by simpa using short)]
    rfl

theorem mkAttrDescrs_accepts {room : Nat} {list : List AttrType} (relname : Name)
    (short : list.length < room)
    (legal : ∀ attr ∈ list, ∃ format, parseFormatString attr.format = .ok format) :
    ∃ attrs, mkAttrDescrs relname room list = .ok attrs := by
  have formats : ∃ formats,
      List.Forall₂ (fun attr format => parseFormatString attr.format = .ok format) list formats := by
    clear short
    induction list with
    | nil => exact ⟨[], .nil⟩
    | cons attr list ih =>
      rw [List.forall_mem_cons] at legal
      obtain ⟨format, first⟩ := legal.1
      obtain ⟨formats, rest⟩ := ih legal.2
      exact ⟨format :: formats, .cons first rest⟩
  obtain ⟨formats, legal⟩ := formats
  exact ⟨_, mkAttrDescrs_ok short legal⟩

theorem mkAttrDescrs_inv {relname : Name} {room : Nat} {list : List AttrType}
    {attrs : List AttrInfo} (accepted : mkAttrDescrs relname room list = .ok attrs) :
    list.length < room ∧ ∀ attr ∈ list, ∃ format, parseFormatString attr.format = .ok format := by
  induction list generalizing room attrs with
  | nil =>
    cases room with
    | zero => cases accepted
    | succ room => simp
  | cons attr list ih =>
    cases room with
    | zero => cases accepted
    | succ room =>
      rw [mkAttrDescrs] at accepted
      split at accepted
      · cases accepted
      next first =>
        split at accepted
        · cases accepted
        next rest =>
          obtain ⟨short, legal⟩ := ih rest
          exact ⟨by simpa using short, List.forall_mem_cons.mpr ⟨⟨_, first⟩, legal⟩⟩

namespace Parser

/-- The type of a column as it is written; `n` is any integer literal. -/
inductive SqlType
  | int
  | real
  | char (n : Int)
deriving DecidableEq, Repr

/-- What is parsed. `scan` is the `int` that `sscanf` stores for a literal. -/
def SqlType.parsed (scan : Int → Int) : SqlType → ColumnType
  | int => .int
  | real => .real
  | char n => .char (scan n)

/-- The type and length that are meant. -/
def SqlType.meaning : SqlType → Datatype × Int
  | int => (.integer, 4)
  | real => (.float, 4)
  | char n => (.string, n)

/-- A length that a string column can have. -/
def SqlType.Legal : SqlType → Prop
  | char n => 1 ≤ n ∧ n ≤ 255
  | _ => True

instance : (type : SqlType) → Decidable type.Legal
  | .int => .isTrue trivial
  | .real => .isTrue trivial
  | .char n => inferInstanceAs (Decidable (1 ≤ n ∧ n ≤ 255))

/-- A length that is refused: it is not read as a length, nor as the code of one
of the other types. -/
def SqlType.Refused (scan : Int → Int) : SqlType → Prop
  | char n => scan n ≠ -23 ∧ scan n ≠ -26 ∧ ¬(1 ≤ scan n ∧ scan n ≤ 255)
  | _ => False

/-- The list in the tree of `CREATE TABLE`. -/
def columnTree (scan : Int → Int) (columns : List (Name × SqlType)) : List AttrType :=
  columns.map fun c => Column.attrType ⟨c.1, c.2.parsed scan⟩

section Columns
variable {scan : Int → Int} {relname : Name} {columns : List (Name × SqlType)} {type : SqlType}

theorem parseFormatString_legal (exact : ∀ n, -2 ^ 31 ≤ n → n < 2 ^ 31 → scan n = n)
    (legal : type.Legal) :
    parseFormatString (type.parsed scan).format = .ok type.meaning := by
  cases type with
  | int => rfl
  | real => rfl
  | char n =>
    obtain ⟨low, high⟩ := legal
    have same : scan n = n := exact n (by omega) (by omega)
    simp only [SqlType.parsed, ColumnType.format, same, parseFormatString]
    rw [if_neg (by omega), if_neg (by omega), if_pos ⟨high, low⟩]
    rfl

theorem parseFormatString_refused (refused : type.Refused scan) (format : Datatype × Int) :
    parseFormatString (type.parsed scan).format ≠ .ok format := by
  cases type with
  | int => cases refused
  | real => cases refused
  | char n =>
    obtain ⟨integer, float, outside⟩ := refused
    change parseFormatString (scan n) ≠ _
    rw [parseFormatString, if_neg (by omega), if_neg (by omega), if_neg (by omega)]
    nofun

theorem parseFormatString_of_not_refused (accepted : ¬type.Refused scan) :
    ∃ format, parseFormatString (type.parsed scan).format = .ok format := by
  cases type with
  | int => exact ⟨_, rfl⟩
  | real => exact ⟨_, rfl⟩
  | char n =>
    change ∃ format, parseFormatString (scan n) = _
    unfold parseFormatString
    split
    · exact ⟨_, rfl⟩
    split
    · exact ⟨_, rfl⟩
    split
    · exact ⟨_, rfl⟩
    · exact absurd ⟨by omega, by omega, by omega⟩ accepted

/-- The descriptors have the types and lengths that are meant if there are not
too many columns and all lengths are legal; otherwise there is an error. -/
structure Survives (scan : Int → Int) (relname : Name) (columns : List (Name × SqlType)) :
    Prop where
  accepted : columns.length < maxAttrs → (∀ c ∈ columns, c.2.Legal) →
    mkAttrDescrs relname maxAttrs (columnTree scan columns) =
      .ok (columns.map fun c => ⟨relname, c.1, c.2.meaning.1.code, c.2.meaning.2, none⟩)
  refused : ¬(columns.length < maxAttrs ∧ ∀ c ∈ columns, c.2.Legal) →
    ∃ errval, mkAttrDescrs relname maxAttrs (columnTree scan columns) = .error errval ∧ errval.code < 0

theorem accepts_legal (exact : ∀ n, -2 ^ 31 ≤ n → n < 2 ^ 31 → scan n = n)
    (short : columns.length < maxAttrs) (legal : ∀ c ∈ columns, c.2.Legal) :
    mkAttrDescrs relname maxAttrs (columnTree scan columns) =
      .ok (columns.map fun c => ⟨relname, c.1, c.2.meaning.1.code, c.2.meaning.2, none⟩) := by
  have formats : List.Forall₂ (fun attr format => parseFormatString attr.format = .ok format)
      (columnTree scan columns) (columns.map fun c => c.2.meaning) := by
    rw [columnTree, List.forall₂_map_left_iff, List.forall₂_map_right_iff, List.forall₂_same]
    exact fun c member => parseFormatString_legal exact (legal c member)
  rw [mkAttrDescrs_ok (by simpa [columnTree] using short) formats, columnTree, List.zipWith_map,
    List.zipWith_self]
  rfl

/-- The types survive unless all lengths are taken for a length or for a type, and
one of them wrongly. -/
theorem survives_iff (exact : ∀ n, -2 ^ 31 ≤ n → n < 2 ^ 31 → scan n = n) :
    Survives scan relname columns ↔
      maxAttrs ≤ columns.length ∨ (∃ c ∈ columns, c.2.Refused scan) ∨ ∀ c ∈ columns, c.2.Legal := by
  constructor
  · intro survives
    by_contra mistaken
    simp only [not_or, Nat.not_le] at mistaken
    obtain ⟨short, accepted, illegal⟩ := mistaken
    obtain ⟨errval, error, -⟩ := survives.refused fun both => illegal both.2
    have formats : ∀ c ∈ columns, ∃ format, parseFormatString (c.2.parsed scan).format = .ok format :=
      fun c member => parseFormatString_of_not_refused fun refused => accepted ⟨c, member, refused⟩
    have short' : (columnTree scan columns).length < maxAttrs := by rwa [columnTree, List.length_map]
    obtain ⟨attrs, result⟩ := mkAttrDescrs_accepts relname short' (List.forall_mem_map.mpr formats)
    rw [result] at error
    cases error
  · intro condition
    refine ⟨accepts_legal exact, fun unfit => ?_⟩
    cases result : mkAttrDescrs relname maxAttrs (columnTree scan columns) with
    | error errval => exact ⟨errval, rfl, errval.code_neg⟩
    | ok attrs =>
      obtain ⟨short, formats⟩ := mkAttrDescrs_inv result
      rw [columnTree, List.length_map] at short
      rcases condition with long | ⟨c, member, refused⟩ | legal
      · omega
      · obtain ⟨format, parsed⟩ := formats _ (List.mem_map.mpr ⟨c, member, rfl⟩)
        exact absurd parsed (parseFormatString_refused refused format)
      · exact absurd ⟨short, legal⟩ unfit

/-- Columns of the three types, the longest string among them, and a length that is
refused. -/
theorem survives_some : Survives id [97] [([98], .int), ([99], .char 255), ([100], .real)] ∧
    Survives id [97] [([98], .char 0)] :=
  ⟨(survives_iff fun _ _ _ => rfl).mpr (.inr (.inr (by decide))),
    (survives_iff fun _ _ _ => rfl).mpr
      (.inr (.inl ⟨_, List.mem_singleton_self _, by decide, by decide, by decide⟩))⟩

/-- `CHAR(-23)` is taken for `INT`, and `CHAR(-26)` for `REAL`. -/
theorem negative_length_accepted : ¬ Survives id [97] [([98], .char (-23))] ∧
    mkAttrDescrs [97] maxAttrs (columnTree id [([98], .char (-23)), ([99], .char (-26))]) =
      .ok [⟨[97], [98], 1, 4, none⟩, ⟨[97], [99], 2, 4, none⟩] := by
  refine ⟨fun survives => ?_, rfl⟩
  obtain ⟨errval, error, -⟩ := survives.refused (by decide)
  cases error

end Columns

inductive ValueNode
  | int (ival : Int)
  | float (rval : Nat)
  | string (sval : Name)
deriving DecidableEq, Repr

namespace ValueNode

def typeOf : ValueNode → Datatype
  | int _ => .integer
  | float _ => .float
  | string _ => .string

def bufferSize : Nat := 255

/-- What `sprintf` prints; `printf` is its `"%f"`. -/
def printed (printf : Nat → Name) : ValueNode → Name
  | int ival => formatInt ival
  | float rval => printf rval
  | string sval => sval

/-- The bytes that are stored into the array. -/
def stored (printf : Nat → Name) (node : ValueNode) : List UInt8 := node.printed printf ++ [0]

/-- The copy of the text; there is none if the array overflows. -/
def valueOf (printf : Nat → Name) (node : ValueNode) : Option Name :=
  if (node.stored printf).length ≤ bufferSize then some (cstring (node.stored printf)) else none

def value (printf : Nat → Name) (node : ValueNode) : Value := ⟨node.typeOf, node.printed printf⟩

/-- The nodes for the integers and strings of the scanner. -/
inductive Scanned : ValueNode → Prop
  | int {ival : Int} (low : -2 ^ 31 ≤ ival) (high : ival < 2 ^ 31) : Scanned (.int ival)
  | string {charptr charptr' : Nat} {text : List UInt8} {copy : Scanner.Pooled}
      (pooled : Scanner.getQstring charptr text = some (copy, charptr')) : Scanned (.string copy.text)

/-- The text fits into the array, and a string comes out unchanged. -/
def Fits (printf : Nat → Name) (node : ValueNode) : Prop :=
  (node.stored printf).length ≤ bufferSize ∧ ∀ sval, node = .string sval →
    node.valueOf printf = some sval

theorem pooled_terminated {charptr charptr' : Nat} {text : List UInt8} {copy : Scanner.Pooled}
    (pooled : Scanner.getQstring charptr text = some (copy, charptr')) : 0 ∉ copy.text := by
  have texts : copy.text = cstring ((text ++ [0]).take (text.length + 1)) := by
    rw [Scanner.getQstring, Scanner.mkString_eq rfl] at pooled
    split at pooled
    · cases pooled
      rfl
    · cases pooled
  rw [texts]
  intro zero
  simpa using List.mem_takeWhile_imp zero

/-- Eleven characters are enough for a number. -/
theorem formatInt_length_le {v : Int} (low : -2 ^ 31 ≤ v) (high : v < 2 ^ 31) :
    (formatInt v).length ≤ 11 := by
  have digits := decimal_length_le (k := 9) v.natAbs (by omega)
  unfold formatInt
  split
  · rw [List.length_cons]
    omega
  · omega

/-- Numbers fit, and so do strings of at most 254 characters. -/
theorem fits_iff (printf : Nat → Name) {node : ValueNode} (scanned : Scanned node) :
    node.Fits printf ↔ ∀ sval, node = .string sval → sval.length ≤ 254 := by
  cases scanned with
  | int low high =>
    have short := formatInt_length_le low high
    refine iff_of_true ⟨?_, nofun⟩ nofun
    rw [stored, printed, List.length_append, List.length_singleton, bufferSize]
    omega
  | @string charptr charptr' text copy pooled =>
    have room : (stored printf (.string copy.text)).length ≤ bufferSize ↔ copy.text.length ≤ 254 := by
      rw [stored, printed, List.length_append, List.length_singleton, bufferSize]
      omega
    have unchanged : cstring (stored printf (.string copy.text)) = copy.text :=
      Scanner.cstring_of_terminated (pooled_terminated pooled)
    rw [Fits, room, valueOf, unchanged]
    constructor
    · rintro ⟨short, -⟩ _ ⟨⟩
      exact short
    · intro short
      refine ⟨short _ rfl, ?_⟩
      rintro _ ⟨⟩
      rw [if_pos (room.mpr (short _ rfl))]

def letters (n : Nat) : Name := List.replicate n 97

theorem letters_pooled {n : Nat} (room : n < 5000) :
    Scanner.getQstring 0 (letters n) = some (⟨0, letters n⟩, 0 + (letters n).length + 1) := by
  refine Scanner.getQstring_eq (fun zero => ?_) ?_
  · exact absurd (List.eq_of_mem_replicate zero) (by decide)
  · rw [letters, List.length_replicate, Scanner.maxChar]
    omega

/-- The number and the string with the longest texts that fit. -/
theorem fits_longest : (ValueNode.int (-2147483648)).Fits (fun _ => []) ∧
    (ValueNode.string (letters 254)).Fits fun _ => [] := by
  refine ⟨(fits_iff _ (.int (by decide) (by decide))).mpr nofun,
    (fits_iff _ (.string (letters_pooled (n := 254) (by decide)))).mpr ?_⟩
  rintro _ ⟨⟩
  exact (List.length_replicate ..).le

/-- A string of 255 characters that `INSERT` accepts needs 256 bytes. -/
theorem longest_insert_overflows :
    Scanned (.string (letters 255)) ∧
    (∃ attrs, mkInsAttrs [97] maxAttrs
      [⟨[98], (ValueNode.string (letters 255)).value fun _ => []⟩] = .ok attrs) ∧
    ¬ (ValueNode.string (letters 255)).Fits fun _ => [] := by
  have length : (letters 255).length = 255 := List.length_replicate ..
  refine ⟨.string (letters_pooled (n := 255) (by decide)),
    ⟨[⟨[97], [98], 0, -1, some (letters 255)⟩], ?_⟩, fun fits => ?_⟩
  · simp only [mkInsAttrs, maxAttrs, value, typeOf, printed, maxStringLen, length]
    rfl
  · have room := fits.1
    rw [stored, printed, List.length_append, length, bufferSize] at room
    exact absurd room (by decide)

end ValueNode
end Parser
end Minirel
