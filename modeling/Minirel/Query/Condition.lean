import Minirel.Filter.Order
import Minirel.Query.Join

/-! What a condition says of a field of four bytes, depending on the type by
which the field and the literal are read. -/
namespace Minirel
open ByteMemory

/-- An order tells some number from the one half a turn away. -/
theorem order_splits {op : Operator} (order : op ≠ .eq ∧ op ≠ .ne) (a n step : Int) (low : 0 < step)
    (high : step < 2 ^ 31) :
    ∃ b ∈ [a, a + step], op.holds (some (intDiff b n)) ≠
      op.holds (some (intDiff (b - 2 ^ 31) n)) := by
  simp only [List.mem_cons, List.not_mem_nil, or_false, exists_eq_or_imp, exists_eq_left,
    intDiff, ne_eq, Bool.eq_iff_iff (b := Operator.holds _ _), Operator.holds_compare]
  rw [Int.bmod_def, Int.bmod_def, Int.bmod_def, Int.bmod_def]
  cases op with
  | eq => simp at order
  | ne => simp at order
  | lt => simp only [Operator.Relates]; omega
  | lte => simp only [Operator.Relates]; omega
  | gte => simp only [Operator.Relates]; omega
  | gt => simp only [Operator.Relates]; omega

section reading
variable {atof : Name → Nat} {type type' : Datatype} {op : Operator} {text : Name}
    {field f : List UInt8}

def verdict (atof : Name → Nat) (type : Datatype) (op : Operator) (text : Name)
    (field : List UInt8) : Bool :=
  op.holds (Filter.diff type 4 field (literal atof type text))

/-- The text and the field read as equal values. -/
def Same (atof : Name → Nat) (type : Datatype) (text : Name) (field : List UInt8) : Prop :=
  Filter.diff type 4 field (literal atof type text) = some .eq

/-- The one field of four bytes that reads as equal to a text, if there is one:
a string of less than three characters leaves bytes open, and among the floats
zeros have two patterns, infinities and NaN none. -/
def fieldOf (atof : Name → Nat) : Datatype → Name → Option (List UInt8)
  | .integer, text => some (encode 4 (atoi text))
  | .string, text => if 3 ≤ text.length then some ((text ++ [0]).take 4) else none
  | .float, text =>
    let bits : Nat := atof text % 2 ^ 32
    if bits % 2 ^ 31 = 0 ∨ bits % 2 ^ 31 ≥ 0x7F800000 then none else some (encode 4 bits)

theorem toNat_four : (4 : Int).toNat = 4 := rfl

theorem eq_encode_iff (length : field.length = 4) (value : Int) :
    field = encode 4 value ↔ (unsigned field : Int) = value % 2 ^ 32 := by
  have stored := unsigned_encode 4 value
  norm_num at stored
  refine ⟨fun same => by rw [same, stored]; norm_num, fun same =>
    unsigned_inj (by rw [length, encode_length]) ?_⟩
  norm_num at same
  omega

theorem same_integer (length : field.length = 4) : Same atof .integer text field ↔
    field = encode 4 (atoi text) := by
  have small := unsigned_lt field
  have whole : field.take 4 = field := List.take_of_length_le (by omega)
  have whole' : (encode 4 (atoi text)).take 4 = encode 4 (atoi text) := List.take_of_length_le (by simp)
  rw [length] at small
  rw [eq_encode_iff length, Same, Filter.diff, literal, Option.some.injEq, intDiff, compare_eq_iff_eq]
  simp only [toNat_four, whole, whole']
  rw [decode_encode, decode, length, Int.bmod_def, Int.bmod_def, Int.bmod_def]
  norm_num at small ⊢
  omega

theorem same_float (length : field.length = 4) : Same atof .float text field ↔
    ∃ k, floatKey (unsigned field) = some k ∧ floatKey (atof text % 2 ^ 32) = some k ∧
      k.natAbs ≠ 0x7F800000 := by
  have whole : field.take 4 = field := List.take_of_length_le (by omega)
  have bits : unsigned ((encode 4 (atof text)).take 4) = atof text % 2 ^ 32 := by
    have stored := unsigned_encode 4 (atof text)
    rw [List.take_of_length_le (by simp)]
    norm_num at stored ⊢
    omega
  simp only [Same, Filter.diff, literal, toNat_four, whole, bits, floatDiff]
  cases floatKey (unsigned field) with
  | none => simp
  | some x =>
    cases floatKey (atof text % 2 ^ 32) with
    | none => simp
    | some y =>
      by_cases same : x = y
      · by_cases infinite : x.natAbs = 0x7F800000 <;> simp [← same, infinite]
      · simp [same, Ne.symm same]

theorem strncmp_succ_eq (n : Nat) (s t : List UInt8) : strncmp (n + 1) s t = .eq ↔
    s.headD 0 = t.headD 0 ∧ (t.headD 0 = 0 ∨ strncmp n s.tail t.tail = .eq) := by
  rw [strncmp]
  generalize s.headD 0 = a
  generalize t.headD 0 = b
  by_cases same : a = b
  · by_cases ended : b = 0 <;> simp [same, ended]
  · have apart : a.toNat ≠ b.toNat := fun toNat => same (UInt8.toNat_inj.mp toNat)
    simp [same, apart]

/-- Strings are equal up to their terminators within four bytes. -/
theorem same_string_iff : Same atof .string text field ↔ strncmp 4 field text = .eq := by
  rw [Same, Filter.diff, literal, toNat_four, Option.some.injEq]

theorem exists_four (length : field.length = 4) : ∃ a b c d, field = [a, b, c, d] :=
  List.length_eq_four.mp length

theorem same_string (terminated : 0 ∉ text) (long : 3 ≤ text.length) (length : field.length = 4) :
    Same atof .string text field ↔ field = (text ++ [0]).take 4 := by
  obtain ⟨a, b, c, d, rfl⟩ := exists_four length
  obtain ⟨x, y, z, rest, rfl⟩ : ∃ x y z rest, text = x :: y :: z :: rest := by
    match text, long with
    | x :: y :: z :: rest, _ => exact ⟨x, y, z, rest, rfl⟩
  simp only [List.mem_cons, not_or, ← ne_eq, ne_comm] at terminated
  simp only [same_string_iff, strncmp_succ_eq, List.headD_cons, List.tail_cons, terminated, false_or]
  cases rest with
  | nil => simp [strncmp]
  | cons w rest => simp [strncmp]

/-- The last byte comes behind the terminator of a short string. -/
theorem same_string_short (short : text.length < 3) (last : UInt8) :
    Same atof .string text ((text ++ [0, 0, 0]).take 3 ++ [last]) := by
  match text, short with
  | [], _ => simp [same_string_iff, strncmp_succ_eq]
  | [x], _ => simp [same_string_iff, strncmp_succ_eq]
  | [x, y], _ => simp [same_string_iff, strncmp_succ_eq]

theorem floatKey_eq_some {bits : Nat} {k : Int} : floatKey bits = some k ↔
    bits % 2 ^ 31 ≤ 0x7F800000 ∧
      ((bits < 2 ^ 31 ∧ k = (bits % 2 ^ 31 : Nat)) ∨
        (2 ^ 31 ≤ bits ∧ k = -(bits % 2 ^ 31 : Nat))) := by
  unfold floatKey
  simp only
  split
  next large => simp; omega
  next small =>
    split
    next positive => simp; omega
    next negative => simp; omega

theorem same_float_one (length : field.length = 4) (low : atof text % 2 ^ 32 % 2 ^ 31 ≠ 0)
    (high : atof text % 2 ^ 32 % 2 ^ 31 < 0x7F800000) :
    Same atof .float text field ↔ field = encode 4 (atof text % 2 ^ 32 : Nat) := by
  have small := unsigned_lt field
  rw [length] at small
  rw [same_float length, eq_encode_iff length]
  simp only [floatKey_eq_some]
  constructor
  · rintro ⟨k, first, second, _⟩
    omega
  · intro same
    by_cases positive : atof text % 2 ^ 32 < 2 ^ 31
    · exact ⟨_, ⟨by omega, .inl ⟨by omega, rfl⟩⟩, ⟨by omega, .inl ⟨positive, by omega⟩⟩, by omega⟩
    · exact ⟨_, ⟨by omega, .inr ⟨by omega, rfl⟩⟩, ⟨by omega, .inr ⟨by omega, by omega⟩⟩, by omega⟩

/-- Only a zero equals a zero, and nothing equals what is no number. -/
theorem same_float_zero (special : atof text % 2 ^ 32 % 2 ^ 31 = 0 ∨
    0x7F800000 ≤ atof text % 2 ^ 32 % 2 ^ 31) (length : field.length = 4)
      (same : Same atof .float text field) : unsigned field % 2 ^ 31 = 0 ∧
      ∀ zero : List UInt8, zero.length = 4 → unsigned zero % 2 ^ 31 = 0 →
        Same atof .float text zero := by
  rw [same_float length] at same
  simp only [floatKey_eq_some] at same
  obtain ⟨k, first, second, finite⟩ := same
  refine ⟨by omega, fun zero length' none => ?_⟩
  rw [same_float length']
  simp only [floatKey_eq_some]
  exact ⟨0, ⟨by omega, by omega⟩, ⟨by omega, by omega⟩, by decide⟩

/-- What equality with a text can be: one field, or a class of them. -/
inductive Reading (atof : Name → Nat) (text : Name) : Datatype → Prop
  | one {type : Datatype} {f : List UInt8} (field : fieldOf atof type text = some f)
      (length : f.length = 4)
      (same : ∀ field, field.length = 4 → (Same atof type text field ↔ field = f)) :
        Reading atof text type
  | short {front : List UInt8} (field : fieldOf atof .string text = none) (length : front.length = 3)
      (same : ∀ last, Same atof .string text (front ++ [last])) : Reading atof text .string
  | zeros (field : fieldOf atof .float text = none)
      (same : ∀ field, field.length = 4 → Same atof .float text field →
        (field = [0, 0, 0, 0] ∨ field = [0, 0, 0, 128]) ∧
        Same atof .float text [0, 0, 0, 0] ∧ Same atof .float text [0, 0, 0, 128]) :
          Reading atof text .float

theorem reading (atof : Name → Nat) (type : Datatype) (terminated : 0 ∉ text) :
    Reading atof text type := by
  cases type with
  | integer => exact .one rfl (encode_length ..) fun field length => same_integer length
  | string =>
    by_cases long : 3 ≤ text.length
    · exact .one (if_pos long) (by simp; omega) fun field length => same_string terminated long length
    · exact .short (if_neg long) (by simp) fun last => same_string_short (by omega) last
  | float =>
    by_cases special : atof text % 2 ^ 32 % 2 ^ 31 = 0 ∨ atof text % 2 ^ 32 % 2 ^ 31 ≥ 0x7F800000
    · refine .zeros (if_pos special) fun field length same => ?_
      obtain ⟨zero, zeros⟩ := same_float_zero special length same
      refine ⟨?_, zeros _ rfl (by decide), zeros _ rfl (by decide)⟩
      have small := unsigned_lt field
      rw [length] at small
      have either : unsigned field = 0 ∨ unsigned field = 2 ^ 31 := by omega
      exact either.imp (fun same => unsigned_inj length (same.trans (by decide)))
        (fun same => unsigned_inj length (same.trans (by decide)))
    · refine .one (if_neg special) (encode_length ..) fun field length =>
        same_float_one length ?_ ?_ <;> omega

theorem same_of_fieldOf (terminated : 0 ∉ text) (one : fieldOf atof type text = some f)
    (length : field.length = 4) :
    Same atof type text field ↔ field = f := by
  cases reading atof type terminated with
  | one field' _ same =>
    cases field'.symm.trans one
    exact same field length
  | short none => cases none.symm.trans one
  | zeros none => cases none.symm.trans one

theorem fieldOf_of_same (terminated : 0 ∉ text) (length : f.length = 4)
    (same : ∀ field, field.length = 4 → (Same atof type text field ↔ field = f)) :
    fieldOf atof type text = some f := by
  cases reading atof type terminated with
  | @one _ f' field _ same' =>
    rw [field, (same' f length).mp ((same f length).mpr rfl)]
  | @short front _ size all =>
    have first : front ++ [0] = f := (same _ (by simp [size])).mp (all 0)
    have second : front ++ [1] = f := (same _ (by simp [size])).mp (all 1)
    simpa using first.trans second.symm
  | zeros _ zeros =>
    obtain ⟨_, zero, zero'⟩ := zeros f length ((same f length).mpr rfl)
    have differ := ((same _ rfl).mp zero).trans ((same _ rfl).mp zero').symm
    exact absurd differ (by decide)

/-- A class of strings is not one of zeros. -/
theorem not_short_zeros {front : List UInt8} (length : front.length = 3)
    (zero : front ++ [1] = [0, 0, 0, 0] ∨ front ++ [1] = [0, 0, 0, 128]) : False := by
  obtain ⟨a, b, c, rfl⟩ := List.length_eq_three.mp length
  simp at zero

/-- Readings by two types agree on equality if they agree on a single field. -/
theorem same_iff_fieldOf (terminated : 0 ∉ text) (apart : type ≠ type') :
    (∀ field, field.length = 4 → (Same atof type text field ↔ Same atof type' text field)) ↔
      ∃ f, fieldOf atof type text = some f ∧ fieldOf atof type' text = some f := by
  refine ⟨fun agree => ?_, fun ⟨f, one, one'⟩ field length => ?_⟩
  · have single {f : List UInt8} (size : f.length = 4)
        (same : ∀ field, field.length = 4 → (Same atof type text field ↔ field = f)) :
          fieldOf atof type' text = some f :=
      fieldOf_of_same terminated size fun field length =>
        (agree field length).symm.trans (same field length)
    have single' {f : List UInt8} (size : f.length = 4)
        (same : ∀ field, field.length = 4 → (Same atof type' text field ↔ field = f)) :
          fieldOf atof type text = some f :=
      fieldOf_of_same terminated size fun field length => (agree field length).trans (same field length)
    cases reading atof type terminated with
    | one field size same => exact ⟨_, field, single size same⟩
    | @short front _ size all =>
      cases reading atof type' terminated with
      | one field' size' same' => exact ⟨_, single' size' same', field'⟩
      | short => exact absurd rfl apart
      | zeros _ zeros =>
        have length : (front ++ [1]).length = 4 := by simp [size]
        exact (not_short_zeros size (zeros _ length ((agree _ length).mp (all 1))).1).elim
    | zeros _ zeros =>
      cases reading atof type' terminated with
      | one field' size' same' => exact ⟨_, single' size' same', field'⟩
      | @short front _ size all =>
        have length : (front ++ [1]).length = 4 := by simp [size]
        exact (not_short_zeros size (zeros _ length ((agree _ length).mpr (all 1))).1).elim
      | zeros => exact absurd rfl apart
  · rw [same_of_fieldOf terminated one length, same_of_fieldOf terminated one' length]

theorem verdict_eq_iff_same (equality : op = .eq ∨ op = .ne) : verdict atof type op text field =
    verdict atof type' op text field ↔
      (Same atof type text field ↔ Same atof type' text field) := by
  rw [verdict, verdict, Same, Same, Bool.eq_iff_iff]
  rcases equality with rfl | rfl
  · simp [Operator.holds]
  · simp [Operator.holds, not_iff_not]

theorem verdict_integer (length : field.length = 4) : verdict atof .integer op text field =
    op.holds (some (intDiff (decode field) (decode ((encode 4 (atoi text)).take 4)))) := by
  rw [verdict, Filter.diff, toNat_four, List.take_of_length_le (by omega : field.length ≤ 4), literal]

/-- A reading that takes numbers for those half a turn away is not the integer
reading, by any order. -/
theorem order_integer (order : op ≠ .eq ∧ op ≠ .ne) (other : List UInt8 → Bool)
    (low low' high high' : List UInt8)
    (lengths : low.length = 4 ∧ low'.length = 4 ∧ high.length = 4 ∧ high'.length = 4)
    (above : decode low < decode low' ∧ decode low' < decode low + 2 ^ 31)
    (turned : decode high = decode low - 2 ^ 31 ∧ decode high' = decode low' - 2 ^ 31)
    (alike : other low = other high ∧ other low' = other high') :
    ∃ field, field.length = 4 ∧ verdict atof .integer op text field ≠ other field := by
  obtain ⟨length₁, length₂, length₃, length₄⟩ := lengths
  by_contra agree
  push Not at agree
  obtain ⟨b, member, splits⟩ := order_splits order (decode low) (decode ((encode 4 (atoi text)).take 4))
    (decode low' - decode low) (by omega) (by omega)
  have either : b = decode low ∨ b = decode low' := by
    simp only [List.mem_cons, List.not_mem_nil, or_false] at member
    omega
  rcases either with rfl | rfl
  · rw [← turned.1, ← verdict_integer length₁, ← verdict_integer length₃, agree _ length₁,
      agree _ length₃] at splits
    exact splits alike.1
  · rw [← turned.2, ← verdict_integer length₂, ← verdict_integer length₄, agree _ length₂,
      agree _ length₄] at splits
    exact splits alike.2

/-- Strings end at a NUL. -/
theorem order_integer_string (atof : Name → Nat) (text : Name) (order : op ≠ .eq ∧ op ≠ .ne) :
    ∃ field, field.length = 4 ∧
      verdict atof .integer op text field ≠ verdict atof .string op text field := by
  have ended (rest rest' : List UInt8) :
      verdict atof .string op text (0 :: rest) = verdict atof .string op text (0 :: rest') := by
    simp [verdict, Filter.diff, toNat_four, strncmp]
  exact order_integer order _ [0, 0, 0, 0] [0, 1, 0, 0] [0, 0, 0, 128] [0, 1, 0, 128]
    (by decide) (by decide) (by decide) ⟨ended .., ended ..⟩

/-- NaN is in no order. -/
theorem verdict_nan (order : op ≠ .eq ∧ op ≠ .ne)
    (nan : floatKey (unsigned (field.take 4)) = none) :
    verdict atof .float op text field = false := by
  simp only [verdict, Filter.diff, toNat_four, floatDiff, nan]
  cases op <;> simp_all [Operator.holds]

theorem order_integer_float (order : op ≠ .eq ∧ op ≠ .ne) :
    ∃ field, field.length = 4 ∧
      verdict atof .integer op text field ≠ verdict atof .float op text field := by
  refine order_integer order _ [0, 0, 192, 127] [1, 0, 192, 127] [0, 0, 192, 255] [1, 0, 192, 255]
    (by decide) (by decide) (by decide) ⟨?_, ?_⟩
  · rw [verdict_nan order (by decide), verdict_nan order (by decide)]
  · rw [verdict_nan order (by decide), verdict_nan order (by decide)]

/-- NaN patterns start with any character. -/
theorem order_string_float (order : op ≠ .eq ∧ op ≠ .ne) {c : UInt8} (low : 0 < c)
    (high : c < 128) :
    ∃ field, field.length = 4 ∧ verdict atof .string op (c :: text) field ≠
      verdict atof .float op (c :: text) field := by
  have positive : (0 : UInt8).toNat < c.toNat := UInt8.lt_iff_toNat_lt.mp low
  have ascii : c.toNat < (255 : UInt8).toNat := Nat.lt_trans (UInt8.lt_iff_toNat_lt.mp high) (by decide)
  have below (rest : List UInt8) : strncmp 4 (0 :: rest) (c :: text) = .lt := by
    rw [strncmp, List.headD_cons, List.headD_cons, if_pos fun same => by simp [← same] at positive]
    exact compare_lt_iff_lt.mpr positive
  have above (rest : List UInt8) : strncmp 4 (255 :: rest) (c :: text) = .gt := by
    rw [strncmp, List.headD_cons, List.headD_cons, if_pos fun same => by simp [← same] at ascii]
    exact compare_gt_iff_gt.mpr ascii
  cases op with
  | eq => exact absurd rfl order.1
  | ne => exact absurd rfl order.2
  | lt => exact ⟨[0, 0, 192, 127], rfl, by
      rw [verdict_nan order (by decide), verdict, Filter.diff, toNat_four, literal, below]; decide⟩
  | lte => exact ⟨[0, 0, 192, 127], rfl, by
      rw [verdict_nan order (by decide), verdict, Filter.diff, toNat_four, literal, below]; decide⟩
  | gt => exact ⟨[255, 0, 192, 127], rfl, by
      rw [verdict_nan order (by decide), verdict, Filter.diff, toNat_four, literal, above]; decide⟩
  | gte => exact ⟨[255, 0, 192, 127], rfl, by
      rw [verdict_nan order (by decide), verdict, Filter.diff, toNat_four, literal, above]; decide⟩

/-- A literal of a condition as the parser hands it on: a C string. A `float`
is printed as a number, so that its text starts with an ASCII character. -/
structure Literal where
  type : Datatype
  text : Name
  terminated : 0 ∉ text
  printed : type = .float → ∃ c rest, text = c :: rest ∧ c < 128

/-- An order read by two types differs on some field. -/
theorem order_apart (atof : Name → Nat) (order : op ≠ .eq ∧ op ≠ .ne) (lit : Literal)
    (numeric : type ≠ .float) (apart : type ≠ lit.type) :
    ∃ field, field.length = 4 ∧
      verdict atof type op lit.text field ≠ verdict atof lit.type op lit.text field := by
  obtain ⟨litType, text, terminated, printed⟩ := lit
  cases type with
  | float => exact absurd rfl numeric
  | integer =>
    cases litType with
    | integer => exact absurd rfl apart
    | string => exact order_integer_string atof text order
    | float => exact order_integer_float order
  | string =>
    cases litType with
    | string => exact absurd rfl apart
    | integer =>
      obtain ⟨field, length, differ⟩ := order_integer_string atof text order
      exact ⟨field, length, differ.symm⟩
    | float =>
      obtain ⟨c, rest, rfl, ascii⟩ := printed rfl
      have positive : 0 < c := UInt8.pos_iff_ne_zero.mpr fun zero => terminated (by simp [zero])
      exact order_string_float order positive ascii

/-- Readings by two types agree only on equality with one field. -/
theorem verdict_eq_iff (lit : Literal) (numeric : type ≠ .float) (apart : type ≠ lit.type) :
    (∀ field, field.length = 4 →
      verdict atof type op lit.text field = verdict atof lit.type op lit.text field) ↔
      (op = .eq ∨ op = .ne) ∧ ∃ f, fieldOf atof type lit.text = some f ∧
        fieldOf atof lit.type lit.text = some f := by
  by_cases equality : op = .eq ∨ op = .ne
  · simp only [equality, true_and, verdict_eq_iff_same equality]
    exact same_iff_fieldOf lit.terminated apart
  · obtain ⟨field, length, differ⟩ := order_apart atof (not_or.mp equality) lit numeric apart
    exact ⟨fun agree => absurd (agree field length) differ, fun both => absurd both.1 equality⟩

end reading
end Minirel
