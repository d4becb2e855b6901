import Minirel.JoinHT.Agreement
import Minirel.Catalog

/-! The helpers of the scanner (parser/scanhelp.C): the pool of strings and the
classification of identifiers. A string in the pool is its position and its
text. -/
namespace Minirel

namespace Scanner

/-- `MAXCHAR`, the size of the pool. -/
def maxChar : Nat := 5000

/-- `MAXSTRINGLEN` of the scanner, the size of the buffer of `get_id`. -/
def maxStringLen : Nat := 50

structure Pooled where
  position : Nat
  text : Name
deriving DecidableEq, Repr

/-- The position of `len` new characters and the new `charptr`; without room the
process exits. -/
def stringAlloc (charptr len : Nat) : Option (Nat × Nat) :=
  if charptr + len > maxChar then none else some (charptr, charptr + len)

/-- `strncpy` of `len + 1` characters. -/
def mkString (charptr : Nat) (s : List UInt8) (len : Nat) : Option (Pooled × Nat) := do
  let (copy, charptr) ← stringAlloc charptr (len + 1)
  return (⟨copy, cstring (s.take (len + 1))⟩, charptr)

/-- The text between the quotes, which is `len - 2` long. -/
def getQstring (charptr : Nat) (text : List UInt8) : Option (Pooled × Nat) :=
  mkString charptr (text ++ [0]) text.length

/-- `'A'` to `'Z'` become small. -/
def lowerChar (c : UInt8) : UInt8 := if c ≥ 65 ∧ c ≤ 90 then c + 32 else c

/-- The loop of `lower`: the length of `dst`, and the bytes stored there from the
current position on. The last of them is the terminator. -/
def lowerLoop (max : Nat) : Nat → List UInt8 → Nat × List UInt8
  | len, [] => (len, [0])
  | len, c :: src =>
    if len < max ∧ c ≠ 0 then
      let (last, dst) := lowerLoop max (len + 1) src
      (last, lowerChar c :: dst)
    else (len, [0])

def lower (max : Nat) (src : List UInt8) : Nat × List UInt8 := lowerLoop max 0 src

/-- The tokens of the reserved words. -/
inductive Reserved
  | select | insert | delete | create | destroy | build | rebuild | drop | load | print | help | quit
  | into | where | primary | numbuckets | all | from | as | table | and | or | not | values
  | intType | realType | charType
deriving DecidableEq, Repr

/-- The comparisons of `get_id`, in their order. -/
def reservedWords : List (Name × Reserved) := [
  (chars "select", .select), (chars "insert", .insert), (chars "delete", .delete),
    (chars "create", .create),
  (chars "destroy", .destroy), (chars "buildindex", .build), (chars "rebuildindex", .rebuild),
  (chars "dropindex", .drop), (chars "load", .load), (chars "print", .print), (chars "help", .help),
  (chars "quit", .quit), (chars "into", .into), (chars "where", .where),
    (chars "primary", .primary),
  (chars "numbuckets", .numbuckets), (chars "all", .all), (chars "from", .from), (chars "as", .as),
  (chars "table", .table), (chars "and", .and), (chars "or", .or), (chars "not", .not),
    (chars "values", .values),
  (chars "int", .intType), (chars "real", .realType), (chars "char", .charType)]

inductive Token
  | noToken
  | reserved (word : Reserved)
  | string (copy : Pooled)
deriving DecidableEq, Repr

/-- `get_id`, with the `charptr` before and after. -/
def getId (charptr : Nat) (s : List UInt8) : Option (Token × Nat) :=
  let (len, string) := lower maxStringLen s
  if len = maxStringLen then some (.noToken, charptr)
  else
    match reservedWords.find? fun word => strcmp string word.1 = .eq with
    | some word => some (.reserved word.2, charptr)
    | none => do
      let (copy, charptr) ← mkString charptr s len
      return (.string copy, charptr)

section Identifiers
variable {s : List UInt8} {charptr : Nat}

/-- The loop stops at the terminator or when the buffer is full. -/
theorem lowerLoop_spec (max len : Nat) (terminated : 0 ∉ s) :
    lowerLoop max len s =
      (len + min s.length (max - len), (s.take (max - len)).map lowerChar ++ [0]) := by
  induction s generalizing len with
  | nil => simp [lowerLoop]
  | cons c s ih =>
    rw [List.mem_cons, not_or] at terminated
    rw [lowerLoop]
    by_cases room : len < max
    · obtain ⟨more, left⟩ : ∃ more, max - len = more + 1 := ⟨max - len - 1, by omega⟩
      have next : max - (len + 1) = more := by omega
      rw [if_pos ⟨room, Ne.symm terminated.1⟩, ih (len + 1) terminated.2, left, next]
      simp only [List.length_cons, List.take_succ_cons, List.map_cons, List.cons_append,
        Prod.mk.injEq, and_true]
      omega
    · have full : max - len = 0 := by omega
      rw [if_neg fun both => room both.1, full]
      simp

theorem lowerChar_ne_zero {c : UInt8} (more : c ≠ 0) : lowerChar c ≠ 0 := by
  unfold lowerChar
  split
  next letter =>
    obtain ⟨low, high⟩ := letter
    intro zero
    have value := congrArg UInt8.toNat zero
    rw [UInt8.toNat_add] at value
    rw [ge_iff_le, UInt8.le_iff_toNat_le] at low
    rw [UInt8.le_iff_toNat_le] at high
    simp at value low high
    omega
  next => exact more

theorem cstring_of_terminated {t : List UInt8} (terminated : 0 ∉ s) :
    cstring (s ++ 0 :: t) = s := by
  rw [cstring_open terminated, cstring_zero, List.append_nil]

/-- The comparisons ask whether the text is the word, apart from its case. -/
theorem strcmp_lowered (terminated : 0 ∉ s) {word : Name × Reserved}
    (member : word ∈ reservedWords) :
    strcmp (s.map lowerChar ++ [0]) word.1 = .eq ↔ s.map lowerChar = word.1 := by
  have lowered : 0 ∉ s.map lowerChar := by
    intro zero
    obtain ⟨c, inside, ends⟩ := List.mem_map.mp zero
    exact lowerChar_ne_zero (fun null => terminated (null ▸ inside)) ends
  have whole : ∀ word ∈ reservedWords, cstring word.1 = word.1 := by decide
  rw [strcmp_eq_iff, cstring_of_terminated lowered, whole word member]

theorem reserved_unique : ∀ word ∈ reservedWords, ∀ other ∈ reservedWords,
    word.1 = other.1 ∨ word.2 = other.2 → word = other := by decide

theorem reserved_short : ∀ word ∈ reservedWords, word.1.length < maxStringLen := by decide

theorem lower_short (terminated : 0 ∉ s) (short : s.length < maxStringLen) :
    lower maxStringLen s = (s.length, s.map lowerChar ++ [0]) := by
  rw [lower, lowerLoop_spec maxStringLen 0 terminated, Nat.sub_zero, Nat.zero_add,
    Nat.min_eq_left short.le, List.take_of_length_le short.le]

theorem getId_word (terminated : 0 ∉ s) {word : Name × Reserved} (member : word ∈ reservedWords)
    (same : s.map lowerChar = word.1) : getId charptr s = some (.reserved word.2, charptr) := by
  have short : s.length < maxStringLen := by
    have length := reserved_short word member
    rwa [← same, List.length_map] at length
  have found : reservedWords.find? (fun word => strcmp (s.map lowerChar ++ [0]) word.1 = .eq) =
      some word := by
    cases search : reservedWords.find? (fun word => strcmp (s.map lowerChar ++ [0]) word.1 = .eq) with
    | none =>
      have unmatched := List.find?_eq_none.mp search word member
      exact absurd ((strcmp_lowered terminated member).mpr same) (by simpa using unmatched)
    | some other =>
      have there := List.mem_of_find?_eq_some search
      have matched := (strcmp_lowered terminated there).mp (by simpa using List.find?_some search)
      rw [reserved_unique other there word member (.inl (matched.symm.trans same))]
  simp only [getId, lower_short terminated short, found]
  rw [if_neg short.ne]

theorem mkString_eq {len : Nat} {text : Name} (copied : cstring (s.take (len + 1)) = text) :
    mkString charptr s len =
      if charptr + len + 1 ≤ maxChar then some (⟨charptr, text⟩, charptr + len + 1) else none := by
  by_cases room : charptr + len + 1 ≤ maxChar
  · have fits : ¬charptr + (len + 1) > maxChar := by omega
    rw [if_pos room]
    simp [mkString, stringAlloc, fits, copied, Nat.add_assoc]
  · have full : charptr + (len + 1) > maxChar := by omega
    rw [if_neg room]
    simp [mkString, stringAlloc, full]

theorem getQstring_eq (terminated : 0 ∉ s) (room : charptr + s.length + 1 ≤ maxChar) :
    getQstring charptr s = some (⟨charptr, s⟩, charptr + s.length + 1) := by
  have copied : cstring ((s ++ [0]).take (s.length + 1)) = s := by
    rw [List.take_of_length_le (by simp), cstring_of_terminated terminated]
  rw [getQstring, mkString_eq copied, if_pos room]

theorem getId_string (terminated : 0 ∉ s) (short : s.length < maxStringLen)
    (other : ∀ word ∈ reservedWords, s.map lowerChar ≠ word.1) :
    getId charptr s = if charptr + s.length + 1 ≤ maxChar then
      some (.string ⟨charptr, s⟩, charptr + s.length + 1) else none := by
  have found : reservedWords.find? (fun word => strcmp (s.map lowerChar ++ [0]) word.1 = .eq) =
      none := by
    refine List.find?_eq_none.mpr fun word member => ?_
    simpa using fun matched => other word member ((strcmp_lowered terminated member).mp matched)
  have copied : cstring (s.take (s.length + 1)) = s := by
    have whole := cstring_open terminated (u := [])
    rw [List.take_of_length_le (by omega)]
    simpa using whole
  simp only [getId, lower_short terminated short, found]
  rw [if_neg short.ne, mkString_eq copied]
  split <;> rfl

/-- What is expected of `get_id`: it stays within its buffer and returns; the
token is that of a text that is too long, of a reserved word, or else of a string
with a new copy of the text. -/
structure Exact (charptr : Nat) (s : List UInt8) : Prop where
  inBounds : (lower maxStringLen s).2.length ≤ maxStringLen
  returns : ∃ token charptr', getId charptr s = some (token, charptr') ∧
    (token = .noToken ↔ maxStringLen ≤ s.length) ∧
    (∀ word ∈ reservedWords, token = .reserved word.2 ↔ s.map lowerChar = word.1) ∧
    (s.length < maxStringLen → (∀ word ∈ reservedWords, s.map lowerChar ≠ word.1) →
      token = .string ⟨charptr, s⟩ ∧ charptr' = charptr + s.length + 1)

theorem lower_inBounds (terminated : 0 ∉ s) (short : s.length < maxStringLen) :
    (lower maxStringLen s).2.length ≤ maxStringLen := by
  rw [lower_short terminated short, List.length_append, List.length_map, List.length_singleton]
  exact short

theorem Exact.of_word (charptr : Nat) (terminated : 0 ∉ s) {word : Name × Reserved}
    (member : word ∈ reservedWords) (same : s.map lowerChar = word.1)
    (short : s.length < maxStringLen) : Exact charptr s := by
  refine ⟨lower_inBounds terminated short, _, _, getId_word terminated member same,
    by simpa using short,
    fun other there => ⟨fun tokens => ?_, fun same' => ?_⟩, fun _ none =>
      absurd same (none word member)⟩
  · rw [same, reserved_unique word member other there (.inr (Token.reserved.inj tokens))]
  · rw [reserved_unique word member other there (.inl (same.symm.trans same'))]

theorem Exact.of_string (terminated : 0 ∉ s) (short : s.length < maxStringLen)
    (other : ∀ word ∈ reservedWords, s.map lowerChar ≠ word.1)
    (room : charptr + s.length + 1 ≤ maxChar) :
    Exact charptr s := by
  have returned := @getId_string s charptr terminated short other
  rw [if_pos room] at returned
  exact ⟨lower_inBounds terminated short, _, _, returned, by simpa using short,
    fun word member => iff_of_false nofun (other word member), fun _ _ => ⟨rfl, rfl⟩⟩

/-- That is so if the text is short enough and, unless it is reserved, fits into
the pool. A longer text has its terminator stored behind the buffer. -/
theorem getId_exact_iff (charptr : Nat) (terminated : 0 ∉ s) :
    Exact charptr s ↔ s.length < maxStringLen ∧
      ((∃ word ∈ reservedWords, s.map lowerChar = word.1) ∨ charptr + s.length + 1 ≤ maxChar) := by
  constructor
  · rintro ⟨inBounds, token, charptr', returned, -, -, -⟩
    have short : s.length < maxStringLen := by
      by_contra long
      rw [lower, lowerLoop_spec maxStringLen 0 terminated] at inBounds
      simp at inBounds
      omega
    refine ⟨short, or_iff_not_imp_left.mpr fun unreserved => ?_⟩
    have other : ∀ word ∈ reservedWords, s.map lowerChar ≠ word.1 := fun word member same =>
      unreserved ⟨word, member, same⟩
    by_contra full
    rw [getId_string terminated short other, if_neg full] at returned
    cases returned
  · rintro ⟨short, room⟩
    by_cases reserved : ∃ word ∈ reservedWords, s.map lowerChar = word.1
    · obtain ⟨word, member, same⟩ := reserved
      exact .of_word charptr terminated member same short
    · exact .of_string terminated short (fun word member same => reserved ⟨word, member, same⟩)
        (room.resolve_left reserved)

/-- A reserved word in mixed case, and an identifier that starts with one. -/
theorem getId_exact_mixed_case : Exact 5000 (chars "SeLeCt") ∧ Exact 0 (chars "selected") :=
  ⟨(getId_exact_iff 5000 (by decide)).mpr (by decide), (getId_exact_iff 0 (by decide)).mpr (by decide)⟩

/-- Fifty characters need 51 bytes of the buffer. -/
theorem fifty_characters_overflow : ¬ Exact 0 (List.replicate 50 97) ∧
    getId 0 (List.replicate 50 97) = some (.noToken, 0) := by
  refine ⟨fun exact => absurd exact.inBounds (by decide), by decide⟩

end Identifiers
end Scanner
end Minirel
