import Mathlib.Data.List.TFAE
import Mathlib.Tactic.TFAE
import Minirel.JoinHT
import Minirel.Query.Condition
import Minirel.Sort

/-! When the four comparisons of strings agree: that of a scan, of a sort, of a
join and of the hash table. They look at different bytes: a scan stops at a
terminator or at the end of the field, a sort takes the whole field, a join and
the hash go on to a terminator even behind the field. -/
namespace Minirel

def cstring (bytes : List UInt8) : List UInt8 := bytes.takeWhile (· ≠ 0)

section cstring
variable {a b c : UInt8} {s t f g u v : List UInt8}

@[simp] theorem cstring_nil : cstring [] = [] := rfl

@[simp] theorem cstring_zero : cstring (0 :: s) = [] := by simp [cstring]

theorem cstring_cons (more : c ≠ 0) : cstring (c :: s) = c :: cstring s := by simp [cstring, more]

theorem cstring_cons_eq_iff : cstring (a :: s) = cstring (b :: t) ↔ a = b ∧
    (b = 0 ∨ cstring s = cstring t) := by
  by_cases first : a = 0
  · by_cases second : b = 0
    · simp [first, second]
    · simp [first, cstring_cons second, Ne.symm second]
  · by_cases second : b = 0
    · simp [second, first, cstring_cons first]
    · simp [second, cstring_cons first, cstring_cons second]

theorem cstring_eq_nil_iff : cstring s = [] ↔ s.headD 0 = 0 := by
  cases s <;> simp [cstring]

theorem cstring_terminated (ends : 0 ∈ f) : cstring (f ++ u) = cstring f := by
  induction f with
  | nil => simp at ends
  | cons c f ih =>
    by_cases zero : c = 0
    · rw [zero, List.cons_append, cstring_zero, cstring_zero]
    · rw [List.cons_append, cstring_cons zero, cstring_cons zero,
        ih (List.mem_of_ne_of_mem (Ne.symm zero) ends)]

theorem cstring_open (unended : 0 ∉ f) : cstring (f ++ u) = f ++ cstring u := by
  refine List.takeWhile_append_of_pos fun c member => ?_
  simpa using fun zero : c = 0 => unended (zero ▸ member)

/-- The text in a field is determined by the text that starts there. -/
theorem cstring_take : (cstring (f ++ u)).take f.length = cstring f := by
  by_cases ends : 0 ∈ f
  · rw [cstring_terminated ends]
    exact List.take_of_length_le (List.takeWhile_sublist _).length_le
  · have whole := cstring_open ends (u := [])
    rw [cstring_open ends, List.take_left]
    simpa using whole.symm

theorem compare_byte_eq_iff : compare a.toNat b.toNat = .eq ↔ a = b := by
  rw [Nat.compare_eq_eq, UInt8.toNat_inj]

theorem strcmp_eq_iff : strcmp s t = .eq ↔ cstring s = cstring t := by
  induction s generalizing t with
  | nil =>
    have order : strcmp [] t = .eq ↔ 0 = t.headD 0 := by
      rw [strcmp]
      exact compare_byte_eq_iff (a := 0)
    rw [order, cstring_nil, eq_comm, @eq_comm _ [], cstring_eq_nil_iff]
  | cons a s ih =>
    have texts : cstring t = cstring (t.headD 0 :: t.tail) := by cases t <;> simp
    rw [strcmp, texts, cstring_cons_eq_iff, ← ih]
    generalize t.headD 0 = b
    by_cases same : a = b
    · subst same
      by_cases zero : a = 0 <;> simp [zero]
    · rw [if_pos same, compare_byte_eq_iff]
      simp [same]

theorem strncmp_eq_iff (same : f.length = g.length) :
    strncmp f.length (f ++ u) (g ++ v) = .eq ↔ cstring f = cstring g := by
  induction f generalizing g with
  | nil => simp [strncmp, List.length_eq_zero_iff.mp same.symm]
  | cons a f ih =>
    obtain _ | ⟨b, g⟩ := g
    · simp at same
    · rw [cstring_cons_eq_iff, ← ih (Nat.succ.inj same)]
      exact strncmp_succ_eq ..

theorem memcmp_eq_iff (same : f.length = g.length) : memcmp f.length (f ++ u) (g ++ v) = .eq ↔
    f = g := by
  induction f generalizing g with
  | nil => simp [memcmp, List.length_eq_zero_iff.mp same.symm]
  | cons a f ih =>
    obtain _ | ⟨b, g⟩ := g
    · simp at same
    · rw [List.cons.injEq, ← ih (Nat.succ.inj same), List.length_cons, List.cons_append,
        List.cons_append, memcmp]
      by_cases equal : a = b
      · simp [equal]
      · rw [List.headD_cons, List.headD_cons, if_pos equal, compare_byte_eq_iff]
        simp [equal]

/-- The hash of a string is that of its text. -/
theorem JoinHashTbl.hashString_cstring (value : Int) :
    hashString value (cstring s) = hashString value s := by
  induction s generalizing value with
  | nil => rfl
  | cons c s ih =>
    by_cases zero : c = 0
    · simp [zero, hashString]
    · have next : (cstring s).headD 0 = s.headD 0 := by
        cases s with
        | nil => rfl
        | cons d s =>
          by_cases zero' : d = 0
          · simp [zero']
          · simp [cstring_cons zero']
      rw [cstring_cons zero, hashString, hashString, if_neg zero, if_neg zero, ih, next]

end cstring

namespace JoinHashTbl
variable {table : JoinHashTbl} {rid : RID} {tuple ptr : List UInt8}

def Fresh (table : JoinHashTbl) (rid : RID) : Prop := ∀ i, ∀ bucket ∈ (table.ht i).chain,
    bucket.rid ≠ rid

theorem insert_chain (floatMul : Nat → Nat → Int) (i : Fin table.htSize) :
    ((table.insert floatMul rid tuple).2.ht i).chain =
      if i = table.hash floatMul (tuple.drop table.joinAttr.attrOffset.toNat) then
        ⟨table.attrValue (tuple.drop table.joinAttr.attrOffset.toNat), rid⟩ :: (table.ht i).chain
      else (table.ht i).chain := by
  simp only [insert, Function.update_apply]
  split
  next same => rw [same]
  next => rfl

theorem mem_lookup_insert (floatMul : Nat → Nat → Int) (fresh : table.Fresh rid) :
    rid ∈ (table.insert floatMul rid tuple).2.lookup floatMul ptr ↔
      table.hash floatMul ptr = table.hash floatMul (tuple.drop table.joinAttr.attrOffset.toNat) ∧
        table.matched ptr ⟨table.attrValue (tuple.drop table.joinAttr.attrOffset.toNat), rid⟩ =
          true := by
  change rid ∈ (((table.insert floatMul rid tuple).2.ht (table.hash floatMul ptr)).chain.filter
    (table.matched ptr)).map JoinHashBucket.rid ↔ _
  rw [insert_chain, List.mem_map]
  constructor
  · rintro ⟨bucket, member, same⟩
    obtain ⟨member, matched⟩ := List.mem_filter.mp member
    split at member
    next slot =>
      rcases List.mem_cons.mp member with rfl | old
      · exact ⟨slot, matched⟩
      · exact absurd same (fresh _ bucket old)
    next => exact absurd same (fresh _ bucket member)
  · rintro ⟨slot, matched⟩
    rw [if_pos slot]
    exact ⟨_, List.mem_filter.mpr ⟨List.mem_cons_self, matched⟩, rfl⟩

end JoinHashTbl

/-- A string field of `length` bytes in a record, and the memory behind the
record. -/
structure StringField (length : Nat) where
  before : List UInt8
  field : List UInt8
  after : List UInt8
  memory : List UInt8
  sized : field.length = length

namespace StringField
variable {length : Nat} (x y : StringField length) (names : Name × Name)

def record : List UInt8 := x.before ++ (x.field ++ x.after)

def pointer : List UInt8 := x.field ++ (x.after ++ x.memory)

/-- The descriptor of the field; the names do not matter. -/
def desc : AttrDesc := ⟨names.1, names.2, x.before.length, 0, length⟩

/-- `matchRec` of the scan with the other field as its filter. -/
def ScanAccepts : Prop := (⟨x.before.length, length, .string, y.pointer, .eq⟩ : Filter).matchRec
    x.record = true

/-- `reccmp` of the sort. -/
def SortEqual : Prop := reccmp x.pointer y.pointer length length .string = some 0

/-- `matchRec` of the join. -/
def JoinMatches (floatSub : Nat → Nat → Int) : Prop :=
  matchRec floatSub (x.record ++ x.memory) (y.record ++ y.memory) (x.desc names) (y.desc names) = 0

/-- The tuple of the first field is found by the second. -/
def HashFinds (floatMul : Nat → Nat → Int) (table : JoinHashTbl) (rid : RID) : Prop :=
  rid ∈ (table.insert floatMul rid (x.record ++ x.memory)).2.lookup floatMul y.pointer

/-- Either the texts in the fields differ, or the fields are the same and so is
the text behind them, unless they are terminated. -/
def Settled : Prop :=
  cstring x.field ≠ cstring y.field ∨
    x.field = y.field ∧ (0 ∈ x.field ∨ cstring (x.after ++ x.memory) = cstring (y.after ++ y.memory))

theorem pointer_eq : (x.record ++ x.memory).drop x.before.length = x.pointer := by
  simp [record, pointer]

/-- The scan compares up to the terminator, within the field. -/
theorem scanAccepts_iff : x.ScanAccepts y ↔ cstring x.field = cstring y.field := by
  have within : ¬ (x.before.length : Int) + length - 1 ≥ x.record.length := by
    have sized := x.sized
    simp only [record, List.length_append]
    omega
  have field : x.record.drop x.before.length = x.field ++ x.after := by simp [record]
  have texts := strncmp_eq_iff (x.sized.trans y.sized.symm) (u := x.after) (v := y.after ++ y.memory)
  rw [x.sized] at texts
  rw [ScanAccepts, Filter.matchRec, if_neg within]
  simpa [Operator.holds, Filter.diff, field, pointer] using texts

/-- The sort compares all bytes of the field. -/
theorem sortEqual_iff : x.SortEqual y ↔ x.field = y.field := by
  have fields := memcmp_eq_iff (x.sized.trans y.sized.symm) (u := x.after ++ x.memory)
    (v := y.after ++ y.memory)
  rw [x.sized] at fields
  rw [← fields, SortEqual, reccmp, recdiff, min_self, Int.toNat_natCast, pointer, pointer]
  cases memcmp length (x.field ++ (x.after ++ x.memory)) (y.field ++ (y.after ++ y.memory)) <;> simp

/-- The join compares up to the terminator, also behind the field. -/
theorem joinMatches_iff (floatSub : Nat → Nat → Int) :
    x.JoinMatches y names floatSub ↔ cstring x.pointer = cstring y.pointer := by
  rw [← strcmp_eq_iff, JoinMatches, matchRec]
  simp only [desc, Int.toNat_natCast, pointer_eq, datatypeOf?, if_true]
  cases strcmp x.pointer y.pointer <;> simp [signOf]

variable {x y names} {table : JoinHashTbl} {rid : RID}

theorem hash_congr (floatMul : Nat → Nat → Int) (attr : table.joinAttr = x.desc names)
    {s t : List UInt8} (same : cstring s = cstring t) :
    table.hash floatMul s = table.hash floatMul t := by
  have kind : datatypeOf? table.joinAttr.attrType = some .string := by
    rw [attr]
    rfl
  simp only [JoinHashTbl.hash, kind]
  rw [← JoinHashTbl.hashString_cstring, same, JoinHashTbl.hashString_cstring]

/-- The hash table needs the same slot as well. -/
theorem hashFinds_iff (floatMul : Nat → Nat → Int) (attr : table.joinAttr = x.desc names)
    (fresh : table.Fresh rid) :
    x.HashFinds y floatMul table rid ↔
      table.hash floatMul y.pointer = table.hash floatMul x.pointer ∧
        cstring x.field = cstring y.field := by
  have field : x.pointer.take length = x.field := List.take_left' x.sized
  have texts := strncmp_eq_iff (x.sized.trans y.sized.symm) (u := []) (v := y.after ++ y.memory)
  rw [x.sized, List.append_nil] at texts
  have start : (x.record ++ x.memory).drop table.joinAttr.attrOffset.toNat = x.pointer := by
    rw [attr]
    exact x.pointer_eq
  have value : table.attrValue x.pointer = some (.sValue x.field) := by
    rw [JoinHashTbl.attrValue, attr]
    simp [desc, datatypeOf?, field]
  rw [HashFinds, JoinHashTbl.mem_lookup_insert floatMul fresh, start, value, ← texts,
    JoinHashTbl.matched, attr]
  exact and_congr_right fun _ => decide_eq_true_iff

/-- The four comparisons agree on two fields exactly if they are settled. -/
theorem comparisons_agree_iff (floatSub floatMul : Nat → Nat → Int)
    (attr : table.joinAttr = x.desc names) (fresh : table.Fresh rid) :
    [x.ScanAccepts y, x.SortEqual y, x.JoinMatches y names floatSub,
      x.HashFinds y floatMul table rid].TFAE ↔ x.Settled y := by
  rw [scanAccepts_iff, sortEqual_iff, joinMatches_iff, hashFinds_iff floatMul attr fresh]
  constructor
  · intro agree
    by_cases texts : cstring x.field = cstring y.field
    · have fields := (agree.out 0 1).mp texts
      have behind := (agree.out 0 2).mp texts
      refine .inr ⟨fields, or_iff_not_imp_left.mpr fun unended => ?_⟩
      have unended' : 0 ∉ y.field := fields ▸ unended
      rw [pointer, pointer, cstring_open unended, cstring_open unended', fields] at behind
      exact List.append_cancel_left behind
    · exact .inl texts
  · rintro (apart | ⟨fields, behind⟩)
    · refine List.tfae_of_forall False _ ?_
      simp only [List.forall_mem_cons, iff_false]
      refine ⟨apart, fun fields => apart (by rw [fields]), fun texts => apart ?_, fun found =>
        apart found.2, by simp⟩
      rw [← cstring_take (f := x.field), ← cstring_take (f := y.field), x.sized, y.sized]
      exact congrArg (List.take length) texts
    · have texts : cstring x.pointer = cstring y.pointer := by
        rw [pointer, pointer, ← fields]
        by_cases ends : 0 ∈ x.field
        · rw [cstring_terminated ends, cstring_terminated ends]
        · rw [cstring_open ends, cstring_open ends, behind.resolve_left ends]
      refine List.tfae_of_forall True _ ?_
      simp only [List.forall_mem_cons, iff_true]
      exact ⟨by rw [fields], fields, texts, ⟨hash_congr floatMul attr texts.symm, by rw [fields]⟩,
        by simp⟩

def padded (c : UInt8) : StringField 3 := ⟨[], [97, 0, c], [], [], rfl⟩

def filled (before : List UInt8) (c : UInt8) : StringField 1 := ⟨before, [97], [c], [], rfl⟩

/-- Fields that are full, with the same byte behind both records. -/
theorem filled_agree : (filled [1] 98).Settled (filled [] 98) ∧
    [(filled [1] 98).ScanAccepts (filled [] 98), (filled [1] 98).SortEqual (filled [] 98),
      (filled [1] 98).JoinMatches (filled [] 98) ([], []) fun _ _ => 0,
      (filled [1] 98).HashFinds (filled [] 98) (fun _ _ => 0)
        (.new 7 (by decide) ((filled [1] 98).desc ([], []))) ⟨1, 0⟩].TFAE := by
  have settled : (filled [1] 98).Settled (filled [] 98) := .inr ⟨rfl, .inr rfl⟩
  exact ⟨settled, (comparisons_agree_iff _ _ rfl fun _ _ member => by cases member).mpr settled⟩

/-- The sort alone sees a byte behind the terminator, the join alone one behind
the field. -/
theorem comparisons_disagree :
    ((padded 120).ScanAccepts (padded 121) ∧ ¬ (padded 120).SortEqual (padded 121)) ∧
    (filled [] 98).SortEqual (filled [] 99) ∧ ¬ (filled [] 98).JoinMatches (filled [] 99) ([], [])
      fun _ _ => 0 := by
  rw [scanAccepts_iff, sortEqual_iff, sortEqual_iff, joinMatches_iff]
  decide

end StringField
end Minirel
