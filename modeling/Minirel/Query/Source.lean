import Minirel.Interp
import Minirel.Query.Join

/-! Relations as interp creates them: where the fields of their tuples lie, and
tuples that are made to meet a condition. -/
namespace Minirel
open ByteMemory

/-- Columns that interp creates: strings, and numbers of four bytes. -/
def AttrInfo.Typed (attr : AttrInfo) : Prop :=
  attr.attrType = 0 ∨ (attr.attrType = 1 ∨ attr.attrType = 2) ∧ attr.attrLen = 4

instance (attr : AttrInfo) : Decidable attr.Typed := inferInstanceAs (Decidable (_ ∨ _))

theorem describe_typed {relation : Name} {attrList : List AttrInfo} {d : AttrDesc}
    (declared : Declared attrList) (typed : ∀ attr ∈ attrList, attr.Typed)
    (listed : d ∈ describe relation 0 attrList) : d.Typed := by
  obtain ⟨offset, length, _⟩ := describe_placed declared.lengths (Int.le_refl 0)
    (by simpa using declared.width) d listed
  obtain ⟨attr, member, _, _, type, size⟩ := describe_of_mem listed
  have kind : d.attrType = 0 ∨ (d.attrType = 1 ∨ d.attrType = 2) ∧ d.attrLen = 4 := by
    rw [type, size]
    rcases typed attr member with zero | ⟨one | two, four⟩
    · exact .inl (by rw [zero]; rfl)
    · exact .inr ⟨.inl (by rw [one]; rfl), by rw [four]; rfl⟩
    · exact .inr ⟨.inr (by rw [two]; rfl), by rw [four]; rfl⟩
  exact ⟨⟨offset, length, kind.imp_right And.right⟩, by omega⟩

/-- A relation as interp creates it. -/
structure Source where
  relation : Name
  attrList : List AttrInfo
  name : CName relation
  named : relation ≠ []
  declared : Declared attrList
  columns : ∀ attr ∈ attrList, attr.attrName ≠ []
  typed : ∀ attr ∈ attrList, attr.Typed

namespace Source
variable {source : Source} {d : AttrDesc} {o : List UInt8}

/-- `create r (c = int)`. -/
def tableR : Source :=
  ⟨chars "r", [⟨chars "r", chars "c", 1, 4, none⟩], by decide, by decide, by decide, by decide,
    by decide⟩

/-- `create s (c = int)`. -/
def tableS : Source :=
  ⟨chars "s", [⟨chars "s", chars "c", 1, 4, none⟩], by decide, by decide, by decide, by decide,
    by decide⟩

def attrs (source : Source) : List AttrDesc := describe source.relation 0 source.attrList

def Tuple (source : Source) (o : List UInt8) :
    Prop := (o.length : Int) = AttrDesc.total source.attrs

theorem total (source : Source) :
    AttrDesc.total source.attrs = (source.attrList.map AttrInfo.attrLen).sum :=
  describe_total _ _ source.declared.lengths source.declared.width

theorem relName (listed : d ∈ source.attrs) : d.relName = source.relation := by
  obtain ⟨attr, _, relName, _⟩ := describe_of_mem listed
  exact relName

theorem short (listed : d ∈ source.attrs) : d.relName.length < maxName ∧
    d.attrName.length < maxName := by
  obtain ⟨attr, member, relName, same, _⟩ := describe_of_mem listed
  rw [relName, same]
  exact ⟨source.name.fits, (source.declared.names attr member).fits⟩

theorem attrs_ne_nil (source : Source) : source.attrs ≠ [] := by
  have nonempty := source.declared.nonempty
  rw [attrs]
  cases list : source.attrList with
  | nil => exact absurd list nonempty
  | cons attr attrs => exact List.cons_ne_nil _ _

theorem column (listed : d ∈ source.attrs) : d.attrName ≠ [] := by
  obtain ⟨attr, member, _, same, _⟩ := describe_of_mem listed
  rw [same]
  exact source.columns attr member

theorem placed (listed : d ∈ source.attrs) :
    0 ≤ d.attrOffset ∧ 1 ≤ d.attrLen ∧ d.attrOffset + d.attrLen ≤ AttrDesc.total source.attrs := by
  rw [source.total]
  have width := source.declared.width
  simpa using describe_placed source.declared.lengths (Int.le_refl 0) (by omega) d listed

theorem inside (listed : d ∈ source.attrs) (tuple : source.Tuple o) : d.Inside o := by
  obtain ⟨low, length, high⟩ := placed listed
  exact ⟨low, by omega, by rw [tuple]; exact high⟩

theorem attr_typed (listed : d ∈ source.attrs) : d.Typed :=
  describe_typed source.declared source.typed listed

theorem found {st : Flat} {records : List Entry}
    (relation : Relation st source.relation source.attrs records) (listed : d ∈ source.attrs) :
    Found st (QualAttr.info ⟨source.relation, d.attrName⟩) d :=
  relation.found listed rfl rfl (column listed)

def setup (source : Source) (contents : List (List UInt8)) :
    Setup := ⟨source.relation, source.attrList, contents⟩

theorem setup_sound (user : UserName source.relation) {contents : List (List UInt8)}
    (tuples : ∀ o ∈ contents, source.Tuple o ∧ o.length ≤ 1000) :
    (source.setup contents).Sound := by
  refine ⟨source.name, source.named, user, source.declared, fun o member => ?_⟩
  obtain ⟨tuple, small⟩ := tuples o member
  rw [Tuple, total] at tuple
  exact ⟨tuple, small⟩

end Source

/-- The width of a list of attributes, by their number. -/
theorem AttrDesc.total_bounds {descs : List AttrDesc} {most : Int}
    (lengths : ∀ d ∈ descs, 1 ≤ d.attrLen ∧ d.attrLen ≤ most) :
    descs.length ≤ AttrDesc.total descs ∧ AttrDesc.total descs ≤ most * descs.length := by
  induction descs with
  | nil => simp [AttrDesc.total]
  | cons d descs ih =>
    rw [List.forall_mem_cons] at lengths
    obtain ⟨low, high⟩ := ih lengths.2
    rw [AttrDesc.total] at low high ⊢
    rw [List.map_cons, List.sum_cons, List.length_cons, Nat.cast_add, Nat.cast_one, mul_add, mul_one]
    omega

/-! Tuples made of fields. -/

section layout
variable {relation : Name} {attrList : List AttrInfo} {offset : Int}

theorem describe_fields {fields : List (List UInt8)} (front : List UInt8)
    (at' : (front.length : Int) = offset) (lengths : ∀ attr ∈ attrList, 1 ≤ attr.attrLen)
    (high : offset + (attrList.map AttrInfo.attrLen).sum < 2 ^ 31)
    (sized : List.Forall₂ (fun d f => (f.length : Int) = d.attrLen)
      (describe relation offset attrList) fields) :
    List.Forall₂ (fun d f => d.field (front ++ fields.flatten) = f)
      (describe relation offset attrList) fields := by
  induction attrList generalizing offset front fields with
  | nil =>
    cases sized
    exact .nil
  | cons attr attrs ih =>
    rw [List.forall_mem_cons] at lengths
    have rest := sum_lengths_nonneg lengths.2
    rw [List.map_cons, List.sum_cons] at high
    have fits : int attr.attrLen = attr.attrLen := int_of_fits (by omega) (by omega)
    have next : int (offset + attr.attrLen) = offset + attr.attrLen := int_of_fits (by omega) (by omega)
    rw [describe, fits, next] at sized ⊢
    cases sized with
    | @cons _ f _ fs first others =>
      have first : (f.length : Int) = attr.attrLen := first
      have behind := ih (front ++ f) (by rw [List.length_append]; push_cast; omega) lengths.2
        (by omega) others
      rw [List.append_assoc] at behind
      refine .cons ?_ (by simpa using behind)
      have start : offset.toNat = front.length := by omega
      have stop : attr.attrLen.toNat = f.length := by omega
      simp only [AttrDesc.field, start, stop, List.flatten_cons, List.drop_left, List.take_left]

theorem describe_field_flatMap {g : AttrDesc → List UInt8} (declared : Declared attrList)
    (sized : ∀ d ∈ describe relation 0 attrList, ((g d).length : Int) = d.attrLen) :
    ∀ d ∈ describe relation 0 attrList, d.field ((describe relation 0 attrList).flatMap g) =
      g d := by
  have fields := describe_fields [] rfl declared.lengths
    (by simpa using declared.width) (by rwa [List.forall₂_map_right_iff, List.forall₂_same])
  rw [List.forall₂_map_right_iff, List.forall₂_same] at fields
  rw [List.flatMap_def]
  exact fields

end layout

theorem AttrDesc.flatMap_length {descs : List AttrDesc} {g : AttrDesc → List UInt8}
    (sized : ∀ d ∈ descs, ((g d).length : Int) = d.attrLen) :
    ((descs.flatMap g).length : Int) = AttrDesc.total descs := by
  induction descs with
  | nil => rfl
  | cons d descs ih =>
    rw [List.forall_mem_cons] at sized
    have rest := ih sized.2
    rw [AttrDesc.total] at rest ⊢
    rw [List.flatMap_cons, List.length_append, List.map_cons, List.sum_cons, ← rest, ← sized.1]
    push_cast
    rfl

namespace Source
variable {source : Source} {d : AttrDesc}

theorem fields (source : Source) (fields : List (List UInt8))
    (sized : List.Forall₂ (fun d f => (f.length : Int) = d.attrLen) source.attrs fields) :
    List.Forall₂ (fun d f => d.field fields.flatten = f) source.attrs fields :=
  describe_fields [] rfl source.declared.lengths (by simpa using source.declared.width) sized

def tuple (source : Source) (g : AttrDesc → List UInt8) : List UInt8 := source.attrs.flatMap g

section tuple
variable {g : AttrDesc → List UInt8} (sized : ∀ d ∈ source.attrs, ((g d).length : Int) = d.attrLen)
include sized

theorem field_tuple (listed : d ∈ source.attrs) : d.field (source.tuple g) = g d :=
  describe_field_flatMap source.declared sized d listed

theorem tuple_tuple : source.Tuple (source.tuple g) := AttrDesc.flatMap_length sized

end tuple
end Source
/-! Comparisons of bytes that repeat. -/

theorem strncmp_self (n : Nat) (s : List UInt8) : strncmp n s s = .eq := by
  induction n generalizing s with
  | zero => rfl
  | succ n ih =>
    rw [strncmp]
    simp only [ne_eq, not_true_eq_false, if_false, ih, ite_self]

/-- What starts with the first byte and has no others compares with what the second
byte makes up. -/
def Operator.bytes : Operator → UInt8 × UInt8
  | .eq => (0, 0)
  | .lt => (0, 1)
  | .lte => (0, 1)
  | .ne => (0, 1)
  | .gt => (1, 0)
  | .gte => (1, 0)

theorem Operator.bytes_numbers (op : Operator) : ∀ n < 4, ∀ c ∈ [op.bytes.1, op.bytes.2],
    ∀ c' ∈ [op.bytes.1, op.bytes.2], ∀ c'' ∈ [op.bytes.1, op.bytes.2],
      let value := op.bytes.1 :: [c, c', c''].take n
      op.flip.holds (some (intDiff (decode (List.replicate 4 op.bytes.2)) (decode value))) = true ∧
      op.flip.holds (floatDiff (unsigned (List.replicate 4 op.bytes.2)) (unsigned value)) = true := by
  -- all candidates, as one computation
  have all : ((List.range 4).all fun n => [op.bytes.1, op.bytes.2].all fun c =>
    [op.bytes.1, op.bytes.2].all fun c' =>
      [op.bytes.1, op.bytes.2].all fun c'' =>
        op.flip.holds (some (intDiff (decode (List.replicate 4 op.bytes.2))
          (decode (op.bytes.1 :: [c, c', c''].take n)))) &&
        op.flip.holds (floatDiff (unsigned (List.replicate 4 op.bytes.2))
          (unsigned (op.bytes.1 :: [c, c', c''].take n)))) =
      true := by
    cases op <;> decide +kernel
  simp only [List.all_eq_true, Bool.and_eq_true] at all
  exact fun n small => all n (List.mem_range.mpr small)

theorem exists_take {bytes rest : List UInt8} {b : UInt8} (some : b ∈ bytes)
    (all : ∀ c ∈ rest, c ∈ bytes) :
    ∃ n < 4, ∃ c ∈ bytes, ∃ c' ∈ bytes, ∃ c'' ∈ bytes, rest.take 3 = [c, c', c''].take n := by
  match rest with
  | [] => exact ⟨0, by omega, b, some, b, some, b, some, rfl⟩
  | [c] => exact ⟨1, by omega, c, all c (by simp), b, some, b, some, rfl⟩
  | [c, c'] => exact ⟨2, by omega, c, all c (by simp), c', all c' (by simp), b, some, rfl⟩
  | c :: c' :: c'' :: _ =>
    exact ⟨3, by omega, c, all c (by simp), c', all c' (by simp), c'', all c'' (by simp), rfl⟩

section meets
variable {x y : AttrDesc} {o i : List UInt8} {op : Operator}

theorem joinFilter_matchRec (inside : y.Inside i) : (joinFilter x y op o).matchRec i =
    op.flip.holds (Filter.diff (datatypeOf y.attrType) y.attrLen (y.field i)
      ((o.drop x.attrOffset.toNat).take y.attrLen.toNat)) := by
  rw [joinFilter, AttrDesc.filter_matchRec inside, Filter.diff_take_value]

theorem joinFilter_bytes (rest : List UInt8) (inside : y.Inside i) (length : 1 ≤ y.attrLen)
    (kind : datatypeOf y.attrType = .string ∨ y.attrLen = 4)
    (field : y.field i = List.replicate y.attrLen.toNat op.bytes.2)
    (value : o.drop x.attrOffset.toNat = op.bytes.1 :: rest)
    (bytes : ∀ c ∈ rest, c ∈ [op.bytes.1, op.bytes.2]) :
    (joinFilter x y op o).matchRec i = true := by
  obtain ⟨k, size⟩ : ∃ k, y.attrLen.toNat = k + 1 := ⟨y.attrLen.toNat - 1, by omega⟩
  rw [joinFilter_matchRec inside, field, value, size, List.take_succ_cons]
  obtain ⟨n, small, c, first, c', second, c'', third, same⟩ := exists_take List.mem_cons_self bytes
  obtain ⟨ints, floats⟩ := op.bytes_numbers n small c first c' second c'' third
  have four (number : datatypeOf y.attrType ≠ .string) : k = 3 := by
    have four := kind.resolve_left number
    omega
  have within : (op.bytes.1 :: [c, c', c''].take n).length ≤ 4 := by
    rw [List.length_cons, List.length_take]
    exact Nat.succ_le_succ (Nat.min_le_right ..)
  cases type : datatypeOf y.attrType with
  | string =>
    simp only [Filter.diff, size, List.replicate_succ]
    cases op <;> rfl
  | integer =>
    obtain rfl : k = 3 := four (by simp [type])
    simp only [Filter.diff, size, same, List.take_of_length_le within]
    exact ints
  | float =>
    obtain rfl : k = 3 := four (by simp [type])
    simp only [Filter.diff, size, same, List.take_of_length_le within]
    exact floats

theorem diff_replicate {type : Datatype} {length : Int} (kind : type = .string ∨ length = 4)
    (positive : 1 ≤ length) :
    ∀ a ∈ ([0, 1, 2] : List UInt8), ∀ b ∈ ([0, 1, 2] : List UInt8),
      Filter.diff type length (List.replicate length.toNat b) (List.replicate length.toNat a) =
        some (compare b.toNat a.toNat) := by
  cases type with
  | string =>
    obtain ⟨k, size⟩ : ∃ k, length.toNat = k + 1 := ⟨length.toNat - 1, by omega⟩
    intro a _ b _
    rw [Filter.diff, size]
    by_cases same : b = a
    · rw [same, strncmp_self, Nat.compare_eq_eq.mpr rfl]
    · simp only [List.replicate_succ, strncmp, List.headD_cons, ne_eq, same, not_false_eq_true, if_true]
  | integer =>
    obtain rfl : length = 4 := kind.resolve_left (by decide)
    decide +kernel
  | float =>
    obtain rfl : length = 4 := kind.resolve_left (by decide)
    decide +kernel

/-- Three bytes of which each compares with those behind it. -/
theorem Operator.exists_chain (op : Operator) : ∃ a ∈ ([0, 1, 2] : List UInt8),
    ∃ b ∈ ([0, 1, 2] : List UInt8), ∃ c ∈ ([0, 1, 2] : List UInt8),
      op.holds (some (compare a.toNat b.toNat)) = true ∧
      op.holds (some (compare b.toNat c.toNat)) = true ∧ op.holds (some (compare a.toNat c.toNat)) =
        true := by
  cases op <;> decide

theorem joinFilter_replicate (inside : y.Inside i) (length : 1 ≤ y.attrLen)
    (kind : datatypeOf y.attrType = .string ∨ y.attrLen = 4) {a b : UInt8}
    (first : a ∈ ([0, 1, 2] : List UInt8)) (second : b ∈ ([0, 1, 2] : List UInt8))
    (holds : op.holds (some (compare a.toNat b.toNat)) = true)
    (field : y.field i = List.replicate y.attrLen.toNat b)
    (value : (o.drop x.attrOffset.toNat).take y.attrLen.toNat = List.replicate y.attrLen.toNat a) :
    (joinFilter x y op o).matchRec i = true := by
  rw [joinFilter_matchRec inside, field, value, diff_replicate kind length a first b second,
    ← Nat.compare_swap, Operator.flip_holds, holds]

end meets

namespace Source
variable {source left right : Source} {d x y : AttrDesc} {o i : List UInt8} {op : Operator}
    {φ : AttrDesc → UInt8}

/-- The tuple in which each field repeats a byte. -/
def fill (source : Source) (φ : AttrDesc → UInt8) : List UInt8 :=
  source.tuple fun d => List.replicate d.attrLen.toNat (φ d)

theorem fill_sized (source : Source) (φ : AttrDesc → UInt8) :
    ∀ d ∈ source.attrs, ((List.replicate d.attrLen.toNat (φ d)).length : Int) = d.attrLen := by
  intro d listed
  have length := (placed listed).2.1
  rw [List.length_replicate]
  omega

theorem fill_tuple (source : Source) (φ : AttrDesc → UInt8) : source.Tuple (source.fill φ) :=
  tuple_tuple (fill_sized source φ)

theorem field_fill (listed : d ∈ source.attrs) :
    d.field (source.fill φ) = List.replicate d.attrLen.toNat (φ d) :=
  field_tuple (fill_sized source φ) listed

theorem mem_fill {bytes : List UInt8} (among : ∀ d ∈ source.attrs, φ d ∈ bytes) :
    ∀ c ∈ source.fill φ, c ∈ bytes := by
  intro c member
  obtain ⟨d, listed, member⟩ := List.mem_flatMap.mp member
  rw [List.eq_of_mem_replicate member]
  exact among d listed

theorem kind (listed : d ∈ source.attrs) : datatypeOf d.attrType = .string ∨ d.attrLen = 4 :=
  (attr_typed listed).kind.imp (fun zero => by simp [datatypeOf, zero]) And.right

theorem meets (first : x ∈ left.attrs) (second : y ∈ right.attrs) (tuple : right.Tuple i)
    (among : ∀ c ∈ o, c ∈ [op.bytes.1, op.bytes.2])
    (value : x.field o = List.replicate x.attrLen.toNat op.bytes.1)
    (field : y.field i = List.replicate y.attrLen.toNat op.bytes.2) :
    (joinFilter x y op o).matchRec i = true := by
  obtain ⟨k, size⟩ : ∃ k, x.attrLen.toNat = k + 1 := by
    have length := (placed first).2.1
    exact ⟨x.attrLen.toNat - 1, by omega⟩
  rw [AttrDesc.field, size, List.replicate_succ] at value
  cases split : o.drop x.attrOffset.toNat with
  | nil => simp [split] at value
  | cons c rest =>
    rw [split, List.take_succ_cons] at value
    refine joinFilter_bytes rest (inside second tuple) (placed second).2.1 (kind second) field ?_
      fun c member => ?_
    · rw [split, (List.cons.inj value).1]
    · exact among c (List.mem_of_mem_drop (split ▸ List.mem_cons_of_mem _ member))

theorem meets_of_holds (second : y ∈ right.attrs) (tuple : right.Tuple i)
    (same : x.attrLen = y.attrLen) {a b : UInt8} (low : a ∈ ([0, 1, 2] : List UInt8))
    (high : b ∈ ([0, 1, 2] : List UInt8)) (holds : op.holds (some (compare a.toNat b.toNat)) = true)
    (value : x.field o = List.replicate x.attrLen.toNat a)
    (field : y.field i = List.replicate y.attrLen.toNat b) :
    (joinFilter x y op o).matchRec i = true := by
  rw [AttrDesc.field, same] at value
  exact joinFilter_replicate (inside second tuple) (placed second).2.1 (kind second) low high holds
    field value

theorem exists_meeting (source : Source) (first : x ∈ source.attrs) (second : y ∈ source.attrs)
    (op : Operator) :
    ∃ o i, source.Tuple o ∧ source.Tuple i ∧ (joinFilter x y op o).matchRec i = true :=
  ⟨_, _, fill_tuple source fun _ => op.bytes.1, fill_tuple source fun _ => op.bytes.2,
    meets first second (fill_tuple source _) (mem_fill fun _ _ => List.mem_cons_self)
      (field_fill first) (field_fill second)⟩

end Source
end Minirel
