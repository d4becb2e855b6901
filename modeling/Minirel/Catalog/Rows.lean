import Minirel.Catalog

/-! Catalog rows as bytes: descriptors are read back as they were stored, and the
lookup filter accepts exactly the rows of the relation it is given. -/
namespace Minirel
open ByteMemory

structure CName (n : Name) : Prop where
  terminated : 0 ∉ n
  fits : n.length < maxName

variable {n r relation : Name}

theorem nameField_length (name : CName n) : (nameField n).length = maxName := by
  have := name.fits
  rw [nameField, List.length_append, List.length_replicate]
  omega

theorem nonzero_of_mem (terminated : 0 ∉ n) : ∀ c ∈ n, decide (c ≠ 0) = true :=
  fun _ member => decide_eq_true fun zero => terminated (zero ▸ member)

theorem cString_of_terminated (terminated : 0 ∉ n) : cString n = n := by
  have whole : (n ++ []).takeWhile (fun c => decide (c ≠ 0)) = n ++
      [].takeWhile (fun c => decide (c ≠ 0)) :=
    List.takeWhile_append_of_pos (nonzero_of_mem terminated)
  simpa [cString] using whole

theorem nameField_eq (name : CName n) : ∃ k, nameField n = n ++ 0 :: List.replicate k 0 := by
  have := name.fits
  refine ⟨maxName - n.length - 1, ?_⟩
  rw [nameField, ← List.replicate_succ, show maxName - n.length - 1 + 1 = maxName - n.length by omega]

theorem cString_nameField (name : CName n) : cString (nameField n) = n := by
  obtain ⟨k, eq⟩ := nameField_eq name
  rw [eq, cString, List.takeWhile_append_of_pos (nonzero_of_mem name.terminated),
    List.takeWhile_cons_of_neg (by simp), List.append_nil]

theorem decode_encode_int (x : Int) : decode (encode 4 x) = int x := decode_encode 4 x

@[simp] theorem int_int (x : Int) : int (int x) = int x := Int.bmod_bmod ..

theorem int_of_fits {x : Int} (low : -2 ^ 31 ≤ x) (high : x < 2 ^ 31) : int x = x :=
  Int.bmod_eq_of_le (by omega) (by omega)

/-- `strncmp` over the string and its terminator decides equality. -/
theorem strncmp_terminated (terminated : 0 ∉ r) (terminated' : 0 ∉ relation) (tail : List UInt8) :
    strncmp (relation.length + 1) (r ++ 0 :: tail) relation = .eq ↔ r = relation := by
  induction relation generalizing r with
  | nil =>
    cases r with
    | nil => simp [strncmp]
    | cons c r =>
      have apart : c ≠ 0 := fun zero => terminated (zero ▸ List.mem_cons_self)
      have order : compare c.toNat 0 ≠ .eq := by
        rw [Ne, compare_eq_iff_eq]
        exact fun zero => apart (UInt8.toNat_inj.mp zero)
      simpa [strncmp, apart] using order
  | cons d relation ih =>
    have apart : d ≠ 0 := fun zero => terminated' (zero ▸ List.mem_cons_self)
    cases r with
    | nil =>
      have order : compare 0 d.toNat ≠ .eq := by
        rw [Ne, compare_eq_iff_eq]
        exact fun zero => apart (UInt8.toNat_inj.mp zero.symm)
      simpa [strncmp, apart.symm] using order
    | cons c r =>
      by_cases same : c = d
      · subst same
        simpa [strncmp, apart] using
          ih (fun h => terminated (List.mem_cons_of_mem _ h))
            (fun h => terminated' (List.mem_cons_of_mem _ h))
      · have order : compare c.toNat d.toNat ≠ .eq := by
          rw [Ne, compare_eq_iff_eq]
          exact fun equal => same (UInt8.toNat_inj.mp equal)
        simpa [strncmp, same] using order

/-- The lookup filter compares names. -/
theorem byRelation_matchRec (name : CName r) (terminated : 0 ∉ relation) (rest : List UInt8) :
    (byRelation relation).matchRec (nameField r ++ rest) = decide (r = relation) := by
  obtain ⟨k, eq⟩ := nameField_eq name
  have size := nameField_length name
  have fits := name.fits
  have compared : Filter.diff .string (relation.length + 1)
    ((nameField r ++ rest).drop (0 : Int).toNat) relation =
      some .eq ↔ r = relation := by
    simp only [Filter.diff, eq, Int.toNat_zero, List.drop_zero, List.append_assoc, List.cons_append,
      Option.some.injEq]
    exact strncmp_terminated name.terminated terminated _
  unfold Filter.matchRec
  split
  next short =>
    -- a name that long is not in the catalog
    simp only [byRelation, List.length_append] at short
    rw [eq_comm, decide_eq_false_iff_not]
    rintro rfl
    omega
  next => simp only [byRelation, Operator.holds, beq_eq_decide, compared]

/-! Stored descriptors. -/

structure RelDesc.Valid (d : RelDesc) : Prop where
  relName : CName d.relName
  attrCnt : int d.attrCnt = d.attrCnt

structure AttrDesc.Valid (d : AttrDesc) : Prop where
  relName : CName d.relName
  attrName : CName d.attrName
  attrOffset : int d.attrOffset = d.attrOffset
  attrType : int d.attrType = d.attrType
  attrLen : int d.attrLen = d.attrLen

namespace RelDesc
variable {d : RelDesc}

theorem Valid.bytes_length (valid : d.Valid) : d.bytes.length = size := by
  rw [bytes, List.length_append, nameField_length valid.relName, encode_length]
  rfl

theorem Valid.ofBytes_bytes (valid : d.Valid) : ofBytes d.bytes = d := by
  have size := nameField_length valid.relName
  unfold ofBytes bytes
  rw [List.take_left' size, List.drop_left' size, List.take_of_length_le (by simp),
    cString_nameField valid.relName, decode_encode_int, valid.attrCnt]

end RelDesc

namespace AttrDesc
variable {d : AttrDesc}

theorem Valid.bytes_length (valid : d.Valid) : d.bytes.length = size := by
  simp only [bytes, List.length_append, nameField_length valid.relName, nameField_length valid.attrName,
    encode_length]
  rfl

theorem Valid.ofBytes_bytes (valid : d.Valid) : ofBytes d.bytes = d := by
  have size := nameField_length valid.relName
  have size' := nameField_length valid.attrName
  have behind1 : d.bytes.drop maxName = nameField d.attrName ++
      (encode 4 d.attrOffset ++ (encode 4 d.attrType ++ encode 4 d.attrLen)) := List.drop_left' size
  have behind2 : d.bytes.drop (maxName + maxName) =
      encode 4 d.attrOffset ++ (encode 4 d.attrType ++ encode 4 d.attrLen) := by
    rw [← List.drop_drop, behind1, List.drop_left' size']
  have behind3 : d.bytes.drop (maxName + maxName + 4) = encode 4 d.attrType ++ encode 4 d.attrLen := by
    rw [← List.drop_drop, behind2, List.drop_left' (encode_length ..)]
  have behind4 : d.bytes.drop (maxName + maxName + 8) = encode 4 d.attrLen := by
    rw [show maxName + maxName + 8 = maxName + maxName + 4 + 4 by rfl, ← List.drop_drop, behind3,
      List.drop_left' (encode_length ..)]
  have first : d.bytes.take maxName = nameField d.relName := List.take_left' size
  unfold ofBytes
  rw [first, behind1, behind2, behind3, behind4, List.take_left' size',
    List.take_left' (encode_length ..),
    List.take_left' (encode_length ..), List.take_of_length_le (by simp),
    cString_nameField valid.relName,
    cString_nameField valid.attrName, decode_encode_int, decode_encode_int, decode_encode_int,
    valid.attrOffset, valid.attrType, valid.attrLen]

end AttrDesc
end Minirel
