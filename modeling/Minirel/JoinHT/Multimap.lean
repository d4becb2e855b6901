import Minirel.JoinHT.Agreement

/-! The hash table of a join after any sequence of insertions. As a multimap it
takes a value of the join attribute to the identifiers that were inserted with
it, the last one first. Strings have to be terminated within the attribute:
equal attributes then have one hash, although the hash goes on to a
terminator. -/
namespace Minirel
open ByteMemory

theorem cstring_eq_of_strncmp {n : Nat} {s t : List UInt8} (ended : 0 ∈ s.take n)
    (same : strncmp n s t = .eq) :
    cstring s = cstring t := by
  induction n generalizing s t with
  | zero => simp at ended
  | succ n ih =>
    obtain _ | ⟨a, s⟩ := s
    · simp at ended
    obtain ⟨first, rest⟩ := (strncmp_succ_eq n (a :: s) t).mp same
    have texts : cstring t = cstring (t.headD 0 :: t.tail) := by cases t <;> simp
    rw [texts, cstring_cons_eq_iff]
    refine ⟨first, or_iff_not_imp_left.mpr fun more => ih ?_ (rest.resolve_left more)⟩
    have later : (0 : UInt8) ≠ a := fun zero => more (first ▸ zero.symm)
    exact List.mem_of_ne_of_mem later ended

theorem strncmp_take_left (n : Nat) (s t : List UInt8) :
    strncmp n (s.take n) t = strncmp n s t := by
  induction n generalizing s t with
  | zero => rfl
  | succ n ih => cases s <;> simp [strncmp, ih]

namespace JoinHashTbl
variable {table : JoinHashTbl} {rid : RID} {tuple ptr : List UInt8} {attr : AttrDesc} {size : Nat}

/-- Where the join attribute of a tuple starts. -/
def attrPtr (attr : AttrDesc) (tuple : List UInt8) : List UInt8 := tuple.drop attr.attrOffset.toNat

/-- The hash function can be used on the attribute: it is an integer or a string
that is terminated within its length. -/
def Hashable (attr : AttrDesc) (tuple : List UInt8) : Prop :=
  datatypeOf? attr.attrType = some .integer ∨
    datatypeOf? attr.attrType = some .string ∧ 0 ∈ (attrPtr attr tuple).take attr.attrLen.toNat

/-- Equality of two values of the join attribute: of integers, or by `strncmp`
over the length of the attribute. -/
def sameAttr (attr : AttrDesc) (ptr field : List UInt8) : Bool :=
  match datatypeOf? attr.attrType with
  | some .integer => decode (field.take 4) = decode (ptr.take 4)
  | some .string => strncmp attr.attrLen.toNat field ptr = .eq
  | _ => false

/-- A bucket is found by the values that are equal to the one it was made of. -/
theorem matched_attrValue (hashable : Hashable table.joinAttr tuple) :
    table.matched ptr ⟨table.attrValue (attrPtr table.joinAttr tuple), rid⟩ =
      sameAttr table.joinAttr ptr (attrPtr table.joinAttr tuple) := by
  rcases hashable with kind | ⟨kind, -⟩
  · simp [matched, attrValue, sameAttr, kind]
  · simp [matched, attrValue, sameAttr, kind, strncmp_take_left]

/-- Equal values are in one chain. -/
theorem hash_eq_of_sameAttr (floatMul : Nat → Nat → Int) (hashable : Hashable table.joinAttr tuple)
    (same : sameAttr table.joinAttr ptr (attrPtr table.joinAttr tuple) = true) :
    table.hash floatMul ptr = table.hash floatMul (attrPtr table.joinAttr tuple) := by
  rcases hashable with kind | ⟨kind, ended⟩
  · have values : decode ((attrPtr table.joinAttr tuple).take 4) = decode (ptr.take 4) := by
      simpa [sameAttr, kind] using same
    simp only [hash, kind, values]
  · have texts : cstring (attrPtr table.joinAttr tuple) = cstring ptr :=
      cstring_eq_of_strncmp ended (by simpa [sameAttr, kind] using same)
    simp only [hash, kind]
    rw [← hashString_cstring, ← texts, hashString_cstring]

theorem lookup_insert (floatMul : Nat → Nat → Int) (hashable : Hashable table.joinAttr tuple) :
    (table.insert floatMul rid tuple).2.lookup floatMul ptr =
      if sameAttr table.joinAttr ptr (attrPtr table.joinAttr tuple) then rid :: table.lookup
        floatMul ptr
      else table.lookup floatMul ptr := by
  change (((table.insert floatMul rid tuple).2.ht (table.hash floatMul ptr)).chain.filter
    (table.matched ptr)).map JoinHashBucket.rid = _
  rw [insert_chain, ← attrPtr]
  by_cases same : sameAttr table.joinAttr ptr (attrPtr table.joinAttr tuple) = true
  · rw [if_pos (hash_eq_of_sameAttr floatMul hashable same), if_pos same,
      List.filter_cons_of_pos ((matched_attrValue hashable).trans same)]
    rfl
  · rw [if_neg same]
    split
    · have unmatched : ¬table.matched ptr ⟨table.attrValue (attrPtr table.joinAttr tuple), rid⟩ =
          true := by
        rwa [matched_attrValue hashable]
      rw [List.filter_cons_of_neg unmatched]
      rfl
    · rfl

def insertAll (floatMul : Nat → Nat → Int) (table : JoinHashTbl)
    (tuples : List (RID × List UInt8)) : JoinHashTbl :=
  tuples.foldl (fun table t => (table.insert floatMul t.1 t.2).2) table

theorem lookup_insertAll (floatMul : Nat → Nat → Int) (tuples : List (RID × List UInt8))
    (hashable : ∀ t ∈ tuples, Hashable table.joinAttr t.2) :
    (table.insertAll floatMul tuples).lookup floatMul ptr =
      ((tuples.filter fun t => sameAttr table.joinAttr ptr (attrPtr table.joinAttr t.2)).map
        Prod.fst).reverse ++ table.lookup floatMul ptr := by
  induction tuples generalizing table with
  | nil => rfl
  | cons t tuples ih =>
    rw [List.forall_mem_cons] at hashable
    have step := @ih (table.insert floatMul t.1 t.2).2 hashable.2
    change (insertAll floatMul (table.insert floatMul t.1 t.2).2 tuples).lookup floatMul ptr = _
    rw [step, lookup_insert floatMul hashable.1, List.filter_cons]
    change (List.map Prod.fst
      (tuples.filter fun t => sameAttr table.joinAttr ptr (attrPtr table.joinAttr t.2))).reverse
      ++ _ = _
    split <;> simp

theorem htSize_insertAll (floatMul : Nat → Nat → Int) (tuples : List (RID × List UInt8)) :
    (table.insertAll floatMul tuples).htSize = table.htSize := by
  induction tuples generalizing table with
  | nil => rfl
  | cons t tuples ih => exact ih

/-- A lookup finds exactly the tuples with that value, each as often as it was
inserted; they fit into the array, and no hash is outside the table. -/
theorem lookup_exact (floatMul : Nat → Nat → Int) (positive : 0 < size)
    (tuples : List (RID × List UInt8)) (hashable : ∀ t ∈ tuples, Hashable attr t.2)
    (ptr : List UInt8) :
    let table := (new size positive attr).insertAll floatMul tuples
    (table.lookup floatMul ptr).Perm
        ((tuples.filter fun t => sameAttr attr ptr (attrPtr attr t.2)).map Prod.fst) ∧
      (table.lookup floatMul ptr).length ≤ (table.ht (table.hash floatMul ptr)).bucketCnt ∧
      ∀ bytes, (table.hash floatMul bytes).val < size := by
  refine ⟨?_, lookup_length_le .., fun bytes => ?_⟩
  · rw [lookup_insertAll floatMul tuples hashable]
    exact (List.append_nil _).symm ▸ List.reverse_perm _
  · exact (Fin.isLt _).trans_eq (htSize_insertAll floatMul tuples)

/-- Two of the three tuples, in a table of one chain; the texts behind the
terminators differ. -/
theorem lookup_exact_collision :
    (((new 1 Nat.one_pos ⟨[], [], 0, 0, 3⟩).insertAll (fun _ _ => 0)
      [(⟨1, 0⟩, [97, 0, 1]), (⟨1, 1⟩, [98, 0, 2]), (⟨1, 2⟩, [97, 0, 3])]).lookup (fun _ _ => 0)
        [97, 0]).Perm
      [⟨1, 0⟩, ⟨1, 2⟩] :=
  (lookup_exact _ _ _ (by simp [Hashable, attrPtr, datatypeOf?]) _).1

end JoinHashTbl
end Minirel
