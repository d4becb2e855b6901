import Mathlib.Tactic.LinearCombination
import Mathlib.Tactic.Linarith
import Mathlib.Data.List.GetD

/-! Byte-addressed memory with little-endian integers of any width. Addresses
are integers relative to some base, so an access in front of the base is an
ordinary access of the model and not an error. A block move reads its whole
source before it writes, which is what an overlapping copy has to do. -/
namespace ByteMemory

abbrev Mem := Int → UInt8

/-- The low `width` bytes of an integer, least significant first. -/
def encode : Nat → Int → List UInt8
  | 0, _ => []
  | width + 1, value => UInt8.ofNat (value % 256).toNat :: encode width (value / 256)

def unsigned : List UInt8 → Nat
  | [] => 0
  | byte :: rest => byte.toNat + 256 * unsigned rest

/-- Two's complement reading of a byte string. -/
def decode (bytes : List UInt8) : Int := Int.bmod (unsigned bytes) (256 ^ bytes.length)

@[simp] theorem encode_length (width : Nat) (value : Int) :
    (encode width value).length = width := by
  induction width generalizing value with
  | zero => rfl
  | succ width ih => simp [encode, ih]

theorem unsigned_encode (width : Nat) (value : Int) :
    (unsigned (encode width value) : Int) = value % 256 ^ width := by
  induction width generalizing value with
  | zero => simp [encode, unsigned]
  | succ width ih =>
    have low : (((value % 256).toNat % 256 : Nat) : Int) = value % 256 := by omega
    have split : value % (256 * 256 ^ width) = value % 256 + 256 * (value / 256 % 256 ^ width) := by
      have h1 := Int.emod_add_mul_ediv value 256
      have h2 := Int.emod_add_mul_ediv (value / 256) (256 ^ width)
      have pos : (0 : Int) < 256 ^ width := by positivity
      have r0 := Int.emod_nonneg (value / 256) (ne_of_gt pos)
      have r1 := Int.emod_lt_of_pos (value / 256) pos
      have l0 := Int.emod_nonneg value (show (256 : Int) ≠ 0 by decide)
      have l1 := Int.emod_lt_of_pos value (show (0 : Int) < 256 by decide)
      rw [← Int.emod_eq_of_lt (a := value % 256 + 256 * (value / 256 % 256 ^ width))
        (b := 256 * 256 ^ width) (by linarith) (by nlinarith)]
      apply Int.emod_eq_emod_iff_emod_sub_eq_zero.mpr
      apply Int.emod_eq_zero_of_dvd
      refine ⟨value / 256 / 256 ^ width, ?_⟩
      linear_combination - h1 - 256 * h2
    simp only [encode, unsigned, UInt8.toNat_ofNat', Nat.cast_add, Nat.cast_mul, ih, pow_succ']
    rw [split]
    exact congrArg (· + 256 * (value / 256 % 256 ^ width)) low

theorem unsigned_lt (bytes : List UInt8) : unsigned bytes < 256 ^ bytes.length := by
  induction bytes with
  | nil => simp [unsigned]
  | cons byte rest ih =>
    have := byte.toNat_lt
    rw [unsigned, List.length_cons, pow_succ']
    omega

theorem unsigned_inj {bytes bytes' : List UInt8} (length : bytes.length = bytes'.length)
    (same : unsigned bytes = unsigned bytes') : bytes = bytes' := by
  induction bytes generalizing bytes' with
  | nil => exact (List.length_eq_zero_iff.mp length.symm).symm
  | cons byte rest ih =>
    obtain ⟨byte', rest', rfl⟩ := List.exists_cons_of_length_eq_add_one length.symm
    rw [unsigned, unsigned] at same
    have := byte.toNat_lt
    have := byte'.toNat_lt
    rw [ih (Nat.succ_inj.mp length) (by omega),
      UInt8.toNat_inj.mp (by omega : byte.toNat = byte'.toNat)]

/-- Storing truncates to the width; reading back gives the signed residue. -/
theorem decode_encode (width : Nat) (value : Int) :
    decode (encode width value) = value.bmod (256 ^ width) := by
  unfold decode
  rw [unsigned_encode, encode_length]
  have h := Int.emod_bmod (x := value) (n := 256 ^ width)
  push_cast at h
  exact h

theorem decode_encode_of_fits {value : Int} (width : Nat) (low : -(256 ^ width / 2 : Int) ≤ value)
    (high : value < 256 ^ width / 2) : decode (encode width value) = value := by
  rw [decode_encode]
  apply Int.bmod_eq_of_le
  · push_cast
    exact low
  · push_cast
    omega

def read (m : Mem) (address : Int) (count : Nat) : List UInt8 :=
  (List.range count).map fun (k : Nat) => m (address + k)

def write (m : Mem) (address : Int) (bytes : List UInt8) : Mem := fun x =>
  if address ≤ x ∧ x < address + bytes.length then bytes.getD (x - address).toNat 0 else m x

def move (m : Mem) (source target : Int) (count : Nat) : Mem :=
  write m target (read m source count)

@[simp] theorem read_length (m : Mem) (address : Int) (count : Nat) :
    (read m address count).length = count := by
  simp [read]

theorem read_congr {m m' : Mem} {address address' : Int} {count : Nat}
    (same : ∀ k : Nat, k < count → m (address + k) = m' (address' + k)) :
    read m address count = read m' address' count := by
  apply List.map_congr_left
  intro k member
  exact same k (List.mem_range.mp member)

theorem read_write (m : Mem) (address : Int) (bytes : List UInt8) :
    read (write m address bytes) address bytes.length = bytes := by
  apply List.ext_getElem
  · simp
  · intro k hk _
    have bound : k < bytes.length := by simpa using hk
    have inside : address ≤ address + (k : Int) ∧ address + (k : Int) < address + bytes.length := by
      omega
    have index : (address + (k : Int) - address).toNat = k := by omega
    simp only [read, write, List.getElem_map, List.getElem_range, if_pos inside, index]
    exact List.getD_eq_getElem _ _ bound

theorem write_outside {m : Mem} {address x : Int} {bytes : List UInt8}
    (outside : x < address ∨ address + bytes.length ≤ x) : write m address bytes x = m x := by
  unfold write
  rw [if_neg (by omega)]

theorem read_write_outside {m : Mem} {address target : Int} {bytes : List UInt8} {count : Nat}
    (outside : address + count ≤ target ∨ target + bytes.length ≤ address) :
    read (write m target bytes) address count = read m address count := by
  apply read_congr
  intro k hk
  exact write_outside (by omega)

theorem read_move {m : Mem} {source target address : Int} {count size : Nat}
    (low : target ≤ address) (high : address + count ≤ target + size) :
    read (move m source target size) address count = read m (source + (address - target))
      count := by
  apply read_congr
  intro k hk
  have inside : target ≤ address + (k : Int) ∧
      address + (k : Int) < target + (read m source size).length := by
    simp only [read_length]
    omega
  have bound : (address + (k : Int) - target).toNat < size := by omega
  have index : source + ((address + (k : Int) - target).toNat : Int) = source + (address - target) +
      k := by
    omega
  unfold move write
  rw [if_pos inside, List.getD_eq_getElem _ _ (by simpa using bound)]
  simp only [read, List.getElem_map, List.getElem_range, index]

theorem read_move_outside {m : Mem} {source target address : Int} {count size : Nat}
    (outside : address + count ≤ target ∨ target + size ≤ address) :
    read (move m source target size) address count = read m address count :=
  read_write_outside (by simpa using outside)

/-! Signed 16-bit cells. -/

def short (value : Int) : Int := value.bmod 65536

theorem short_of_fits {value : Int} (low : -32768 ≤ value) (high : value ≤ 32767) :
    short value = value :=
  Int.bmod_eq_of_le (by omega) (by omega)

def getShort (m : Mem) (address : Int) : Int := decode (read m address 2)

theorem getShort_fits (m : Mem) (address : Int) :
    -32768 ≤ getShort m address ∧ getShort m address < 32768 := by
  unfold getShort decode
  rw [read_length]
  exact ⟨Int.le_bmod (by decide), Int.bmod_lt (by decide)⟩

def setShort (m : Mem) (address value : Int) : Mem := write m address (encode 2 value)

@[simp] theorem getShort_setShort (m : Mem) (address value : Int) :
    getShort (setShort m address value) address = short value := by
  have h := read_write m address (encode 2 value)
  rw [encode_length] at h
  unfold getShort setShort
  rw [h, decode_encode]
  rfl

theorem getShort_setShort_ne {m : Mem} {address other value : Int}
    (apart : other + 2 ≤ address ∨ address + 2 ≤ other) :
    getShort (setShort m address value) other = getShort m other := by
  unfold getShort setShort
  rw [read_write_outside (by simpa using apart)]

theorem read_setShort {m : Mem} {address target value : Int} {count : Nat}
    (apart : address + count ≤ target ∨ target + 2 ≤ address) :
    read (setShort m target value) address count = read m address count :=
  read_write_outside (by simpa using apart)

theorem getShort_write {m : Mem} {address target : Int} {bytes : List UInt8}
    (apart : address + 2 ≤ target ∨ target + bytes.length ≤ address) :
    getShort (write m target bytes) address = getShort m address := by
  unfold getShort
  rw [read_write_outside (by simpa using apart)]

theorem getShort_move {m : Mem} {source target address : Int} {size : Nat}
    (apart : address + 2 ≤ target ∨ target + size ≤ address) :
    getShort (move m source target size) address = getShort m address := by
  unfold getShort
  rw [read_move_outside (by simpa using apart)]

end ByteMemory
