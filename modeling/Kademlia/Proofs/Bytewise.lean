import Kademlia.Proofs.Neighbourhood
import Mathlib.Data.List.Induction

/-!
# Kademlia.Proofs.Bytewise

Ids byte by byte. Ids are computed with as numbers; they are stored, drawn and sent as byte strings.
Each operation on the number has a counterpart on the bytes, and this module says that both agree:

* the XOR of two numbers is the XOR of their bytes (`Bytes.toNat_xor`);
* numbers compare as their bytes do, the first difference deciding (`Bytes.compare_toNat`);
* the leading zero bits are counted byte after byte (`Bytes.le_leadingZeros_iff`); and
* a bit is read and written through the mask of its place in its byte (`Bytes.bit`,
  `Bytes.setBit`), and writing it touches no other (`Bytes.bit_setBit`).

The recursion of `Bytes.toNat` ends at the last byte, the readers here begin at the first;
`Bytes.toNat_cons` turns the one into the other.
-/

namespace Kademlia

namespace Bytes

/-! ### Numbers from the first byte on -/

theorem toNat_cons (byte : UInt8) (rest : Bytes) :
    toNat (byte :: rest) = 2 ^ (8 * rest.length) * byte.toNat + toNat rest := by
  induction rest using List.reverseRecOn with
  | nil => simp [toNat]
  | append_singleton front last ih =>
    have hpow : 2 ^ (8 * (front ++ [last]).length) = 256 * 2 ^ (8 * front.length) := by
      rw [List.length_append, List.length_singleton, Nat.mul_add, Nat.pow_add, Nat.mul_comm]
    rw [← List.cons_append, toNat_concat, toNat_concat, ih, hpow, Nat.mul_add, Nat.mul_assoc,
      Nat.add_assoc]

theorem toNat_lt_two_pow (bytes : Bytes) : toNat bytes < 2 ^ (8 * bytes.length) := by
  rw [Nat.pow_mul]
  exact toNat_lt bytes

/-- Numbers of equally many bytes differ if their bytes do. -/
theorem toNat_injective {a b : Bytes} (hlength : a.length = b.length) (h : toNat a = toNat b) :
    a = b := by
  rw [← ofNat_toNat a, ← ofNat_toNat b, hlength, h]

/-! ### XOR -/

/-- The XOR of two byte strings, byte by byte. -/
def xor (a b : Bytes) : Bytes := List.zipWith (· ^^^ ·) a b

theorem length_xor {a b : Bytes} (h : a.length = b.length) : (xor a b).length = b.length := by
  rw [xor, List.length_zipWith, h, Nat.min_self]

/-- A front and a back of a number are XORed apart. -/
theorem two_pow_mul_add_xor {k m n : Nat} (hm : m < 2 ^ k) (hn : n < 2 ^ k) (x y : Nat) :
    (2 ^ k * x + m) ^^^ (2 ^ k * y + n) = 2 ^ k * (x ^^^ y) + (m ^^^ n) := by
  refine Nat.eq_of_testBit_eq fun place => ?_
  rw [Nat.testBit_xor, Nat.testBit_two_pow_mul_add _ hm, Nat.testBit_two_pow_mul_add _ hn,
    Nat.testBit_two_pow_mul_add _ (Nat.xor_lt_two_pow hm hn)]
  split
  · rw [Nat.testBit_xor]
  · rw [Nat.testBit_xor]

theorem toNat_xor {a b : Bytes} (h : a.length = b.length) :
    toNat (xor a b) = toNat a ^^^ toNat b := by
  induction a generalizing b with
  | nil =>
    obtain rfl := List.length_eq_zero_iff.mp h.symm
    rfl
  | cons x a ih =>
    obtain ⟨y, b, rfl⟩ := List.exists_cons_of_length_eq_add_one h.symm
    have hlength : a.length = b.length := Nat.succ.inj h
    have hback := toNat_lt_two_pow a
    rw [hlength] at hback
    rw [toNat_cons, toNat_cons, hlength, two_pow_mul_add_xor hback (toNat_lt_two_pow b),
      ← ih hlength, xor, List.zipWith_cons_cons, toNat_cons, ← xor, length_xor hlength,
      UInt8.toNat_xor]

/-! ### Order -/

theorem compare_toNat_byte (x y : UInt8) : compare x y = compare x.toNat y.toNat := by
  rw [Nat.compare_eq_ite_lt]
  simp only [compare, compareOfLessAndEq, UInt8.lt_iff_toNat_lt, ← UInt8.toNat_inj]
  split
  · rfl
  split
  · rw [if_neg (by omega)]
  · rw [if_pos (by omega)]

/-- A front that is less makes the number less, whatever the back is. -/
theorem two_pow_mul_add_lt {k m : Nat} (hm : m < 2 ^ k) {x y : Nat} (h : x < y) :
    2 ^ k * x + m < 2 ^ k * y := by
  have hle : 2 ^ k * (x + 1) ≤ 2 ^ k * y := Nat.mul_le_mul_left _ h
  rw [Nat.mul_add] at hle
  omega

/-- Whether a number stays below one without a back is up to its front. -/
theorem two_pow_mul_add_lt_iff {k m : Nat} (hm : m < 2 ^ k) {x y : Nat} :
    2 ^ k * x + m < 2 ^ k * y ↔ x < y := by
  refine ⟨fun hlt => ?_, two_pow_mul_add_lt hm⟩
  exact Nat.lt_of_mul_lt_mul_left (Nat.lt_of_le_of_lt (Nat.le_add_right _ m) hlt)

/-- The front of a number decides unless the fronts are equal. -/
theorem compare_two_pow_mul_add {k m n : Nat} (hm : m < 2 ^ k) (hn : n < 2 ^ k) (x y : Nat) :
    compare (2 ^ k * x + m) (2 ^ k * y + n) = (compare x y).then (compare m n) := by
  rcases Nat.lt_trichotomy x y with hlt | rfl | hgt
  · have hless := two_pow_mul_add_lt hm hlt
    rw [Nat.compare_eq_lt.mpr hlt, Nat.compare_eq_lt.mpr (Nat.lt_add_right n hless)]
    rfl
  · rw [Nat.compare_eq_eq.mpr rfl, Ordering.then, Nat.compare_eq_ite_lt, Nat.compare_eq_ite_lt]
    simp only [Nat.add_lt_add_iff_left]
  · have hless := two_pow_mul_add_lt hn hgt
    rw [Nat.compare_eq_gt.mpr hgt, Nat.compare_eq_gt.mpr (Nat.lt_add_right m hless)]
    rfl

/-- Numbers of equally many bytes compare as their bytes do. -/
theorem compare_toNat {a b : Bytes} (h : a.length = b.length) :
    compare a b = compare (toNat a) (toNat b) := by
  induction a generalizing b with
  | nil =>
    obtain rfl := List.length_eq_zero_iff.mp h.symm
    rfl
  | cons x a ih =>
    obtain ⟨y, b, rfl⟩ := List.exists_cons_of_length_eq_add_one h.symm
    have hlength : a.length = b.length := Nat.succ.inj h
    have hback := toNat_lt_two_pow a
    rw [hlength] at hback
    rw [List.compare_cons_cons, ih hlength, compare_toNat_byte, toNat_cons, toNat_cons, hlength,
      compare_two_pow_mul_add hback (toNat_lt_two_pow b)]

/-! ### Leading zeros -/

/-- The leading zero bits of a byte string: those of the first byte that is not zero, and eight for
each byte before it. -/
def leadingZeros : Bytes → Nat
  | [] => 0
  | byte :: rest => if byte = 0 then 8 + leadingZeros rest else 7 - byte.toNat.log2

theorem leadingZeros_le (bytes : Bytes) : bytes.leadingZeros ≤ 8 * bytes.length := by
  induction bytes with
  | nil => exact Nat.le_refl _
  | cons byte rest ih =>
    rw [leadingZeros, List.length_cons]
    split <;> omega

/-- The leading bits are zero exactly if the number is below the power of those left. -/
theorem le_leadingZeros_iff {bytes : Bytes} {count : Nat} (hcount : count ≤ 8 * bytes.length) :
    count ≤ bytes.leadingZeros ↔ toNat bytes < 2 ^ (8 * bytes.length - count) := by
  induction bytes generalizing count with
  | nil => simp_all [leadingZeros, toNat]
  | cons byte rest ih =>
    have hrest := toNat_lt_two_pow rest
    rw [List.length_cons] at hcount
    rw [leadingZeros, toNat_cons, List.length_cons]
    by_cases hzero : byte = 0
    · rw [if_pos hzero, hzero, UInt8.toNat_zero, Nat.mul_zero, Nat.zero_add]
      rcases Nat.le_total count 8 with hle | hle
      · have hpow : 2 ^ (8 * rest.length) ≤ 2 ^ (8 * (rest.length + 1) - count) :=
          Nat.pow_le_pow_right (by decide) (by omega)
        exact iff_of_true (by omega) (by omega)
      · obtain ⟨more, rfl⟩ := Nat.exists_eq_add_of_le hle
        have hbits : 8 * (rest.length + 1) - (8 + more) = 8 * rest.length - more := by omega
        rw [hbits, ← ih (by omega)]
        omega
    · have hne : byte.toNat ≠ 0 := fun h => hzero (UInt8.toNat_inj.mp h)
      have hbyte : byte.toNat < 2 ^ 8 := byte.toNat_lt
      have hlog : byte.toNat.log2 < 8 := (Nat.log2_lt hne).mpr hbyte
      rw [if_neg hzero]
      rcases Nat.lt_or_ge count 8 with hlt | hge
      · -- The bits in question are bits of this byte.
        have hbits : 8 * (rest.length + 1) - count = 8 * rest.length + (8 - count) := by omega
        rw [hbits, Nat.pow_add, two_pow_mul_add_lt_iff hrest, ← Nat.log2_lt hne]
        omega
      · have hpow : 2 ^ (8 * (rest.length + 1) - count) ≤ 2 ^ (8 * rest.length) :=
          Nat.pow_le_pow_right (by decide) (by omega)
        have hfront : 2 ^ (8 * rest.length) ≤ 2 ^ (8 * rest.length) * byte.toNat :=
          Nat.le_mul_of_pos_right _ (Nat.pos_of_ne_zero hne)
        exact iff_of_false (by omega) (by omega)

/-! ### Single bits -/

/-- The mask of a position in its byte; positions count from the most significant bit. -/
def mask (position : Nat) : UInt8 := 0x80 >>> UInt8.ofNat (position % 8)

/-- The bit at a position, counted from the most significant bit of the first byte. -/
def bit (bytes : Bytes) (position : Nat) : Bool :=
  bytes.getD (position / 8) 0 &&& mask position != 0

/-- Writes the bit at a position. -/
def setBit (bytes : Bytes) (position : Nat) (value : Bool) : Bytes :=
  bytes.modify (position / 8) fun byte =>
    if value then byte ||| mask position else byte &&& ~~~ mask position

theorem toBitVec_mask (position : Nat) :
    (mask position).toBitVec = BitVec.twoPow 8 (7 - position % 8) := by
  have h : ∀ place : Fin 8,
      ((0x80 : UInt8) >>> UInt8.ofNat place).toBitVec = BitVec.twoPow 8 (7 - place) := by decide
  exact h ⟨position % 8, Nat.mod_lt _ (by decide)⟩

/-- A mask has one bit. -/
theorem getMsbD_mask (position place : Nat) :
    (mask position).toBitVec.getMsbD place = decide (place = position % 8) := by
  have hlt : position % 8 < 8 := Nat.mod_lt _ (by decide)
  rw [toBitVec_mask, BitVec.getMsbD_twoPow, decide_eq_true (show 7 - position % 8 < 8 by omega),
    Bool.true_and]
  congr 1
  rw [eq_iff_iff]
  omega

theorem and_mask_ne_zero (byte : UInt8) (position : Nat) :
    (byte &&& mask position != 0) = byte.toBitVec.getMsbD (position % 8) := by
  have hlt : position % 8 < 8 := Nat.mod_lt _ (by decide)
  have hbit : byte.toBitVec.getMsbD (position % 8) = byte.toBitVec.getLsbD (7 - position % 8) := by
    rw [BitVec.getMsbD_eq_getLsbD, decide_eq_true hlt, Bool.true_and]
  have hone : BitVec.twoPow 8 (7 - position % 8) ≠ 0#8 := by
    intro hzero
    have hset := getMsbD_mask position (position % 8)
    rw [toBitVec_mask, hzero] at hset
    simp at hset
  rw [hbit, Bool.eq_iff_iff, bne_iff_ne, Ne, ← UInt8.toBitVec_inj, UInt8.toBitVec_and,
    toBitVec_mask, BitVec.and_twoPow]
  split
  · rename_i hset
    exact iff_of_true hone hset
  · rename_i hclear
    exact iff_of_false (not_not_intro rfl) hclear

/-- A bit of a byte string is a bit of one of its bytes. -/
theorem bit_eq_getMsbD (bytes : Bytes) (position : Nat) :
    bytes.bit position = (bytes.getD (position / 8) 0).toBitVec.getMsbD (position % 8) := by
  rw [bit, and_mask_ne_zero]

theorem bit_cons_of_lt (byte : UInt8) (rest : Bytes) {position : Nat} (h : position < 8) :
    bit (byte :: rest) position = byte.toBitVec.getMsbD position := by
  rw [bit_eq_getMsbD, Nat.div_eq_of_lt h, Nat.mod_eq_of_lt h]
  rfl

theorem bit_cons_add (byte : UInt8) (rest : Bytes) (position : Nat) :
    bit (byte :: rest) (8 + position) = bit rest position := by
  rw [bit_eq_getMsbD, bit_eq_getMsbD, Nat.add_div_left _ (by decide), Nat.add_mod_left]
  rfl

/-- The bits of a number are those of its bytes. -/
theorem testBit_toNat {bytes : Bytes} {position : Nat} (h : position < 8 * bytes.length) :
    (toNat bytes).testBit (8 * bytes.length - 1 - position) = bytes.bit position := by
  induction bytes generalizing position with
  | nil => simp at h
  | cons byte rest ih =>
    rw [List.length_cons] at h
    rw [toNat_cons, Nat.testBit_two_pow_mul_add _ (toNat_lt_two_pow rest), List.length_cons]
    rcases Nat.lt_or_ge position 8 with hlt | hge
    · have hplace : 8 * (rest.length + 1) - 1 - position - 8 * rest.length = 7 - position := by
        omega
      rw [if_neg (by omega), hplace, bit_cons_of_lt _ _ hlt, BitVec.getMsbD_eq_getLsbD,
        decide_eq_true hlt]
      rfl
    · obtain ⟨later, rfl⟩ := Nat.exists_eq_add_of_le hge
      have hplace : 8 * (rest.length + 1) - 1 - (8 + later) = 8 * rest.length - 1 - later := by
        omega
      rw [if_pos (by omega), hplace, bit_cons_add, ih (by omega)]

@[simp] theorem length_setBit (bytes : Bytes) (position : Nat) (value : Bool) :
    (bytes.setBit position value).length = bytes.length := List.length_modify ..

/-- Writing a bit touches no other, be it of the same byte or of another. -/
theorem bit_setBit {bytes : Bytes} {position : Nat} (h : position < 8 * bytes.length)
    (value : Bool) (other : Nat) :
    (bytes.setBit position value).bit other =
      if other = position then value else bytes.bit other := by
  rw [bit_eq_getMsbD, bit_eq_getMsbD, setBit, List.getD_eq_getElem?_getD,
    List.getD_eq_getElem?_getD, List.getElem?_modify]
  by_cases hbyte : position / 8 = other / 8
  · have hlt : other / 8 < bytes.length := by omega
    have hsame : other % 8 = position % 8 ↔ other = position := by omega
    have hplace : other % 8 < 8 := Nat.mod_lt _ (by decide)
    rw [List.getElem?_eq_getElem hlt]
    cases value <;> by_cases hother : other = position <;>
      simp [hbyte, hsame, hother, hplace, getMsbD_mask]
  · have hother : other ≠ position := fun h => hbyte (by rw [h])
    simp [hbyte, hother]

/-- Byte strings of one length are told apart by their bits. -/
theorem ext_bit {a b : Bytes} (hlength : a.length = b.length)
    (h : ∀ position < 8 * b.length, a.bit position = b.bit position) : a = b := by
  refine toNat_injective hlength (Nat.eq_of_testBit_eq fun place => ?_)
  rcases Nat.lt_or_ge place (8 * b.length) with hlt | hge
  · have hback : 8 * b.length - 1 - (8 * b.length - 1 - place) = place := by omega
    have hread : ∀ {bytes : Bytes}, bytes.length = b.length →
        (toNat bytes).testBit place = bytes.bit (8 * b.length - 1 - place) := by
      intro bytes heq
      rw [← testBit_toNat (by omega), heq, hback]
    rw [hread hlength, hread rfl, h _ (by omega)]
  · have hpow : 2 ^ (8 * b.length) ≤ 2 ^ place := Nat.pow_le_pow_right (by decide) hge
    have ha := toNat_lt_two_pow a
    rw [hlength] at ha
    rw [Nat.testBit_lt_two_pow (Nat.lt_of_lt_of_le ha hpow),
      Nat.testBit_lt_two_pow (Nat.lt_of_lt_of_le (toNat_lt_two_pow b) hpow)]

end Bytes

/-! ### Ids -/

namespace Id

/-- The bytes of an id write its number. -/
theorem toNat_toBytes (id : Id) : id.toBytes.toNat = id.toNat := by
  have hlt : id.toNat < Nat.pow 256 size := by
    rw [show Nat.pow 256 size = 2 ^ width by decide +kernel]
    exact id.bits.isLt
  rw [toBytes, Bytes.toNat_ofNat, Nat.mod_eq_of_lt hlt]

theorem bits_eq_length_toBytes (id : Id) : 8 * id.toBytes.length = width := by
  rw [length_toBytes]
  rfl

/-- The bits of an id are those of its bytes. -/
theorem bit_toBytes (id : Id) {position : Nat} (h : position < width) :
    id.toBytes.bit position = id.bits.getMsbD position := by
  have hlength := id.bits_eq_length_toBytes
  rw [← Bytes.testBit_toNat (by omega), hlength, toNat_toBytes, getMsbD_of_lt _ h]
  rfl

/-- The distance of two ids, as a byte string. -/
def xorBytes (a b : Id) : Bytes := Bytes.xor a.toBytes b.toBytes

@[simp] theorem length_xorBytes (a b : Id) : (a.xorBytes b).length = size := by
  rw [xorBytes, Bytes.length_xor (by rw [length_toBytes, length_toBytes]), length_toBytes]

theorem toNat_xorBytes (a b : Id) : (a.xorBytes b).toNat = a.distance b := by
  rw [xorBytes, Bytes.toNat_xor (by rw [length_toBytes, length_toBytes]), toNat_toBytes,
    toNat_toBytes, distance, BitVec.toNat_xor]
  rfl

/-- Which id is closer is decided by the first byte in which the distances differ. -/
theorem closer_eq_compare_xorBytes (target a b : Id) :
    target.closer a b = compare (target.xorBytes a) (target.xorBytes b) := by
  rw [Bytes.compare_toNat (by rw [length_xorBytes, length_xorBytes]), toNat_xorBytes,
    toNat_xorBytes, closer]

/-- The shared bits are the leading zero bits of the distance. -/
theorem sharedBits_eq_leadingZeros (a b : Id) : a.sharedBits b = (a.xorBytes b).leadingZeros := by
  have hlength : 8 * (a.xorBytes b).length = width := by rw [length_xorBytes]; rfl
  have hiff : ∀ count ≤ width, count ≤ a.sharedBits b ↔ count ≤ (a.xorBytes b).leadingZeros := by
    intro count hcount
    rw [le_sharedBits_iff hcount, Bytes.le_leadingZeros_iff (by omega), hlength, toNat_xorBytes]
  have hshared := (hiff _ (sharedBits_le_width a b)).mp (Nat.le_refl _)
  have hzeros := (a.xorBytes b).leadingZeros_le
  rw [hlength] at hzeros
  exact Nat.le_antisymm hshared ((hiff _ hzeros).mpr (Nat.le_refl _))

end Id

end Kademlia
