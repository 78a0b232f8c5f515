import Kademlia.Bytes

/-!
# Kademlia.Id.Basic

Identifiers of nodes, keys and lookup targets: one space of 384 bits with the XOR metric.

* `Id.distance` reads the XOR of two ids as a number, so "closer" is "less" on numbers.
* `Id.sharedBits` counts the leading bits that two ids have in common; it decides which bucket of
  a routing table an id belongs to.
* `Id.sharingAtLeast` and `Id.sharingExactly` turn a draw of 384 random bits into an id of a
  prescribed neighbourhood. The draw is an argument, so both are functions.
-/

namespace Kademlia

/-- The number of bits of an id. -/
abbrev Id.width : Nat := 384

/-- The number of bytes of an id. -/
def Id.size : Nat := 48

/-- The identifier of a node, of a key or of a lookup target. -/
structure Id where
  /-- The bits, the leading one being the most significant. -/
  bits : BitVec Id.width
deriving DecidableEq, Hashable

namespace Id

/-- The id all of whose bits are zero. -/
def zero : Id := ⟨0⟩

instance : Inhabited Id := ⟨zero⟩

/-- The number that the id's bytes write, most significant byte first. -/
def toNat (id : Id) : Nat := id.bits.toNat

/-- Ids are ordered as the numbers they write, which is the order of their bytes. -/
instance : LT Id := ⟨fun a b => a.toNat < b.toNat⟩

instance : LE Id := ⟨fun a b => a.toNat ≤ b.toNat⟩

instance (a b : Id) : Decidable (a < b) := inferInstanceAs (Decidable (a.toNat < b.toNat))

instance (a b : Id) : Decidable (a ≤ b) := inferInstanceAs (Decidable (a.toNat ≤ b.toNat))

instance : Ord Id := ⟨fun a b => compare a.toNat b.toNat⟩

/-! ### Bytes -/

/-- The bytes of an id. -/
def toBytes (id : Id) : Bytes := Bytes.ofNat size id.toNat

/-- The id with the given bytes, if their number is right. -/
def ofBytes? (bytes : Bytes) : Option Id :=
  if bytes.length = size then some ⟨BitVec.ofNat width bytes.toNat⟩ else none

@[simp] theorem length_toBytes (id : Id) : id.toBytes.length = size := Bytes.length_ofNat ..

theorem toNat_inj {a b : Id} : a.toNat = b.toNat ↔ a = b := by
  constructor
  · intro h
    cases a; cases b
    exact congrArg Id.mk (BitVec.eq_of_toNat_eq h)
  · rintro rfl; rfl

/-- An id is read back from its bytes. -/
@[simp] theorem ofBytes?_toBytes (id : Id) : ofBytes? id.toBytes = some id := by
  rw [ofBytes?, if_pos id.length_toBytes, toBytes, Bytes.toNat_ofNat]
  refine congrArg some (toNat_inj.mp ?_)
  have hpow : ∀ count, 256 ^ count = 2 ^ (8 * count) := fun count => by rw [Nat.pow_mul]
  have hwidth : 8 * size = width := rfl
  have hsize : 256 ^ size = 2 ^ width := hwidth ▸ hpow size
  show (BitVec.ofNat width (id.toNat % 256 ^ size)).toNat = id.toNat
  rw [BitVec.toNat_ofNat, hsize, Nat.mod_mod]
  exact Nat.mod_eq_of_lt id.bits.isLt

/-- The ids are read off the byte strings of their length, and off no others. -/
theorem ofBytes?_eq_some_iff {bytes : Bytes} {id : Id} :
    ofBytes? bytes = some id ↔ id.toBytes = bytes := by
  refine ⟨fun h => ?_, fun h => h ▸ ofBytes?_toBytes id⟩
  rw [ofBytes?] at h
  split at h
  · rename_i hsize
    obtain rfl := Option.some.inj h
    have hlt : bytes.toNat < 2 ^ width := by
      have hfits := Bytes.toNat_lt bytes
      rwa [hsize, show Nat.pow 256 size = 2 ^ width by decide +kernel] at hfits
    have hread : (Id.mk (BitVec.ofNat width bytes.toNat)).toNat = bytes.toNat :=
      (BitVec.toNat_ofNat ..).trans (Nat.mod_eq_of_lt hlt)
    rw [toBytes, hread, ← hsize, Bytes.ofNat_toNat]
  · cases h

theorem exists_toBytes_eq {bytes : Bytes} (h : bytes.length = size) : ∃ id, toBytes id = bytes :=
  ⟨_, ofBytes?_eq_some_iff.mp (if_pos h)⟩

/-! ### The metric -/

/-- The distance between two ids: the XOR of their bits, as a number. -/
def distance (a b : Id) : Nat := (a.bits ^^^ b.bits).toNat

/-- Which of two ids is closer to a target: `lt` if it is the first. -/
def closer (target a b : Id) : Ordering := compare (target.distance a) (target.distance b)

/-- The leading zero bits of a distance, among as many bits as an id has. -/
def leadingZeros (distance : Nat) : Nat :=
  if distance = 0 then width else width - 1 - distance.log2

/-- How many leading bits two ids share: all of them exactly if the ids are equal. -/
def sharedBits (a b : Id) : Nat := leadingZeros (a.distance b)

/-- The bit at a position counted from the most significant one, if there is one. -/
def bit? (id : Id) (position : Nat) : Option Bool :=
  if position < width then some (id.bits.getMsbD position) else none

@[simp] theorem distance_self (a : Id) : a.distance a = 0 := by simp [distance]

theorem distance_comm (a b : Id) : a.distance b = b.distance a := by
  rw [distance, distance, BitVec.xor_comm]

/-- Only the id itself is at distance zero. -/
theorem distance_eq_zero_iff {a b : Id} : a.distance b = 0 ↔ a = b := by
  constructor
  · intro h
    have hxor : a.bits ^^^ b.bits = BitVec.ofNat width 0 :=
      BitVec.toNat_inj.mp (h.trans BitVec.toNat_zero.symm)
    cases a; cases b
    exact congrArg Id.mk (BitVec.xor_eq_zero_iff.mp hxor)
  · rintro rfl; exact distance_self a

/-- From a fixed target, ids are told apart by their distance. -/
theorem distance_inj {target a b : Id} : target.distance a = target.distance b ↔ a = b := by
  constructor
  · intro h
    have hbits : target.bits ^^^ a.bits = target.bits ^^^ b.bits := BitVec.eq_of_toNat_eq h
    cases a; cases b
    exact congrArg Id.mk ((BitVec.xor_right_inj target.bits).mp hbits)
  · rintro rfl; rfl

/-- Not all bits are shared with another id. -/
theorem sharedBits_lt_width {a b : Id} (h : a ≠ b) : a.sharedBits b < width := by
  have hne : a.distance b ≠ 0 := fun h0 => h (distance_eq_zero_iff.mp h0)
  rw [sharedBits, leadingZeros, if_neg hne]
  show 383 - _ < 384
  omega

@[simp] theorem sharedBits_self (a : Id) : a.sharedBits a = width := by
  simp [sharedBits, leadingZeros]

/-! ### Ids of a prescribed neighbourhood -/

/-- The id that differs in one bit only, counted from the most significant one. -/
def flip (id : Id) (position : Nat) : Id :=
  ⟨id.bits ^^^ ((1 : BitVec width) <<< (width - 1 - position))⟩

/-- The id that has its first `count` bits from `id` and the others from the draw; `id` itself if
there are no others. -/
def sharingAtLeast (id : Id) (count : Nat) (draw : Id) : Id :=
  let shared := min count width
  ⟨((id.bits >>> (width - shared)) <<< (width - shared)) |||
    ((draw.bits <<< shared) >>> shared)⟩

/-- The id that has its first `count` bits from `id`, the next bit opposite, and the others from
the draw; `id` itself if there is no next bit. -/
def sharingExactly (id : Id) (count : Nat) (draw : Id) : Id :=
  if count < width then (id.flip count).sharingAtLeast (count + 1) draw else id

/-- The bits of an id that shares at least `count` bits with another. -/
theorem getMsbD_sharingAtLeast (id draw : Id) (count : Nat) {position : Nat}
    (hposition : position < width) :
    (id.sharingAtLeast count draw).bits.getMsbD position =
      if position < count then id.bits.getMsbD position else draw.bits.getMsbD position := by
  obtain ⟨shared, hshared⟩ : ∃ shared, shared = min count width := ⟨_, rfl⟩
  have hiff : position < count ↔ position < shared := by omega
  simp only [sharingAtLeast, ← hshared, hiff, BitVec.getMsbD_or, BitVec.getMsbD_shiftLeft,
    BitVec.getMsbD_ushiftRight]
  by_cases h : position < shared
  · rw [if_pos h]
    have h1 : position + (width - shared) < width := by omega
    have h2 : ¬ position + (width - shared) < width - shared := by omega
    simp [h, h1]
  · rw [if_neg h]
    have h1 : ¬ position + (width - shared) < width := by omega
    have h2 : position - shared + shared = position := by omega
    simp [h, h1, hposition, h2]

end Id

end Kademlia
