import Kademlia.Proofs.Bytewise

/-!
# Kademlia.Proofs.Drawing

Drawing ids of a prescribed neighbourhood. Whatever is drawn, the id made of it has its first bits
from the id whose neighbourhood it is, and its others from the draw. So it lies in the
neighbourhood, and every id of the neighbourhood is made of some draw, of itself for one
(`Id.sharingAtLeast_self`, `Id.sharingExactly_self`): no part of it is out of reach (`Id.drawing`).

The draw is a string of random bytes. `Bytes.copyBits` makes the id of it on the spot, bit by bit,
each through the mask of its byte; `Id.toBytes_sharingAtLeast` and `Id.toBytes_sharingExactly` say
that this loop comes to the same as shifting whole ids.
-/

namespace Kademlia

namespace Bytes

/-! ### Copying bits -/

/-- Writes the first bits of a byte string over those of another, one after the other. -/
def copyBits (source target : Bytes) : Nat → Bytes
  | 0 => target
  | count + 1 => (copyBits source target count).setBit count (source.bit count)

@[simp] theorem length_copyBits (source target : Bytes) (count : Nat) :
    (copyBits source target count).length = target.length := by
  induction count with
  | zero => rfl
  | succ count ih => rw [copyBits, length_setBit, ih]

theorem bit_copyBits {source target : Bytes} {count : Nat} (hcount : count ≤ 8 * target.length)
    (position : Nat) :
    (copyBits source target count).bit position =
      if position < count then source.bit position else target.bit position := by
  induction count with
  | zero => rfl
  | succ count ih =>
    rw [copyBits, bit_setBit (by rw [length_copyBits]; omega), ih (by omega)]
    rcases Nat.lt_trichotomy position count with hlt | rfl | hgt
    · rw [if_neg (by omega), if_pos hlt, if_pos (by omega)]
    · rw [if_pos rfl, if_pos (by omega)]
    · rw [if_neg (by omega), if_neg (by omega), if_neg (by omega)]

end Bytes

namespace Id

variable {id other : Id} {count position : Nat}

/-- An id has its bytes from its bits. -/
theorem toBytes_eq_of_bit {bytes : Bytes} (hlength : bytes.length = size)
    (h : ∀ position < width, id.bits.getMsbD position = bytes.bit position) :
    id.toBytes = bytes := by
  refine Bytes.ext_bit (id.length_toBytes.trans hlength.symm) fun position hposition => ?_
  have hlt : position < width := by
    rwa [hlength] at hposition
  rw [bit_toBytes id hlt, h position hlt]

theorem toBytes_sharingAtLeast (id draw : Id) (count : Nat) :
    (id.sharingAtLeast count draw).toBytes =
      Bytes.copyBits id.toBytes draw.toBytes (min count width) := by
  refine toBytes_eq_of_bit (by rw [Bytes.length_copyBits, length_toBytes]) fun position hlt => ?_
  have hcount : min count width ≤ 8 * draw.toBytes.length := by
    rw [bits_eq_length_toBytes]
    exact Nat.min_le_right ..
  have hiff : position < min count width ↔ position < count := by omega
  rw [getMsbD_sharingAtLeast _ _ _ hlt, Bytes.bit_copyBits hcount, bit_toBytes _ hlt,
    bit_toBytes _ hlt]
  simp only [hiff]

theorem toBytes_sharingExactly (id draw : Id) (hcount : count < width) :
    (id.sharingExactly count draw).toBytes =
      (Bytes.copyBits id.toBytes draw.toBytes count).setBit count (!id.toBytes.bit count) := by
  refine toBytes_eq_of_bit ?_ fun position hlt => ?_
  · rw [Bytes.length_setBit, Bytes.length_copyBits, length_toBytes]
  · have hbits := draw.bits_eq_length_toBytes
    rw [getMsbD_sharingExactly _ _ hcount hlt,
      Bytes.bit_setBit (by rw [Bytes.length_copyBits]; omega), Bytes.bit_copyBits (by omega),
      bit_toBytes _ hlt, bit_toBytes _ hlt, bit_toBytes _ hcount]
    split
    · rename_i heq
      rw [heq]
    · rfl

/-! ### Every id of a neighbourhood is drawn -/

theorem ext_getMsbD
    (h : ∀ position < width, id.bits.getMsbD position = other.bits.getMsbD position) : id = other :=
  congrArg mk (BitVec.eq_of_getMsbD_eq h)

/-- An id of the neighbourhood is made of the draw of itself. -/
theorem sharingAtLeast_self (h : min count width ≤ id.sharedBits other) :
    id.sharingAtLeast count other = other := by
  refine ext_getMsbD fun position hposition => ?_
  rw [getMsbD_sharingAtLeast _ _ _ hposition]
  split
  · exact (le_sharedBits_iff_getMsbD (Nat.min_le_right ..)).mp h position (by omega)
  · rfl

theorem sharingExactly_self (hcount : count < width) (h : id.sharedBits other = count) :
    id.sharingExactly count other = other := by
  have hne : id ≠ other := by
    rintro rfl
    rw [sharedBits_self] at h
    omega
  refine ext_getMsbD fun position hposition => ?_
  rw [getMsbD_sharingExactly _ _ hcount hposition]
  split
  · have hnext := getMsbD_sharedBits_ne hne
    rw [h] at hnext
    rename_i heq
    rw [heq, Bool.not_eq]
    exact hnext
  split
  · rename_i hlt
    have hle : count ≤ id.sharedBits other := Nat.le_of_eq h.symm
    exact (le_sharedBits_iff_getMsbD (Nat.le_of_lt hcount)).mp hle position hlt
  · rfl

/-! ### The result -/

/-- Behind its bits no id has any. -/
theorem bit?_congr (h : position < width →
    id.bits.getMsbD position = other.bits.getMsbD position) :
    id.bit? position = other.bit? position := by
  unfold bit?
  split
  · rename_i hlt
    rw [h hlt]
  · rfl

/-- What drawing ids around an id comes to. -/
structure Drawing (id : Id) (count : Nat) : Prop where
  /-- The bits are copied into the drawn bytes one by one. -/
  bytewise : ∀ bytes : Bytes, bytes.length = size → ∃ draw : Id, draw.toBytes = bytes ∧
    (id.sharingAtLeast count draw).toBytes =
      Bytes.copyBits id.toBytes bytes (min count width) ∧
    (count < width → (id.sharingExactly count draw).toBytes =
      (Bytes.copyBits id.toBytes bytes count).setBit count (!id.toBytes.bit count))
  /-- As many bits are shared as asked for, the next is not, and the bits after it are drawn. -/
  exactly : count < width → ∀ draw, id.sharedBits (id.sharingExactly count draw) = count ∧
    ∀ position > count, (id.sharingExactly count draw).bit? position = draw.bit? position
  exactly_all : count < width → ∀ other, id.sharedBits other = count →
    ∃ draw, id.sharingExactly count draw = other
  whole : width ≤ count → ∀ draw, id.sharingExactly count draw = id
  /-- At least the bits asked for are shared, and all others are drawn. -/
  within : ∀ draw, min count width ≤ id.sharedBits (id.sharingAtLeast count draw) ∧
    ∀ position ≥ count, (id.sharingAtLeast count draw).bit? position = draw.bit? position
  within_all : ∀ other, min count width ≤ id.sharedBits other →
    ∃ draw, id.sharingAtLeast count draw = other

/-- **Drawing reaches the whole neighbourhood, and nothing else.** -/
theorem drawing (id : Id) (count : Nat) : Drawing id count where
  bytewise := by
    intro bytes hlength
    obtain ⟨draw, rfl⟩ := exists_toBytes_eq hlength
    exact ⟨draw, rfl, toBytes_sharingAtLeast id draw count, toBytes_sharingExactly id draw⟩
  exactly := by
    intro hcount draw
    refine ⟨sharedBits_sharingExactly id draw hcount, fun position hafter => ?_⟩
    refine bit?_congr fun hposition => ?_
    rw [getMsbD_sharingExactly _ _ hcount hposition, if_neg (by omega), if_neg (by omega)]
  exactly_all := fun hcount other h => ⟨other, sharingExactly_self hcount h⟩
  whole := by
    intro hcount draw
    rw [sharingExactly, if_neg (by omega)]
  within := by
    intro draw
    refine ⟨min_le_sharedBits_sharingAtLeast id draw count, fun position hafter => ?_⟩
    refine bit?_congr fun hposition => ?_
    rw [getMsbD_sharingAtLeast _ _ _ hposition, if_neg (by omega)]
  within_all := fun other h => ⟨other, sharingAtLeast_self h⟩

end Id

end Kademlia
