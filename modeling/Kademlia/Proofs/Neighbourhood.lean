import Kademlia.Proofs.Metric

/-!
# Kademlia.Proofs.Neighbourhood

The neighbourhoods that ids are drawn from. Sharing a number of bits is a matter of the bits in
front, one by one (`Id.le_sharedBits_iff_getMsbD`), so an id that takes its first bits from another
shares at least those, whatever the draw (`Id.le_sharedBits_sharingAtLeast`), and one that takes the
next bit the other way round shares no more (`Id.sharedBits_sharingExactly`).
-/

namespace Kademlia

namespace Id

/-- Positions count from the front, places from the end. -/
theorem getMsbD_of_lt (bits : BitVec width) {position : Nat} (h : position < width) :
    bits.getMsbD position = bits.getLsbD (width - 1 - position) := by
  rw [BitVec.getMsbD_eq_getLsbD, decide_eq_true h, Bool.true_and]

/-- A distance has the bits in which the ids differ. -/
theorem testBit_distance (a b : Id) (place : Nat) :
    (a.distance b).testBit place = (a.bits.getLsbD place ^^ b.bits.getLsbD place) := by
  rw [distance, BitVec.testBit_toNat, BitVec.getLsbD_xor]

/-- Ids share their first `count` bits exactly if these agree one by one. -/
theorem le_sharedBits_iff_getMsbD {a b : Id} {count : Nat} (hcount : count ≤ width) :
    count ≤ a.sharedBits b ↔
      ∀ position < count, a.bits.getMsbD position = b.bits.getMsbD position := by
  rw [le_sharedBits_iff hcount]
  constructor
  · intro hlt position hposition
    have hpower : 2 ^ (width - count) ≤ 2 ^ (width - 1 - position) :=
      Nat.pow_le_pow_right (by decide) (by omega)
    have hsame := Nat.testBit_lt_two_pow (Nat.lt_of_lt_of_le hlt hpower)
    rw [testBit_distance] at hsame
    rw [getMsbD_of_lt _ (by omega), getMsbD_of_lt _ (by omega)]
    simpa using hsame
  · intro hagree
    refine Nat.lt_pow_two_of_testBit _ fun place hplace => ?_
    rw [testBit_distance]
    rcases Nat.lt_or_ge place width with hlt | hge
    · have hsame := hagree (width - 1 - place) (by omega)
      have hback : width - 1 - (width - 1 - place) = place := by omega
      rw [getMsbD_of_lt _ (by omega), getMsbD_of_lt _ (by omega), hback] at hsame
      rw [hsame, Bool.xor_self]
    · rw [BitVec.getLsbD_of_ge _ _ hge, BitVec.getLsbD_of_ge _ _ hge, Bool.xor_self]

/-- The bit behind the shared ones is not shared. -/
theorem getMsbD_sharedBits_ne {a b : Id} (h : a ≠ b) :
    a.bits.getMsbD (a.sharedBits b) ≠ b.bits.getMsbD (a.sharedBits b) := by
  intro hsame
  have hlt := sharedBits_lt_width h
  have hmore : a.sharedBits b + 1 ≤ a.sharedBits b := by
    rw [le_sharedBits_iff_getMsbD hlt]
    intro position hposition
    rcases Nat.lt_succ_iff_lt_or_eq.mp hposition with hbefore | rfl
    · exact (le_sharedBits_iff_getMsbD (Nat.le_of_lt hlt)).mp (Nat.le_refl _) _ hbefore
    · exact hsame
  exact Nat.not_succ_le_self _ hmore

theorem bit?_of_lt (id : Id) {position : Nat} (h : position < width) :
    id.bit? position = some (id.bits.getMsbD position) := if_pos h

/-- An id that has its first bits from another shares them, as far as there are any. -/
theorem min_le_sharedBits_sharingAtLeast (id draw : Id) (count : Nat) :
    min count width ≤ id.sharedBits (id.sharingAtLeast count draw) := by
  rw [le_sharedBits_iff_getMsbD (Nat.min_le_right ..)]
  intro position hposition
  rw [getMsbD_sharingAtLeast _ _ _ (by omega), if_pos (by omega)]

theorem le_sharedBits_sharingAtLeast (id draw : Id) {count : Nat} (hcount : count ≤ width) :
    count ≤ id.sharedBits (id.sharingAtLeast count draw) := by
  have h := min_le_sharedBits_sharingAtLeast id draw count
  rwa [Nat.min_eq_left hcount] at h

/-- One bit of an id is the other way round. -/
theorem getMsbD_flip (id : Id) {count : Nat} (hcount : count < width) (position : Nat) :
    (id.flip count).bits.getMsbD position =
      (id.bits.getMsbD position ^^ decide (position = count)) := by
  have hone : (1 : BitVec width) <<< (width - 1 - count) =
      BitVec.twoPow width (width - 1 - count) := (BitVec.twoPow_eq ..).symm
  have hplace : width - (width - 1 - count) - 1 = count := by omega
  rw [flip, hone, BitVec.getMsbD_xor, BitVec.getMsbD_twoPow, hplace,
    decide_eq_true (show width - 1 - count < width by omega), Bool.true_and]

/-- An id that shares exactly some bits has those from the id, the next the other way round, and the
others from the draw. -/
theorem getMsbD_sharingExactly (id draw : Id) {count position : Nat} (hcount : count < width)
    (hposition : position < width) :
    (id.sharingExactly count draw).bits.getMsbD position =
      if position = count then !id.bits.getMsbD position
      else if position < count then id.bits.getMsbD position
      else draw.bits.getMsbD position := by
  rw [sharingExactly, if_pos hcount, getMsbD_sharingAtLeast _ _ _ hposition, getMsbD_flip id hcount]
  rcases Nat.lt_trichotomy position count with hlt | rfl | hgt
  · rw [if_pos (by omega), if_neg (by omega), if_pos hlt, decide_eq_false (by omega),
      Bool.xor_false]
  · rw [if_pos (by omega), if_pos rfl, decide_eq_true rfl, Bool.xor_true]
  · rw [if_neg (by omega), if_neg (by omega), if_neg (by omega)]

/-- An id that has its first bits from another and the next one the other way round shares exactly
those. -/
theorem sharedBits_sharingExactly (id draw : Id) {count : Nat} (hcount : count < width) :
    id.sharedBits (id.sharingExactly count draw) = count := by
  refine Nat.le_antisymm (Nat.le_of_not_lt fun hmore => ?_) ?_
  · have hsame := (le_sharedBits_iff_getMsbD hcount).mp hmore count (Nat.lt_succ_self count)
    rw [getMsbD_sharingExactly _ _ hcount hcount, if_pos rfl] at hsame
    simp at hsame
  · rw [le_sharedBits_iff_getMsbD (Nat.le_of_lt hcount)]
    intro position hposition
    rw [getMsbD_sharingExactly _ _ hcount (by omega), if_neg (Nat.ne_of_lt hposition),
      if_pos hposition]

end Id

end Kademlia
