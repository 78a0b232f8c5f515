import Kademlia.Id.Basic
import Mathlib.Algebra.Group.Nat.Defs

/-!
# Kademlia.Proofs.Metric

The XOR metric and the number of shared leading bits are two views of the same thing: an id shares
at least `n` bits with another exactly if their distance has no bit among its first `n`
(`Id.le_sharedBits_iff`). Everything else here is read off that equivalence:

* shared bits form an ultrametric (`min_sharedBits_le`, `sharedBits_eq_of_lt`);
* two ids that part from a third at the same bit agree on that bit, because there are only two
  values for it (`lt_sharedBits_of_eq`); and
* more shared bits mean a smaller distance (`distance_lt_of_sharedBits_lt`).
-/

namespace Kademlia

namespace Id

/-! ### Shared bits as a bound on the distance -/

theorem distance_lt (a b : Id) : a.distance b < 2 ^ width := (a.bits ^^^ b.bits).isLt

theorem sharedBits_le_width (a b : Id) : a.sharedBits b ≤ width := by
  by_cases h : a = b
  · exact h ▸ Nat.le_of_eq (sharedBits_self a)
  · exact Nat.le_of_lt (sharedBits_lt_width h)

theorem sharedBits_comm (a b : Id) : a.sharedBits b = b.sharedBits a := by
  rw [sharedBits, sharedBits, distance_comm]

/-- Ids share their first `count` bits exactly if their distance has only the bits after those. -/
theorem le_sharedBits_iff {a b : Id} {count : Nat} (hcount : count ≤ width) :
    count ≤ a.sharedBits b ↔ a.distance b < 2 ^ (width - count) := by
  by_cases hzero : a.distance b = 0
  · have hpos : 0 < 2 ^ (width - count) := Nat.two_pow_pos _
    rw [sharedBits, leadingZeros, if_pos hzero, hzero]
    exact iff_of_true hcount hpos
  · have hlog : (a.distance b).log2 < width := (Nat.log2_lt hzero).mpr (distance_lt a b)
    rw [sharedBits, leadingZeros, if_neg hzero, ← Nat.log2_lt hzero]
    omega

/-- More shared bits mean a smaller distance. -/
theorem distance_lt_of_sharedBits_lt {target near far : Id}
    (h : target.sharedBits far < target.sharedBits near) :
    target.distance near < target.distance far := by
  have hle := sharedBits_le_width target near
  have hnear : target.distance near < 2 ^ (width - (target.sharedBits far + 1)) :=
    (le_sharedBits_iff (by omega)).mp h
  have hfar : ¬ target.distance far < 2 ^ (width - (target.sharedBits far + 1)) := by
    rw [← le_sharedBits_iff (by omega)]
    omega
  omega

/-! ### Three ids -/

/-- The distance between two ids is the XOR of their distances to a third. -/
theorem distance_eq_xor (a b c : Id) : a.distance c = a.distance b ^^^ b.distance c := by
  have hbits : a.bits ^^^ c.bits = (a.bits ^^^ b.bits) ^^^ (b.bits ^^^ c.bits) := by
    rw [BitVec.xor_assoc, ← BitVec.xor_assoc b.bits, BitVec.xor_self, BitVec.zero_xor]
  rw [distance, hbits, BitVec.toNat_xor]
  rfl

/-- What two ids share with a third they share with each other. -/
theorem min_sharedBits_le (a b c : Id) :
    min (a.sharedBits b) (b.sharedBits c) ≤ a.sharedBits c := by
  have hle := sharedBits_le_width a b
  have hcount : min (a.sharedBits b) (b.sharedBits c) ≤ width := by omega
  have hab := (le_sharedBits_iff hcount).mp (Nat.min_le_left (a.sharedBits b) _)
  have hbc := (le_sharedBits_iff hcount).mp (Nat.min_le_right _ (b.sharedBits c))
  rw [le_sharedBits_iff hcount, distance_eq_xor a b c]
  exact Nat.xor_lt_two_pow hab hbc

/-- Of three ids, the two that share most share as many bits with the third. -/
theorem sharedBits_eq_of_lt {a b c : Id} (h : a.sharedBits b < b.sharedBits c) :
    a.sharedBits c = a.sharedBits b := by
  have h1 := min_sharedBits_le a b c
  have h2 := min_sharedBits_le a c b
  rw [sharedBits_comm c b] at h2
  omega

/-- A number with its leading bit at `n`, XORed with another such number, loses that bit. -/
theorem xor_lt_of_same_log {x y n : Nat} (hx : x < 2 ^ (n + 1)) (hy : y < 2 ^ (n + 1))
    (hx' : 2 ^ n ≤ x) (hy' : 2 ^ n ≤ y) : x ^^^ y < 2 ^ n := by
  refine Nat.lt_pow_two_of_testBit _ fun i hi => ?_
  rw [Nat.testBit_xor]
  rcases Nat.eq_or_lt_of_le hi with rfl | hlt
  · rw [Nat.testBit_of_two_pow_le_and_two_pow_add_one_gt hx' hx,
      Nat.testBit_of_two_pow_le_and_two_pow_add_one_gt hy' hy]
    rfl
  · have hpow : 2 ^ (n + 1) ≤ 2 ^ i := Nat.pow_le_pow_right (by decide) hlt
    rw [Nat.testBit_lt_two_pow (Nat.lt_of_lt_of_le hx hpow),
      Nat.testBit_lt_two_pow (Nat.lt_of_lt_of_le hy hpow)]
    rfl

/-- Two ids that part from a third at the same bit share that bit too: it has only two values. -/
theorem lt_sharedBits_of_eq {a b c : Id} (h : a.sharedBits b = a.sharedBits c)
    (hlt : a.sharedBits b < width) : a.sharedBits b < b.sharedBits c := by
  obtain ⟨n, hn⟩ : ∃ n, width - a.sharedBits b = n + 1 := ⟨width - a.sharedBits b - 1, by omega⟩
  have hn' : width - (a.sharedBits b + 1) = n := by omega
  have hbounds : ∀ {other : Id}, a.sharedBits b = a.sharedBits other →
      a.distance other < 2 ^ (n + 1) ∧ 2 ^ n ≤ a.distance other := by
    intro other hother
    constructor
    · rw [← hn, ← le_sharedBits_iff (by omega)]
      exact Nat.le_of_eq hother
    · refine Nat.not_lt.mp ?_
      rw [← hn', ← le_sharedBits_iff hlt, hother]
      omega
  obtain ⟨hb, hb'⟩ := hbounds rfl
  obtain ⟨hc, hc'⟩ := hbounds h
  show a.sharedBits b + 1 ≤ b.sharedBits c
  rw [le_sharedBits_iff hlt, hn', distance_eq_xor b a c, distance_comm b a]
  exact xor_lt_of_same_log hb hc hb' hc'

end Id

end Kademlia
