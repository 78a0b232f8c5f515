import Kademlia.Proofs.Bytewise
import Mathlib.Data.Nat.Basic
import Mathlib.Order.RelClasses

/-!
# Kademlia.Proofs.MetricLaws

The laws of the XOR metric (`Id.metricLaws`), for any ids. They come in three views of a distance,
which `Id.MetricLaws` ties together: the bytes it is stored in, the number they write, and the bits
of that number from the front.

* In the number, XOR adds without carrying, so it stays below the sum: the triangle inequality
  (`Id.distance_triangle`).
* In the bits, the first difference is where the shared bits end (`Id.firstDifference`), and of
  three ids the two that share most agree on where they leave the third (`Id.min_sharedBits_le`).
* A target tells ids apart by their distance (`Id.distance_inj`), so being closer to it is the
  order of numbers, taken over to ids.
-/

namespace Kademlia

namespace Id

variable {a b c target : Id}

/-! ### The triangle inequality -/

/-- XOR is addition without carrying. -/
theorem xor_le_add (x y : Nat) : x ^^^ y ≤ x + y := by
  induction x using Nat.strongRecOn generalizing y with
  | ind x ih =>
    rcases Nat.eq_zero_or_pos x with rfl | hpos
    · rw [Nat.zero_xor]
      exact Nat.le_add_left y 0
    · have hhalves : (x ^^^ y) / 2 ≤ x / 2 + y / 2 := by
        rw [Nat.xor_div_two]
        exact ih (x / 2) (by omega) (y / 2)
      have hlast : (x ^^^ y) % 2 ≤ x % 2 + y % 2 := by
        have hone := Nat.xor_mod_two_eq_one (a := x) (b := y)
        omega
      omega

theorem distance_triangle (a b c : Id) : a.distance c ≤ a.distance b + b.distance c := by
  rw [distance_eq_xor a b c]
  exact xor_le_add ..

/-! ### The first difference -/

/-- A position is the first at which two ids differ; it is behind all bits if they do not. -/
structure FirstDifference (a b : Id) (position : Nat) : Prop where
  agree : ∀ earlier < position, a.bit? earlier = b.bit? earlier
  differ : a ≠ b → position < width ∧ a.bit? position ≠ b.bit? position
  equal : a = b → position = width

theorem firstDifference (a b : Id) : a.FirstDifference b (a.sharedBits b) where
  agree := by
    intro earlier hearlier
    have hle := sharedBits_le_width a b
    have hsame := (le_sharedBits_iff_getMsbD hle).mp (Nat.le_refl _) earlier hearlier
    rw [bit?_of_lt a (by omega), bit?_of_lt b (by omega), hsame]
  differ := by
    intro hne
    have hlt := sharedBits_lt_width hne
    refine ⟨hlt, fun hsame => ?_⟩
    rw [bit?_of_lt a hlt, bit?_of_lt b hlt, Option.some.injEq] at hsame
    exact getMsbD_sharedBits_ne hne hsame
  equal := by
    rintro rfl
    exact sharedBits_self a

/-! ### Three ids -/

/-- Two ids that share different numbers of bits with a third share the lesser number. -/
theorem sharedBits_eq_min_of_ne (h : a.sharedBits b ≠ b.sharedBits c) :
    a.sharedBits c = min (a.sharedBits b) (b.sharedBits c) := by
  rcases Nat.lt_or_gt_of_ne h with hlt | hgt
  · rw [sharedBits_eq_of_lt hlt, Nat.min_eq_left (Nat.le_of_lt hlt)]
  · have hswap : c.sharedBits b < b.sharedBits a := by
      rwa [sharedBits_comm c b, sharedBits_comm b a]
    rw [sharedBits_comm a c, sharedBits_eq_of_lt hswap, sharedBits_comm c b,
      Nat.min_eq_right (Nat.le_of_lt hgt)]

/-! ### Being closer -/

theorem closer_eq_lt_iff : target.closer a b = .lt ↔ target.distance a < target.distance b :=
  Nat.compare_eq_lt

theorem closer_eq_eq_iff : target.closer a b = .eq ↔ a = b :=
  Nat.compare_eq_eq.trans distance_inj

theorem closer_swap (target a b : Id) : (target.closer a b).swap = target.closer b a :=
  Nat.compare_swap ..

/-- Being closer to a target orders all ids. -/
theorem isStrictTotalOrder_closer (target : Id) :
    IsStrictTotalOrder Id fun a b => target.closer a b = .lt := by
  have hinjective : Function.Injective target.distance := fun _ _ => distance_inj.mp
  have horder := hinjective.isStrictTotalOrder_onFun (r := (· < ·))
  have heq : (fun a b => target.closer a b = .lt) = Function.onFun (· < ·) target.distance := by
    funext a b
    exact propext closer_eq_lt_iff
  exact heq ▸ horder

/-! ### The laws -/

/-- What holds of the distances between any three ids and a target. -/
structure MetricLaws (target a b c : Id) : Prop where
  /-- The distance is the number that the XOR of the bytes writes. -/
  distance_eq : a.distance b = (a.xorBytes b).toNat
  /-- The shared bits are counted over the same bytes. -/
  sharedBits_eq : a.sharedBits b = (a.xorBytes b).leadingZeros
  /-- Distances compare as their bytes do. -/
  closer_eq : target.closer a b = compare (target.xorBytes a) (target.xorBytes b)
  /-- A bit is read off one byte, through a mask. -/
  bit?_eq : ∀ position < width, a.bit? position = some (a.toBytes.bit position)
  firstDifference : a.FirstDifference b (a.sharedBits b)
  symmetric : a.distance b = b.distance a
  eq_zero_iff : a.distance b = 0 ↔ a = b
  triangle : a.distance c ≤ a.distance b + b.distance c
  min_le : min (a.sharedBits b) (b.sharedBits c) ≤ a.sharedBits c
  eq_min : a.sharedBits b ≠ b.sharedBits c →
    a.sharedBits c = min (a.sharedBits b) (b.sharedBits c)
  order : IsStrictTotalOrder Id fun a b => target.closer a b = .lt
  oriented : (target.closer a b).swap = target.closer b a
  closer_eq_iff : target.closer a b = .eq ↔ a = b
  /-- More shared bits mean closer. -/
  closer_of_lt : target.sharedBits b < target.sharedBits a → target.closer a b = .lt

/-- **The XOR metric.** -/
theorem metricLaws (target a b c : Id) : MetricLaws target a b c where
  distance_eq := (toNat_xorBytes a b).symm
  sharedBits_eq := sharedBits_eq_leadingZeros a b
  closer_eq := closer_eq_compare_xorBytes target a b
  bit?_eq := by
    intro position hposition
    rw [bit?_of_lt a hposition, bit_toBytes a hposition]
  firstDifference := firstDifference a b
  symmetric := distance_comm a b
  eq_zero_iff := distance_eq_zero_iff
  triangle := distance_triangle a b c
  min_le := min_sharedBits_le a b c
  eq_min := sharedBits_eq_min_of_ne
  order := isStrictTotalOrder_closer target
  oriented := closer_swap target a b
  closer_eq_iff := closer_eq_eq_iff
  closer_of_lt := by
    intro hlt
    exact closer_eq_lt_iff.mpr (distance_lt_of_sharedBits_lt hlt)

end Id

end Kademlia
