/-!
# Kademlia.Bytes

Byte strings as lists, so that readers and writers recurse on them directly. This module provides:

* `Bytes.ofNat`/`Bytes.toNat`: numbers of a fixed count of bytes, most significant byte first,
  with `toNat_ofNat` and `ofNat_toNat` saying that each undoes the other;
* `Bytes.splitAt?`: cutting off a front of given length; and
* `Bytes.toHex`: the hexadecimal form, two lower case digits a byte.
-/

namespace Kademlia

/-- A byte string. -/
abbrev Bytes := List UInt8

namespace Bytes

/-- The `count` least significant bytes of a number, most significant first. -/
def ofNat : Nat → Nat → Bytes
  | 0, _ => []
  | count + 1, n => ofNat count (n / 256) ++ [UInt8.ofNat n]

/-- The number whose bytes are given, most significant first. -/
def toNat (bytes : Bytes) : Nat :=
  bytes.foldl (fun n byte => 256 * n + byte.toNat) 0

@[simp] theorem length_ofNat (count n : Nat) : (ofNat count n).length = count := by
  induction count generalizing n with
  | zero => rfl
  | succ count ih => simp [ofNat, ih]

@[simp] theorem toNat_nil : toNat [] = 0 := rfl

@[simp] theorem toNat_concat (bytes : Bytes) (byte : UInt8) :
    toNat (bytes ++ [byte]) = 256 * toNat bytes + byte.toNat := by
  simp [toNat]

/-- Writing a number and reading it back keeps what fits into the bytes. -/
theorem toNat_ofNat (count n : Nat) : toNat (ofNat count n) = n % Nat.pow 256 count := by
  show _ = n % 256 ^ count
  induction count generalizing n with
  | zero => simp [ofNat, Nat.mod_one]
  | succ count ih =>
    rw [ofNat, toNat_concat, ih, Nat.pow_succ, Nat.mul_comm (256 ^ count), Nat.mod_mul]
    simp only [UInt8.toNat_ofNat']
    omega

/-- Every byte string is the written form of its own number. -/
theorem ofNat_toNat (bytes : Bytes) : ofNat bytes.length (toNat bytes) = bytes := by
  induction h : bytes.length generalizing bytes with
  | zero => simp_all [ofNat]
  | succ count ih =>
    have hne : bytes ≠ [] := by intro he; simp [he] at h
    obtain ⟨front, last, rfl⟩ : ∃ front last, bytes = front ++ [last] :=
      ⟨bytes.dropLast, bytes.getLast hne, (List.dropLast_concat_getLast hne).symm⟩
    have hlast := last.toNat_lt
    have hdiv : (256 * toNat front + last.toNat) / 256 = toNat front := by omega
    have hfront : front.length = count := by simpa using h
    rw [toNat_concat, ofNat, hdiv, ih front hfront]
    congr 1
    rw [List.cons.injEq]
    refine ⟨UInt8.toNat_inj.mp ?_, rfl⟩
    simp only [UInt8.toNat_ofNat']
    omega

/-- The number of a byte string fits into its bytes. -/
theorem toNat_lt (bytes : Bytes) : toNat bytes < Nat.pow 256 bytes.length := by
  have hread := toNat_ofNat bytes.length (toNat bytes)
  rw [ofNat_toNat] at hread
  rw [hread]
  exact Nat.mod_lt _ (Nat.pow_pos (by decide))

/-- The first `count` bytes and the bytes after them, if there are as many. No more of a byte string
is looked at than its front, so cutting a long one up costs no more than its length. -/
def splitAt? (count : Nat) (bytes : Bytes) : Option (Bytes × Bytes) :=
  let front := bytes.take count
  if front.length = count then some (front, bytes.drop count) else none

@[simp] theorem splitAt?_append (front back : Bytes) :
    splitAt? front.length (front ++ back) = some (front, back) := by
  simp [splitAt?]

/-- The two digits of a byte. -/
def hexDigits (byte : UInt8) : List Char :=
  [Nat.digitChar (byte.toNat / 16), Nat.digitChar (byte.toNat % 16)]

/-- The hexadecimal form of a byte string, in lower case. -/
def toHex (bytes : Bytes) : String :=
  String.ofList (bytes.flatMap hexDigits)

end Bytes

end Kademlia
