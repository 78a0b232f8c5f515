import Kademlia.Bytes

/-!
# Kademlia.TransactionId

The token of twenty bytes by which an answer names the request it belongs to.
-/

namespace Kademlia

/-- The number of bits of a transaction id. -/
abbrev TransactionId.width : Nat := 160

/-- The number of bytes of a transaction id. -/
def TransactionId.size : Nat := 20

/-- The token that an answer repeats from its request. -/
structure TransactionId where
  /-- The bits, the leading one being the most significant. -/
  bits : BitVec TransactionId.width
deriving DecidableEq, Hashable

namespace TransactionId

/-- The number that the token's bytes write. -/
def toNat (transaction : TransactionId) : Nat := transaction.bits.toNat

/-- The token whose bytes write a number, as far as it fits. -/
def ofNat (n : Nat) : TransactionId := ⟨BitVec.ofNat width n⟩

/-- The bytes of a token. -/
def toBytes (transaction : TransactionId) : Bytes := Bytes.ofNat size transaction.toNat

/-- The token with the given bytes, if their number is right. -/
def ofBytes? (bytes : Bytes) : Option TransactionId :=
  if bytes.length = size then some (ofNat bytes.toNat) else none

/-- A short name for a token: its first four bytes. -/
def label (transaction : TransactionId) : String :=
  "Tid(" ++ Bytes.toHex (transaction.toBytes.take 4) ++ ")"

@[simp] theorem length_toBytes (transaction : TransactionId) :
    transaction.toBytes.length = size := Bytes.length_ofNat ..

/-- A token is read back from its bytes. -/
@[simp] theorem ofBytes?_toBytes (transaction : TransactionId) :
    ofBytes? transaction.toBytes = some transaction := by
  rw [ofBytes?, if_pos transaction.length_toBytes, toBytes, Bytes.toNat_ofNat]
  cases transaction with
  | mk bits =>
    have hlt : bits.toNat < 256 ^ size := bits.isLt
    simp [ofNat, toNat, Nat.mod_eq_of_lt hlt]

/-- The tokens are read off the byte strings of their length, and off no others. -/
theorem ofBytes?_eq_some_iff {bytes : Bytes} {transaction : TransactionId} :
    ofBytes? bytes = some transaction ↔ transaction.toBytes = bytes := by
  refine ⟨fun h => ?_, fun h => h ▸ ofBytes?_toBytes transaction⟩
  rw [ofBytes?] at h
  split at h
  · rename_i hsize
    obtain rfl := Option.some.inj h
    have hlt : bytes.toNat < 2 ^ width := by
      have hfits := Bytes.toNat_lt bytes
      rwa [hsize, show Nat.pow 256 size = 2 ^ width by decide +kernel] at hfits
    have hread : (ofNat bytes.toNat).toNat = bytes.toNat :=
      (BitVec.toNat_ofNat ..).trans (Nat.mod_eq_of_lt hlt)
    rw [toBytes, hread, ← hsize, Bytes.ofNat_toNat]
  · cases h

theorem exists_toBytes_eq {bytes : Bytes} (h : bytes.length = size) :
    ∃ transaction, toBytes transaction = bytes :=
  ⟨_, ofBytes?_eq_some_iff.mp (if_pos h)⟩

end TransactionId

end Kademlia
