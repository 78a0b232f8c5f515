import Kademlia.DecodeError
import Kademlia.Endpoint
import Kademlia.Id.Hex

/-!
# Kademlia.Contact

A node as others know it: its id and where it is reached. Contacts travel in a compact form of 54
bytes: the id, then the endpoint. `ofCompact_toCompact` says that the form loses nothing.
-/

namespace Kademlia

/-- A node's id and endpoint. -/
structure Contact where
  id : Id
  address : Endpoint
deriving DecidableEq, Hashable

namespace Contact

/-- The number of bytes of a compact form. -/
def compactSize : Nat := 54

/-- The number of bytes of the compact form of a contact of the other address family. -/
def compactSizeV6 : Nat := 66

/-- The compact form: the id's bytes, then the endpoint's. -/
def toCompact (contact : Contact) : Bytes :=
  contact.id.toBytes ++ contact.address.toBytes

/-- The contact of a compact form. -/
def ofCompact (bytes : Bytes) : Except DecodeError Contact :=
  if bytes.length = compactSizeV6 then .error .ipv6
  else
    match Id.ofBytes? (bytes.take Id.size), Endpoint.ofBytes? (bytes.drop Id.size) with
    | some id, some address => .ok ⟨id, address⟩
    | _, _ => .error (.compactSize bytes.length)

/-- A short description of a contact. -/
def describe (contact : Contact) : String :=
  "Node \x7b id: " ++ contact.id.label ++ ", address: " ++ contact.address.toText ++ " \x7d"

@[simp] theorem length_toCompact (contact : Contact) : contact.toCompact.length = compactSize := by
  simp [toCompact, Id.size, compactSize]

/-- A contact is read back from its compact form. -/
@[simp] theorem ofCompact_toCompact (contact : Contact) :
    ofCompact contact.toCompact = .ok contact := by
  have hsize : ¬ contact.toCompact.length = compactSizeV6 := by
    rw [length_toCompact]; decide
  have htake : contact.toCompact.take Id.size = contact.id.toBytes :=
    List.take_left' contact.id.length_toBytes
  have hdrop : contact.toCompact.drop Id.size = contact.address.toBytes :=
    List.drop_left' contact.id.length_toBytes
  rw [ofCompact, if_neg hsize, htake, hdrop, Id.ofBytes?_toBytes, Endpoint.ofBytes?_toBytes]

/-- The contacts are read off the byte strings of a compact form's length. -/
theorem exists_toCompact_eq {bytes : Bytes} (h : bytes.length = compactSize) :
    ∃ contact : Contact, contact.toCompact = bytes := by
  have hsize : Id.size ≤ bytes.length := by
    rw [h]
    decide
  obtain ⟨id, hid⟩ := Id.exists_toBytes_eq (List.length_take_of_le hsize)
  obtain ⟨address, haddress⟩ : ∃ address, Endpoint.toBytes address = bytes.drop Id.size := by
    refine Endpoint.exists_toBytes_eq ?_
    rw [List.length_drop, h, compactSize, Id.size]
  refine ⟨⟨id, address⟩, ?_⟩
  rw [toCompact, hid, haddress, List.take_append_drop]

/-- A byte string of another length is refused. -/
theorem ofCompact_of_length_ne {bytes : Bytes} (hsize : bytes.length ≠ compactSize)
    (hsizeV6 : bytes.length ≠ compactSizeV6) :
    ofCompact bytes = .error (.compactSize bytes.length) := by
  rw [ofCompact, if_neg hsizeV6]
  split
  · rename_i id address hid haddress
    have hlength := congrArg List.length (List.take_append_drop Id.size bytes)
    rw [← Id.ofBytes?_eq_some_iff.mp hid, ← Endpoint.ofBytes?_eq_some_iff.mp haddress,
      List.length_append, Id.length_toBytes, Endpoint.length_toBytes] at hlength
    exact absurd hlength.symm hsize
  · rfl

end Contact

end Kademlia
