import Mathlib.Algebra.Ring.Nat
import Kademlia.Config
import Kademlia.Message.Encode
import Kademlia.Node.Receive

/-!
# Kademlia.Proofs.Message.Size

How long packets are. The fields that every message has take 87 bytes, and a contact takes 57, so a
packet is as long as the list of contacts in it makes it (`Message.length_encode_nodes`,
`Message.length_encode_values`). Apart from lists there are names, ids and a port, which have few
bytes. A body with lists and names as a node makes them (`Body.Modest`) fits into a datagram that
is read in full (`Message.length_encode_le`).
-/

namespace Kademlia

namespace Bencode

variable {items : List Bencode} {bound digits : Nat}

/-- A byte string follows its length and a colon. -/
theorem length_write_bytes (content : Bytes) :
    (Bencode.bytes content).write.length =
      (Nat.toDigits 10 content.length).length + (content.length + 1) := by
  rw [write, writeBytes, List.length_append, List.length_map, List.length_cons]

theorem length_write_nat_le {n : Nat} (hdigits : 0 < digits) (h : n < 10 ^ digits) :
    (Bencode.int n).write.length ≤ digits + 2 := by
  have hlength := (Nat.length_toDigits_le_iff (by decide : 1 < 10) hdigits).mpr h
  rw [write, writeInt, List.length_append, List.length_cons, List.length_map]
  show (Nat.toDigits 10 n).length + 1 + 1 ≤ digits + 2
  omega

theorem length_write_list (items : List Bencode) :
    (Bencode.list items).write.length = (items.map (·.write.length)).sum + 2 := by
  have hitems : (writeItems items).length = (items.map (·.write.length)).sum + 1 := by
    induction items with
    | nil => rfl
    | cons item items ih =>
      rw [writeItems, List.length_append, ih, List.map_cons, List.sum_cons, Nat.add_assoc]
  rw [write, List.length_cons, hitems]

/-- The number of bytes that an entry of a dictionary takes. -/
def entryLength (entry : Bencode × Bencode) : Nat := entry.1.write.length + entry.2.write.length

theorem length_write_dict (entries : List (Bencode × Bencode)) :
    (Bencode.dict entries).write.length = (entries.map entryLength).sum + 2 := by
  have hentries : (writeEntries entries).length = (entries.map entryLength).sum + 1 := by
    induction entries with
    | nil => rfl
    | cons entry entries ih =>
      rw [writeEntries, List.length_append, List.length_append, ih, List.map_cons, List.sum_cons,
        entryLength, Nat.add_assoc, Nat.add_assoc, Nat.add_assoc]
  rw [write, List.length_cons, hentries]

end Bencode

/-! ### Parts of messages -/

@[simp] theorem Id.length_write (id : Id) : (Bencode.bytes id.toBytes).write.length = 51 := by
  rw [Bencode.length_write_bytes, Id.length_toBytes]
  rfl

@[simp] theorem TransactionId.length_write (transaction : TransactionId) :
    (Bencode.bytes transaction.toBytes).write.length = 23 := by
  rw [Bencode.length_write_bytes, TransactionId.length_toBytes]
  rfl

@[simp] theorem Contact.length_write (contact : Contact) : contact.toBencode.write.length = 57 := by
  rw [Contact.toBencode, Bencode.length_write_bytes, Contact.length_toCompact]
  rfl

/-- Every contact of a list takes the same. -/
theorem Contact.length_write_list (contacts : List Contact) :
    (Bencode.list (contacts.map Contact.toBencode)).write.length = 57 * contacts.length + 2 := by
  rw [Bencode.length_write_list, List.map_map]
  induction contacts with
  | nil => rfl
  | cons contact contacts ih =>
    rw [List.map_cons, List.sum_cons, Function.comp_apply, Contact.length_write, List.length_cons]
    omega

/-! ### Packets -/

namespace Message

open Bencode

/-- The fields before `3` and the marks around all fields. -/
theorem length_encode (transaction : TransactionId) (sender : Id) (body : Body) :
    (encode ⟨transaction, sender, body⟩).length = (body.fields.map entryLength).sum + 88 := by
  have hnumber : entryLength (.text "0", .int body.number) = 6 := by
    cases body <;> rfl
  have htransaction : entryLength (.text "1", .bytes transaction.toBytes) = 26 := by
    rw [entryLength, TransactionId.length_write]
    rfl
  have hsender : entryLength (.text "2", .bytes sender.toBytes) = 54 := by
    rw [entryLength, Id.length_write]
    rfl
  rw [encode, toBencode, length_write_dict, List.map_cons, List.map_cons, List.map_cons,
    List.sum_cons, List.sum_cons, List.sum_cons, hnumber, htransaction, hsender]
  show 6 + (26 + (54 + (body.fields.map entryLength).sum)) + 2 = _
  omega

theorem length_encode_nodes (transaction : TransactionId) (sender : Id) (contacts : List Contact) :
    (encode ⟨transaction, sender, .response (.nodes contacts)⟩).length =
      57 * contacts.length + 93 := by
  have hpayload : entryLength (.text "3", Response.payload (.nodes contacts)) =
      3 + (57 * contacts.length + 2) := by
    rw [entryLength, Response.payload, Contact.length_write_list]
    rfl
  rw [length_encode, Body.fields, List.map_singleton, List.sum_singleton, hpayload]
  omega

theorem length_encode_values (transaction : TransactionId) (sender key : Id)
    (publishers : List Contact) :
    (encode ⟨transaction, sender, .response (.values key publishers)⟩).length =
      57 * publishers.length + 146 := by
  have hpayload : entryLength (.text "3", Response.payload (.values key publishers)) =
      3 + (51 + (57 * publishers.length + 2) + 2) := by
    rw [entryLength, Response.payload, length_write_dict, List.map_singleton, List.sum_singleton,
      entryLength, Id.length_write, Contact.length_write_list]
    rfl
  rw [length_encode, Body.fields, List.map_singleton, List.sum_singleton, hpayload]
  omega

/-- A request has a method and arguments. -/
theorem length_encode_request (transaction : TransactionId) (sender : Id) (asked : Request) :
    (encode ⟨transaction, sender, .request asked⟩).length =
      (text asked.method).write.length + (Bencode.list asked.arguments).write.length + 94 := by
  have hmethod : entryLength (.text "3", .text asked.method) =
      3 + (text asked.method).write.length := rfl
  have harguments : entryLength (.text "4", .list asked.arguments) =
      3 + (Bencode.list asked.arguments).write.length := rfl
  rw [length_encode, Body.fields, List.map_cons, List.map_singleton, List.sum_cons,
    List.sum_singleton, hmethod, harguments]
  omega

end Message

/-- A body as a node makes it by itself: its lists are no longer than those that a node keeps. -/
inductive Body.Modest : Body → Prop where
  | request {asked : Request} (h : asked.Servable) : Modest (.request asked)
  | pong : Modest (.response .pong)
  | stored : Modest (.response .stored)
  | nodes {contacts : List Contact} (h : contacts.length ≤ Bucket.capacity) :
    Modest (.response (.nodes contacts))
  | values {key : Id} {publishers : List Contact}
    (h : publishers.length ≤ RecordStore.maxPublishers) :
    Modest (.response (.values key publishers))
  | emptyKey : Modest (.fault .emptyKey)

namespace Message

open Bencode

variable {asked : Request} {body : Body}

/-- A request with its ids and its port is short. -/
theorem length_encode_request_le (h : asked.Servable) (transaction : TransactionId) (sender : Id) :
    (encode ⟨transaction, sender, .request asked⟩).length ≤ 228 := by
  rw [length_encode_request, length_write_list]
  cases asked with
  | ping => exact (by decide : 6 + 2 + 94 ≤ 228)
  | store key publisher port =>
    have hmethod : (text "store").write.length = 7 := rfl
    have hport : (Bencode.int port.toNat).write.length ≤ 5 + 2 :=
      length_write_nat_le (by decide) (Nat.lt_trans port.toNat_lt (by decide))
    have hid : entryLength (.text "lbryid", .bytes publisher.toBytes) = 59 := by
      rw [entryLength, Id.length_write]
      rfl
    have hnumber : entryLength (.text "port", .int port.toNat) =
        6 + (Bencode.int port.toNat).write.length := rfl
    rw [Request.method, hmethod, Request.arguments, List.map_cons, List.map_singleton,
      List.sum_cons, List.sum_singleton, Id.length_write, length_write_dict, List.map_cons,
      List.map_singleton, List.sum_cons, List.sum_singleton, hid, hnumber]
    omega
  | findNode target =>
    have hmethod : (text "findNode").write.length = 10 := rfl
    rw [Request.method, hmethod, Request.arguments, List.map_singleton, List.sum_singleton,
      Id.length_write]
    decide
  | findValue key =>
    have hmethod : (text "findValue").write.length = 11 := rfl
    rw [Request.method, hmethod, Request.arguments, List.map_singleton, List.sum_singleton,
      Id.length_write]
    decide
  | invalid method defect => exact absurd h id

/-- **What a node says by itself fits into a datagram** that is read in full. -/
theorem length_encode_le (h : body.Modest) (transaction : TransactionId) (sender : Id) :
    (encode ⟨transaction, sender, body⟩).length ≤ maxDatagram := by
  rw [maxDatagram]
  cases h with
  | request h => exact Nat.le_trans (length_encode_request_le h transaction sender) (by decide)
  | pong =>
    rw [length_encode]
    exact (by decide : 9 + 88 ≤ 8192)
  | stored =>
    rw [length_encode]
    exact (by decide : 7 + 88 ≤ 8192)
  | nodes h =>
    rw [Bucket.capacity] at h
    rw [length_encode_nodes]
    omega
  | values h =>
    rw [RecordStore.maxPublishers] at h
    rw [length_encode_values]
    omega
  | emptyKey =>
    rw [length_encode]
    exact (by decide : 42 + 88 ≤ 8192)

end Message

end Kademlia
