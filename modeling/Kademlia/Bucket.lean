import Kademlia.Contact
import Kademlia.Time

/-!
# Kademlia.Bucket

A bucket of a routing table: up to twenty contacts, freshest first, and as many replacements that
wait for a place. When a full bucket is offered another contact, the contact becomes a replacement
and the stalest contact of the bucket is to be pinged; only one such ping is under way at a time
(`Bucket.pinging`). A contact that does not answer makes place for the freshest replacement.
-/

namespace Kademlia

/-- A contact and when it was heard of. -/
structure Entry where
  contact : Contact
  lastSeen : Time
deriving DecidableEq

/-- The id of an entry's contact. -/
def Entry.id (entry : Entry) : Id := entry.contact.id

/-- A bucket of a routing table. -/
structure Bucket where
  /-- The contacts of the bucket, freshest first. -/
  nodes : List Entry
  /-- The contacts that wait for a place, freshest first. -/
  replacements : List Entry
  /-- The id of the contact that is being pinged. -/
  pinging : Option Id
  touched : Time
deriving DecidableEq

namespace Bucket

/-- The number of contacts that a bucket holds, and of replacements. -/
def capacity : Nat := 20

/-- The bucket without contacts. -/
def empty (now : Time) : Bucket := ⟨[], [], none, now⟩

/-- Entries without those of an id. -/
def dropId (id : Id) (entries : List Entry) : List Entry := entries.filter (·.id ≠ id)

/-- Is the id among the contacts of the bucket? -/
def holds (bucket : Bucket) (id : Id) : Bool := bucket.nodes.any (·.id == id)

/-- Are all places taken? -/
def isFull (bucket : Bucket) : Bool := capacity ≤ bucket.nodes.length

/-- Notes that the bucket was used. -/
def touch (bucket : Bucket) (now : Time) : Bucket := { bucket with touched := now }

/-- Puts an entry in front of the contacts, in place of an older entry of the same id. -/
def refresh (bucket : Bucket) (entry : Entry) : Bucket :=
  { bucket with nodes := entry :: dropId entry.id bucket.nodes }

/-- Puts a new entry in front of the contacts; it waits for a place no longer. -/
def insert (bucket : Bucket) (entry : Entry) : Bucket :=
  { bucket with
    nodes := entry :: bucket.nodes
    replacements := dropId entry.id bucket.replacements }

/-- Puts an entry in front of the replacements; the stalest one may have to go. -/
def reserve (bucket : Bucket) (entry : Entry) : Bucket :=
  { bucket with
    replacements := (entry :: dropId entry.id bucket.replacements).take capacity }

/-- The contact to ping when the bucket overflows: the stalest, unless a ping is under way. -/
def suspect? (bucket : Bucket) : Option Contact :=
  match bucket.pinging with
  | some _ => none
  | none => bucket.nodes.getLast?.map Entry.contact

/-- Keeps an entry as a replacement and picks the contact to ping, if any. -/
def overflow (bucket : Bucket) (entry : Entry) : Bucket × Option Contact :=
  let suspect := bucket.suspect?
  ({ bucket.reserve entry with pinging := (suspect.map Contact.id).or bucket.pinging }, suspect)

/-- Notes that no ping of the id is under way any more. -/
def settlePing (bucket : Bucket) (id : Id) : Bucket :=
  if bucket.pinging = some id then { bucket with pinging := none } else bucket

/-- Takes an id out of the contacts. -/
def remove (bucket : Bucket) (id : Id) : Bucket :=
  { bucket with nodes := dropId id bucket.nodes }

/-- Moves the freshest replacement to the front of the contacts. -/
def promote (bucket : Bucket) : Bucket × Option Contact :=
  match bucket.replacements with
  | [] => (bucket, none)
  | entry :: rest =>
    ({ bucket with nodes := entry :: bucket.nodes, replacements := rest }, some entry.contact)

/-- Gives up a contact that did not answer, and moves the freshest replacement into its place. An
id that is not among the contacts makes no place. -/
def evict (bucket : Bucket) (id : Id) : Bucket × Option Contact :=
  let settled := bucket.settlePing id
  if settled.holds id then (settled.remove id).promote else (settled, none)

/-- Parts a bucket in two by a property of ids. Both parts keep their order, and the ping under way
goes with its id. -/
def part (bucket : Bucket) (stays : Id → Bool) : Bucket × Bucket :=
  let keep := fun (entry : Entry) => stays entry.id
  let leave := fun (entry : Entry) => !stays entry.id
  ({ nodes := bucket.nodes.filter keep
     replacements := bucket.replacements.filter keep
     pinging := bucket.pinging.filter stays
     touched := bucket.touched },
   { nodes := bucket.nodes.filter leave
     replacements := bucket.replacements.filter leave
     pinging := bucket.pinging.filter (!stays ·)
     touched := bucket.touched })

end Bucket

end Kademlia
