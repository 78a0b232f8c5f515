import Kademlia.Contact
import Kademlia.Keyed
import Kademlia.Time

/-!
# Kademlia.RecordStore

What a node remembers about who publishes which key. A record lives for a fixed time from when it
was stored last, and of each key the store keeps the hundred publishers stored last. The records
are filed under their keys, and `RecordStore.of` is the view of a key; the lemmas on it say what
each operation does to the view. A key is filed as soon as something is stored under it, and goes
with the last of its records when expired records are dropped.

Beside the records the store knows the keys that the node itself published and when it did so last,
even after the records are gone.

The clock of a host ends somewhere. If it does not get to the instant at which a record would
expire (`RecordStore.expiry?`), storing the record halts the node, and there is no store afterwards:
`insert` and `publish` say what becomes of a store where they come to their end, and whoever runs a
node has it halt where they do not.
-/

namespace Kademlia

/-- Somebody publishes a key, as of some instant. -/
structure Record where
  /-- Who publishes the key, and where. -/
  publisher : Contact
  storedAt : Time
  /-- The first instant at which the record no longer counts. -/
  expiresAt : Time
deriving DecidableEq

/-- The records of a node. -/
structure RecordStore where
  expire : Duration
  /-- After how long a published key is to be published again. -/
  republish : Duration
  /-- The records of each key, freshest first. -/
  records : Keyed (List Record)
  /-- The keys that the node itself published, and when it did so last. -/
  published : Keyed Time
deriving DecidableEq

namespace RecordStore

/-- The greatest number of publishers that is remembered of a key. -/
def maxPublishers : Nat := 100

/-- The store without records. -/
def new (expire republish : Duration) : RecordStore := ⟨expire, republish, .empty, .empty⟩

/-- The records of a key, freshest first, whether they have expired or not. -/
def of (store : RecordStore) (key : Id) : List Record := (store.records.find? key).getD []

/-- The number of records. -/
def size (store : RecordStore) : Nat := store.records.values.flatten.length

/-- Is no key filed? -/
def isEmpty (store : RecordStore) : Bool := store.records.isEmpty

/-- The keys that are filed. -/
def keys (store : RecordStore) : List Id := store.records.keys

/-- When a record expires that is stored now, unless the clock does not get there. -/
def expiry? (store : RecordStore) (now : Time) : Option Time := Time.after? now store.expire

/-- The records of a key after a publisher is stored: the new record in front, in place of an older
one of the same publisher. -/
def stored (store : RecordStore) (key : Id) (publisher : Contact) (now : Time) : List Record :=
  (⟨publisher, now, now + store.expire⟩ ::
    (store.of key).filter (·.publisher.id ≠ publisher.id)).take maxPublishers

/-- Stores a publisher of a key. -/
def insert (store : RecordStore) (key : Id) (publisher : Contact) (now : Time) : RecordStore :=
  { store with records := store.records.put key (store.stored key publisher now) }

/-- Stores the node itself as a publisher of a key, and remembers to publish it again. -/
def publish (store : RecordStore) (key : Id) (publisher : Contact) (now : Time) : RecordStore :=
  { store.insert key publisher now with published := store.published.put key now }

/-- The publishers of a key whose records have not expired, freshest first. -/
def get (store : RecordStore) (key : Id) (now : Time) : List Contact :=
  ((store.of key).filter (now < ·.expiresAt)).map Record.publisher

/-- The records of a key that have not expired, if there are any. -/
def live? (now : Time) (records : List Record) : Option (List Record) :=
  match records.filter (now < ·.expiresAt) with
  | [] => none
  | live => some live

/-- Drops the records that have expired, and the keys that have no others. -/
def sweep (store : RecordStore) (now : Time) : RecordStore :=
  { store with records := store.records.retain (live? now) }

/-- Drops the records that have expired, and tells how many there were. -/
def expireAt (store : RecordStore) (now : Time) : RecordStore × Nat :=
  (store.sweep now, store.size - (store.sweep now).size)

/-- The keys that the node itself published and that are to be published again. -/
def due (store : RecordStore) (now : Time) : List Id :=
  (store.published.entries.filter fun (_, publishedAt) =>
    store.republish ≤ now - publishedAt).map Prod.fst

/-- Did the node itself publish the key? -/
def isPublished (store : RecordStore) (key : Id) : Bool := (store.published.find? key).isSome

/-! ### The view of a key -/

theorem getD_live? (now : Time) (records : List Record) :
    (live? now records).getD [] = records.filter (now < ·.expiresAt) := by
  rw [live?]
  split
  · next hnone => exact hnone.symm
  · rfl

@[simp] theorem of_new (expire republish : Duration) (key : Id) :
    (new expire republish).of key = [] := rfl

/-- A store under a key changes the records of that key as `stored` says. -/
@[simp] theorem of_insert_self (store : RecordStore) (key : Id) (publisher : Contact)
    (now : Time) : (store.insert key publisher now).of key = store.stored key publisher now := by
  rw [of, insert, Keyed.find?_put_self, Option.getD_some]

/-- A store under a key leaves the records of other keys alone. -/
theorem of_insert_of_ne (store : RecordStore) {key other : Id} (h : other ≠ key)
    (publisher : Contact) (now : Time) :
    (store.insert key publisher now).of other = store.of other := by
  rw [of, insert, Keyed.find?_put_of_ne _ h, of]

/-- Dropping expired records drops them from every key. -/
theorem of_sweep (store : RecordStore) (key : Id) (now : Time) :
    (store.sweep now).of key = (store.of key).filter (now < ·.expiresAt) := by
  rw [of, sweep, Keyed.find?_retain, of]
  cases store.records.find? key with
  | none => rfl
  | some records => exact getD_live? now records

/-- What is asked for later does not depend on whether expired records were dropped. -/
theorem get_sweep (store : RecordStore) (key : Id) {now later : Time} (h : now ≤ later) :
    (store.sweep now).get key later = store.get key later := by
  rw [get, get, of_sweep, List.filter_filter]
  congr 1
  refine List.filter_congr fun record _ => ?_
  by_cases hlive : later < record.expiresAt
  · simp [hlive, Nat.lt_of_le_of_lt h hlive]
  · simp [hlive]

end RecordStore

end Kademlia
