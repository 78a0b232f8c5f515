import Kademlia.Bucket
import Kademlia.Ranking

/-!
# Kademlia.RoutingTable

The routing table of a node. Bucket number `i` is for the ids that share exactly `i` leading bits
with the node's own id, except for the last bucket, which is for all that share at least as many
bits as its number. A table starts with the last bucket alone; when the last bucket is full and is
offered another contact, it is split by the next bit, until the contact has found its place.

The last bucket is a field of its own, so a table has at least one bucket by its type.
-/

namespace Kademlia

/-- The routing table of a node. -/
structure RoutingTable where
  own : Id
  /-- The buckets for one number of shared bits each, from zero on. -/
  front : List Bucket
  /-- The bucket for all ids that share more bits. -/
  last : Bucket
deriving DecidableEq

/-- What an update did. -/
inductive UpdateOutcome where
  /-- The id is the node's own. -/
  | ignored
  /-- The contact was known and is now the freshest of its bucket. -/
  | refreshed
  /-- The contact has a place now. -/
  | inserted
  /-- The bucket is full and the contact waits for a place; another is to be pinged, unless a ping
  is under way. -/
  | full (ping : Option Contact)
deriving DecidableEq

namespace RoutingTable

/-- The table of a node that knows no other. -/
def new (own : Id) (now : Time) : RoutingTable := ⟨own, [], .empty now⟩

/-- The buckets in the order of their numbers. -/
def buckets (table : RoutingTable) : List Bucket := table.front ++ [table.last]

/-- The number of the bucket for an id. -/
def bucketIndex (table : RoutingTable) (id : Id) : Nat :=
  min (table.own.sharedBits id) table.front.length

/-- The bucket for an id. -/
def bucketOf (table : RoutingTable) (id : Id) : Bucket :=
  table.front.getD (table.bucketIndex id) table.last

/-- Puts a bucket in the place of that for an id. -/
def putBucket (table : RoutingTable) (id : Id) (bucket : Bucket) : RoutingTable :=
  if table.bucketIndex id < table.front.length then
    { table with front := table.front.set (table.bucketIndex id) bucket }
  else { table with last := bucket }

/-- Changes the bucket for an id. -/
def changeBucket (table : RoutingTable) (id : Id) (change : Bucket → Bucket) : RoutingTable :=
  table.putBucket id (change (table.bucketOf id))

/-! ### Updates -/

/-- Splits the last bucket: the ids that share no further bit stay behind. -/
def splitLast (table : RoutingTable) : RoutingTable :=
  let index := table.front.length
  let (far, near) := table.last.part fun id => table.own.sharedBits id = index
  { table with front := table.front ++ [far], last := near }

/-- What is found at the bucket for a contact. -/
inductive Placement where
  /-- The contact was known or there was a place for it. -/
  | placed (table : RoutingTable) (outcome : UpdateOutcome)
  /-- All places of the bucket are taken. -/
  | crowded (table : RoutingTable)

/-- Puts an entry into the bucket for its id, if it is there already or there is a place. The
bucket counts as used in any case. -/
def place (table : RoutingTable) (entry : Entry) : Placement :=
  let bucket := (table.bucketOf entry.id).touch entry.lastSeen
  if bucket.holds entry.id then
    .placed (table.putBucket entry.id (bucket.refresh entry)) .refreshed
  else if bucket.isFull then .crowded (table.putBucket entry.id bucket)
  else .placed (table.putBucket entry.id (bucket.insert entry)) .inserted

/-- Keeps an entry as a replacement in the full bucket for its id. -/
def overflow (table : RoutingTable) (entry : Entry) : RoutingTable × UpdateOutcome :=
  let (bucket, suspect) := (table.bucketOf entry.id).overflow entry
  (table.putBucket entry.id bucket, .full suspect)

/-- Puts an entry where it belongs, with at most `room` splits on the way. -/
def updateWithin : Nat → RoutingTable → Entry → RoutingTable × UpdateOutcome
  | 0, table, entry =>
    match table.place entry with
    | .placed table outcome => (table, outcome)
    | .crowded table => table.overflow entry
  | room + 1, table, entry =>
    match table.place entry with
    | .placed table outcome => (table, outcome)
    | .crowded table =>
      -- Only the last bucket can be split, and a split may leave the id in it.
      if table.bucketIndex entry.id = table.front.length then
        updateWithin room table.splitLast entry
      else table.overflow entry

/-- How many splits there may be before there is a bucket for every number of shared bits. -/
def room (table : RoutingTable) : Nat := Id.width - 1 - table.front.length

/-- Notes that a contact was heard of. -/
def update (table : RoutingTable) (contact : Contact) (now : Time) : RoutingTable × UpdateOutcome :=
  if contact.id = table.own then (table, .ignored)
  else updateWithin table.room table ⟨contact, now⟩

/-- Gives up a contact that did not answer, and tells which replacement took its place. -/
def evict (table : RoutingTable) (id : Id) : RoutingTable × Option Contact :=
  let (bucket, promoted) := (table.bucketOf id).evict id
  (table.putBucket id bucket, promoted)

/-- Notes that a contact answered its ping, so that the bucket may ping another. -/
def pingAnswered (table : RoutingTable) (id : Id) : RoutingTable :=
  table.changeBucket id (·.settlePing id)

/-- Takes a contact out of the table, without a replacement. -/
def remove (table : RoutingTable) (id : Id) : RoutingTable :=
  table.changeBucket id (·.remove id)

/-- Notes that the bucket for an id was used. -/
def touch (table : RoutingTable) (id : Id) (now : Time) : RoutingTable :=
  table.changeBucket id (·.touch now)

/-! ### Queries -/

/-- The entries of the table, bucket by bucket. -/
def entries (table : RoutingTable) : List Entry := table.buckets.flatMap Bucket.nodes

/-- The contacts of the table, bucket by bucket. -/
def contacts (table : RoutingTable) : List Contact := table.entries.map Entry.contact

/-- Is the id among the contacts of the table? -/
def contains (table : RoutingTable) (id : Id) : Bool := (table.bucketOf id).holds id

/-- The number of contacts. -/
def size (table : RoutingTable) : Nat := table.entries.length

/-- Has the table no contacts? -/
def isEmpty (table : RoutingTable) : Bool := table.buckets.all (·.nodes.isEmpty)

/-- The addresses of the contacts, for another node to start from. -/
def toBootstrap (table : RoutingTable) : List String :=
  table.contacts.map (·.address.toText)

/-- The entries of the table in groups of ascending distance to a target: those of the target's
bucket, those of all later buckets, and those of each earlier bucket, going back. -/
def tiers (table : RoutingTable) (target : Id) : List (List Entry) :=
  let index := table.bucketIndex target
  (table.bucketOf target).nodes ::
    ((table.buckets.drop (index + 1)).flatMap Bucket.nodes) ::
    ((table.buckets.take index).reverse.map Bucket.nodes)

/-- Whole groups from the front until there are `count` entries. -/
def gather (count : Nat) : List Entry → List (List Entry) → List Entry
  | found, [] => found
  | found, tier :: rest =>
    if found.length < count then gather count (found ++ tier) rest else found

/-- Up to `count` contacts of the table, closest to the target first. -/
def findClosest (table : RoutingTable) (target : Id) (count : Nat) : List Contact :=
  let found := gather count [] (table.tiers target)
  (Ranking.ofList target (found.map Entry.contact)).contacts.take count

/-- The greatest number of contacts that can be asked for. Room is made for all of them before the
first is found, at 72 bytes each, and there are at most 2^63 - 1 bytes to be had. -/
def maxCount : Nat := ((1 <<< 63) - 1) / 72

/-- Up to `count` contacts of the table, closest to the target first, if as many can be asked
for. -/
def findClosest? (table : RoutingTable) (target : Id) (count : Nat) : Option (List Contact) :=
  if count ≤ maxCount then some (table.findClosest target count) else none

/-- The numbers of the buckets that were not used for a time. -/
def staleBuckets (table : RoutingTable) (threshold : Duration) (now : Time) : List Nat :=
  (table.buckets.zipIdx.filter fun (bucket, _) => threshold ≤ now - bucket.touched).map Prod.snd

/-- An id that belongs to a bucket, from a random draw. -/
def idInBucket (table : RoutingTable) (index : Nat) (draw : Id) : Id :=
  if index < table.front.length then table.own.sharingExactly index draw
  else table.own.sharingAtLeast index draw

/-! ### Lemmas on places -/

@[simp] theorem own_putBucket (table : RoutingTable) (id : Id) (bucket : Bucket) :
    (table.putBucket id bucket).own = table.own := by
  unfold putBucket; split <;> rfl

@[simp] theorem length_front_putBucket (table : RoutingTable) (id : Id) (bucket : Bucket) :
    (table.putBucket id bucket).front.length = table.front.length := by
  unfold putBucket; split <;> simp

@[simp] theorem bucketIndex_putBucket (table : RoutingTable) (id other : Id) (bucket : Bucket) :
    (table.putBucket id bucket).bucketIndex other = table.bucketIndex other := by
  simp [bucketIndex]

theorem bucketIndex_le (table : RoutingTable) (id : Id) :
    table.bucketIndex id ≤ table.front.length := Nat.min_le_right ..

/-- The bucket that was put for an id is the one found for it. -/
@[simp] theorem bucketOf_putBucket (table : RoutingTable) (id : Id) (bucket : Bucket) :
    (table.putBucket id bucket).bucketOf id = bucket := by
  rw [bucketOf, bucketIndex_putBucket, putBucket]
  have h := table.bucketIndex_le id
  split
  · rename_i hlt
    simp [List.getD_eq_getElem?_getD, hlt]
  · rename_i hlt
    simp [List.getD_eq_getElem?_getD, Nat.not_lt.mp hlt]

end RoutingTable

end Kademlia
