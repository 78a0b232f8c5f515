import Kademlia.Proofs.RoutingTable.Known
import Kademlia.Proofs.RoutingTable.Use
import Mathlib.Data.List.Perm.Subperm

/-!
# Kademlia.Proofs.RoutingTable.Representation

What a routing table looks like, whatever has been asked of it (`RoutingTable.represented_run`).

`RoutingTable.WellFormed` allows for a last bucket that cannot be split any further, and such a
bucket could overflow. There is none. Close to the own id ids are scarce
(`Id.length_lt_of_le_sharedBits`), so a last bucket that is full has enough bits left to split it
by (`WellFormed.length_front_lt_of_full`), and a table stops growing long before its ids run out of
bits (`length_front_run`). So the last bucket is always idle.
-/

namespace Kademlia

/-- Few ids share many bits with another: their distances are different numbers of the remaining
bits, and none is zero. -/
theorem Id.length_lt_of_le_sharedBits {own : Id} {ids : List Id} {count : Nat}
    (hcount : count ≤ width) (hnodup : ids.Nodup) (hown : own ∉ ids)
    (hshared : ∀ id ∈ ids, count ≤ own.sharedBits id) : ids.length < 2 ^ (width - count) := by
  have hdistances : ((own :: ids).map own.distance).Nodup :=
    (List.nodup_cons.mpr ⟨hown, hnodup⟩).map fun _ _ => distance_inj.mp
  have hrange : (own :: ids).map own.distance ⊆ List.range (2 ^ (width - count)) := by
    intro distance hdistance
    obtain ⟨id, hid, rfl⟩ := List.mem_map.mp hdistance
    rw [List.mem_range, ← le_sharedBits_iff hcount]
    rcases List.mem_cons.mp hid with rfl | hid
    · rwa [sharedBits_self]
    · exact hshared id hid
  have hlength := (hdistances.subperm hrange).length_le
  rwa [List.length_map, List.length_cons, List.length_range] at hlength

namespace RoutingTable

variable {table : RoutingTable} {id : Id} {bucket : Bucket} {index : Nat} {now : Time}

/-! ### How deep a table gets -/

/-- The greatest number of buckets before the last one: fifteen ids other than the own one share as
many bits with it, too few to fill another bucket. -/
def deepest : Nat := 380

/-- A last bucket that is full can be split, with bits to spare. -/
theorem WellFormed.length_front_lt_of_full (h : table.WellFormed)
    (hfull : Bucket.capacity ≤ table.last.nodes.length) : table.front.length < deepest := by
  have hlast := h.last
  have hshared : ∀ id ∈ table.last.nodeIds, table.front.length ≤ table.own.sharedBits id := by
    intro id hid
    have hindex := (hlast.covers id (.inl hid)).2
    rw [bucketIndex] at hindex
    omega
  have hown : table.own ∉ table.last.nodeIds := fun hid => (hlast.covers _ (.inl hid)).1 rfl
  have hscarce := Id.length_lt_of_le_sharedBits (Nat.le_of_lt h.front_lt) hlast.sound.nodup_nodes
    hown hshared
  rw [Bucket.nodeIds, List.length_map] at hscarce
  by_contra hdeep
  have hbits : Id.width - table.front.length ≤ 4 := by
    simp only [Id.width, deepest] at *
    omega
  have hpow : 2 ^ (Id.width - table.front.length) ≤ 2 ^ 4 :=
    Nat.pow_le_pow_right (by decide) hbits
  rw [Bucket.capacity] at hfull
  omega

/-- Whenever the last bucket has to be split, there is room for one more. -/
theorem WellFormed.length_front_splitFor_le (h : table.WellFormed) (hsplit : table.MustSplit id) :
    (table.splitFor id now).front.length ≤ deepest := by
  rw [length_front_splitFor]
  refine h.length_front_lt_of_full ?_
  rw [← bucketOf_eq_last hsplit.isLast]
  exact hsplit.full

theorem WellFormed.length_front_update_le (h : table.WellFormed)
    (hfront : table.front.length ≤ deepest) (contact : Contact) (now : Time) :
    (table.update contact now).1.front.length ≤ deepest := by
  induction table using update_induction contact now with
  | ignored table _ hupdate =>
    rw [hupdate]
    exact hfront
  | split table hsplit hupdate ih =>
    rw [hupdate]
    exact ih (h.splitFor hsplit.canSplit _ _) (h.length_front_splitFor_le hsplit)
  | settled table _ _ hupdate =>
    rw [hupdate, length_front_putBucket]
    exact hfront

theorem WellFormed.length_front_perform_le (h : table.WellFormed)
    (hfront : table.front.length ≤ deepest) (now : Time) (operation : Operation) :
    (table.perform now operation).1.front.length ≤ deepest := by
  cases operation with
  | update contact => exact h.length_front_update_le hfront contact now
  | evict id => exact (length_front_putBucket ..).symm ▸ hfront
  | pingAnswered id => exact (length_front_putBucket ..).symm ▸ hfront
  | remove id => exact (length_front_putBucket ..).symm ▸ hfront
  | touch id => exact (length_front_putBucket ..).symm ▸ hfront

/-- **No table gets deeper**, whatever is asked of it. -/
theorem length_front_run (own : Id) (start : Time) (events : List Event) :
    ((new own start).run events).1.front.length ≤ deepest := by
  have hstart : (new own start).WellFormed ∧ (new own start).front.length ≤ deepest :=
    ⟨wellFormed_new own start, Nat.zero_le _⟩
  have hrun := Operation.runWith_keeps
    (fun table : RoutingTable => table.WellFormed ∧ table.front.length ≤ deepest)
    (fun table now operation h =>
      ⟨h.1.perform now operation, h.1.length_front_perform_le h.2 now operation⟩)
    hstart events
  exact hrun.2

theorem canSplit_of_length_front_le (h : table.front.length ≤ deepest) : table.CanSplit := by
  simp only [CanSplit, deepest, Id.width] at *
  omega

/-- There are always bits left to split the last bucket by. -/
theorem canSplit_run (own : Id) (start : Time) (events : List Event) :
    ((new own start).run events).1.CanSplit :=
  canSplit_of_length_front_le (length_front_run own start events)

/-! ### The representation invariant -/

/-- A bucket is for the ids that share as many leading bits with the own id as its number says, or,
if it is the last, at least as many. -/
def InRange (table : RoutingTable) (index : Nat) (id : Id) : Prop :=
  if index + 1 < table.buckets.length then table.own.sharedBits id = index
  else index ≤ table.own.sharedBits id

theorem inRange_of_bucketIndex_eq (h : table.bucketIndex id = index) : table.InRange index id := by
  simp only [InRange, length_buckets]
  rw [bucketIndex] at h
  split <;> omega

/-- A routing table around an id, as it is represented. -/
structure Represented (own : Id) (table : RoutingTable) : Prop where
  centre : table.own = own
  nonempty : table.buckets ≠ []
  /-- Contacts and replacements are in the bucket for their ids. -/
  covers : ∀ index bucket, table.buckets[index]? = some bucket →
    ∀ entry ∈ bucket.nodes ++ bucket.replacements, table.InRange index entry.id
  nodes_le : ∀ bucket ∈ table.buckets, bucket.nodes.length ≤ Bucket.capacity
  replacements_le : ∀ bucket ∈ table.buckets, bucket.replacements.length ≤ Bucket.capacity
  /-- No id is there twice, be it as a contact or as a replacement. -/
  nodup : (table.buckets.flatMap fun bucket =>
    (bucket.nodes ++ bucket.replacements).map Entry.id).Nodup
  foreign : ∀ bucket ∈ table.buckets, ∀ entry ∈ bucket.nodes ++ bucket.replacements,
    entry.id ≠ own
  /-- Nobody waits for a place in the last bucket, and nobody of it is pinged. -/
  idle : ∀ bucket, table.buckets.getLast? = some bucket →
    bucket.replacements = [] ∧ bucket.pinging = none
  /-- A contact that is pinged is pinged by the bucket for its id. -/
  pinged : ∀ index bucket, table.buckets[index]? = some bucket →
    ∀ id, bucket.pinging = some id → table.InRange index id

theorem WellFormed.represented (h : table.WellFormed) (hsplit : table.CanSplit) :
    Represented table.own table where
  centre := rfl
  nonempty := by simp [buckets]
  covers := by
    intro index bucket hbucket entry hentry
    have hfits := h.fits index bucket hbucket
    exact inRange_of_bucketIndex_eq (hfits.covers _ (Bucket.mentions_of_mem_known hentry)).2
  nodes_le := by
    intro bucket hbucket
    obtain ⟨index, hindex⟩ := List.getElem?_of_mem hbucket
    exact (h.fits index bucket hindex).sound.nodes_le
  replacements_le := by
    intro bucket hbucket
    obtain ⟨index, hindex⟩ := List.getElem?_of_mem hbucket
    exact (h.fits index bucket hindex).sound.replacements_le
  nodup := by
    have hnodup := h.nodup_known
    rwa [known, List.map_flatMap] at hnodup
  foreign := by
    intro bucket hbucket entry hentry
    exact h.id_ne_own (mem_known_iff.mpr ⟨bucket, hbucket, hentry⟩)
  idle := by
    intro bucket hbucket
    simp only [buckets, List.getLast?_concat, Option.some.injEq] at hbucket
    exact hbucket ▸ h.last.idle rfl hsplit
  pinged := by
    intro index bucket hbucket id hid
    exact inRange_of_bucketIndex_eq ((h.fits index bucket hbucket).covers id (.inr (.inr hid))).2

/-- **The representation invariant** holds whatever is asked of a table, and at whatever times. -/
theorem represented_run (own : Id) (start : Time) (events : List Event) :
    Represented own ((new own start).run events).1 := by
  have hcentre : ((new own start).run events).1.own = own := own_run (new own start) events
  have hrepresented :=
    (wellFormed_run own start events).represented (canSplit_run own start events)
  rwa [hcentre] at hrepresented

end RoutingTable

end Kademlia
