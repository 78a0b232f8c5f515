import Kademlia.Proofs.Ranking
import Kademlia.Proofs.RoutingTable.History
import Mathlib.Data.List.Perm.Basic

/-!
# Kademlia.Proofs.RoutingTable.Closest

The closest contacts of a routing table, found without looking at all of them. In a well-formed
table every group of `RoutingTable.tiers` is closer to the target than every later one, so stopping
after the group that completes the count loses nothing: `WellFormed.findClosest_eq` says that the
result is the list of all contacts, sorted by distance and cut to the count.

The three groups are told apart by the bits that their ids share with the target
(`sharedBits_of_bucketIndex_lt`, `sharedBits_of_lt_bucketIndex`, `lt_sharedBits_of_bucketIndex_eq`).

As all tables that come about are well-formed, this settles what any of them answers
(`findClosest?_run`). Only a count that room cannot be made for is not answered.
-/

namespace Kademlia

/-! ### Contacts by distance -/

namespace Contact

variable {target : Id} {contacts sorted near far : List Contact}

/-- Contacts in the order of their distance to a target. -/
def byDistance (target : Id) (contacts : List Contact) : List Contact :=
  contacts.mergeSort fun a b => target.distance a.id ≤ target.distance b.id

theorem byDistance_perm (target : Id) (contacts : List Contact) :
    (byDistance target contacts).Perm contacts :=
  List.mergeSort_perm ..

theorem pairwise_byDistance (target : Id) (contacts : List Contact) :
    (byDistance target contacts).Pairwise
      fun a b => target.distance a.id ≤ target.distance b.id :=
  pairwise_mergeSort_key (fun contact : Contact => target.distance contact.id) contacts

/-- Contacts with different ids have one order by distance only. -/
theorem eq_byDistance (hnodup : (contacts.map Contact.id).Nodup) (hperm : sorted.Perm contacts)
    (hsorted : sorted.Pairwise fun a b => target.distance a.id ≤ target.distance b.id) :
    sorted = byDistance target contacts := by
  refine List.Perm.eq_of_pairwise (fun a b ha hb hab hba => ?_) hsorted
    (pairwise_byDistance target contacts) (hperm.trans (byDistance_perm target contacts).symm)
  have hid : a.id = b.id := Id.distance_inj.mp (Nat.le_antisymm hab hba)
  exact List.inj_on_of_nodup_map hnodup (hperm.subset ha)
    ((byDistance_perm target contacts).subset hb) hid

/-- A selection of the closest leaves out only what is further away than all that it takes. -/
theorem distance_lt_of_not_mem_take (hsorted : Ranking.Sorted target sorted) {count : Nat}
    {chosen other : Contact} (hchosen : chosen ∈ sorted.take count) (hother : other ∈ sorted)
    (hout : other ∉ sorted.take count) : target.distance chosen.id < target.distance other.id := by
  rw [← List.take_append_drop count sorted] at hsorted hother
  have hrest : other ∈ sorted.drop count := (List.mem_append.mp hother).resolve_left hout
  exact (List.pairwise_append.mp hsorted).2.2 chosen hchosen other hrest

/-- Contacts that are all closer than others come first. -/
theorem byDistance_append (hnodup : ((near ++ far).map Contact.id).Nodup)
    (hcloser : ∀ a ∈ near, ∀ b ∈ far, target.distance a.id < target.distance b.id) :
    byDistance target (near ++ far) = byDistance target near ++ byDistance target far := by
  refine (eq_byDistance hnodup ?_ ?_).symm
  · exact (byDistance_perm target near).append (byDistance_perm target far)
  · refine List.pairwise_append.mpr
      ⟨pairwise_byDistance target near, pairwise_byDistance target far, fun a ha b hb => ?_⟩
    exact Nat.le_of_lt <| hcloser a ((byDistance_perm target near).subset ha) b
      ((byDistance_perm target far).subset hb)

end Contact

namespace Ranking

variable {target : Id} {contact : Contact} {contacts : List Contact}

/-- The ranking of contacts with different ids is their order by distance. -/
theorem contacts_ofList (h : (contacts.map Contact.id).Nodup) :
    (ofList target contacts).contacts = Contact.byDistance target contacts := by
  refine Contact.eq_byDistance h ?_ ?_
  · exact insertAll_perm (empty target) h
  · exact (sorted_ofList target contacts).imp Nat.le_of_lt

end Ranking

namespace RoutingTable

variable {table : RoutingTable} {target id : Id}

/-! ### Buckets and the bits shared with a target -/

/-- An id of an earlier bucket parts from the target where it parts from the own id. -/
theorem sharedBits_of_bucketIndex_lt (h : table.bucketIndex id < table.bucketIndex target) :
    target.sharedBits id = table.bucketIndex id := by
  simp only [bucketIndex] at *
  have hlt : id.sharedBits table.own < table.own.sharedBits target := by
    rw [Id.sharedBits_comm]
    omega
  rw [Id.sharedBits_comm, Id.sharedBits_eq_of_lt hlt, Id.sharedBits_comm]
  omega

/-- The target parts from an id of a later bucket where it parts from the own id. -/
theorem sharedBits_of_lt_bucketIndex (h : table.bucketIndex target < table.bucketIndex id) :
    target.sharedBits id = table.bucketIndex target := by
  rw [Id.sharedBits_comm]
  exact sharedBits_of_bucketIndex_lt h

theorem bucketIndex_le_sharedBits (h : table.bucketIndex id = table.bucketIndex target) :
    table.bucketIndex target ≤ target.sharedBits id := by
  have hmin := Id.min_sharedBits_le target table.own id
  rw [Id.sharedBits_comm target table.own] at hmin
  simp only [bucketIndex] at *
  omega

/-- Ids of one bucket agree on the bit in which they part from the own id, unless the bucket is the
last one, which is not sorted by that bit yet. -/
theorem lt_sharedBits_of_bucketIndex_eq (hfront : table.front.length < Id.width)
    (hlt : table.bucketIndex target < table.front.length)
    (h : table.bucketIndex id = table.bucketIndex target) :
    table.bucketIndex target < target.sharedBits id := by
  have heq : table.own.sharedBits target = table.own.sharedBits id := by
    simp only [bucketIndex] at *
    omega
  have hbit : table.own.sharedBits target < Id.width := by
    rw [bucketIndex] at hlt
    omega
  have hshared := Id.lt_sharedBits_of_eq heq hbit
  rw [bucketIndex] at *
  omega

/-! ### The groups of ascending distance -/

/-- Every entry of a group is closer to the target than every entry of another. -/
def AllCloser (target : Id) (near far : List Entry) : Prop :=
  ∀ a ∈ near, ∀ b ∈ far, target.distance a.id < target.distance b.id

theorem mem_flatMap_nodes {buckets : List Bucket} {entry : Entry} :
    entry ∈ buckets.flatMap Bucket.nodes ↔
      ∃ index, ∃ h : index < buckets.length, entry ∈ buckets[index].nodes := by
  rw [List.mem_flatMap]
  constructor
  · rintro ⟨bucket, hbucket, hentry⟩
    obtain ⟨index, h, rfl⟩ := List.mem_iff_getElem.mp hbucket
    exact ⟨index, h, hentry⟩
  · rintro ⟨index, h, hentry⟩
    exact ⟨buckets[index], List.getElem_mem h, hentry⟩

/-- An entry is found in the bucket for its id. -/
theorem WellFormed.bucketIndex_eq (h : table.WellFormed) {index : Nat}
    (hindex : index < table.buckets.length) {entry : Entry}
    (hentry : entry ∈ table.buckets[index].nodes) : table.bucketIndex entry.id = index :=
  ((h.fits index _ (List.getElem?_eq_getElem hindex)).covers entry.id
    (.inl (List.mem_map_of_mem hentry))).2

/-- An entry of the target's bucket has the target's number. -/
theorem WellFormed.bucketIndex_of_mem_bucketOf (h : table.WellFormed) {entry : Entry}
    (hentry : entry ∈ (table.bucketOf target).nodes) :
    table.bucketIndex entry.id = table.bucketIndex target :=
  ((h.bucketOf target).covers entry.id (.inl (List.mem_map_of_mem hentry))).2

theorem WellFormed.lt_bucketIndex_of_mem_drop (h : table.WellFormed) {index : Nat} {entry : Entry}
    (hentry : entry ∈ (table.buckets.drop (index + 1)).flatMap Bucket.nodes) :
    index < table.bucketIndex entry.id := by
  obtain ⟨offset, hoffset, hentry⟩ := mem_flatMap_nodes.mp hentry
  rw [List.getElem_drop] at hentry
  rw [h.bucketIndex_eq _ hentry]
  omega

theorem WellFormed.bucketIndex_lt_of_mem_take (h : table.WellFormed) {index : Nat}
    {bucket : Bucket} {entry : Entry} (hbucket : bucket ∈ table.buckets.take index)
    (hentry : entry ∈ bucket.nodes) : table.bucketIndex entry.id < index := by
  obtain ⟨place, hplace, rfl⟩ := List.mem_iff_getElem.mp hbucket
  rw [List.getElem_take] at hentry
  rw [h.bucketIndex_eq _ hentry]
  rw [List.length_take] at hplace
  omega

/-- Going back through the buckets before the target's leads away from the target. -/
theorem WellFormed.pairwise_earlier (h : table.WellFormed) (target : Id) :
    ((table.buckets.take (table.bucketIndex target)).reverse.map Bucket.nodes).Pairwise
      (AllCloser target) := by
  rw [List.pairwise_map, List.pairwise_reverse, List.pairwise_iff_getElem]
  intro i j hi hj hij a ha b hb
  rw [List.getElem_take] at ha hb
  rw [List.length_take] at hi hj
  have hai := h.bucketIndex_eq _ ha
  have hbj := h.bucketIndex_eq _ hb
  have hia : table.bucketIndex a.id < table.bucketIndex target := by omega
  have hjb : table.bucketIndex b.id < table.bucketIndex target := by omega
  refine Id.distance_lt_of_sharedBits_lt ?_
  rw [sharedBits_of_bucketIndex_lt hia, sharedBits_of_bucketIndex_lt hjb]
  omega

/-- The groups are in the order of their distance to the target. -/
theorem WellFormed.pairwise_tiers (h : table.WellFormed) (target : Id) :
    (table.tiers target).Pairwise (AllCloser target) := by
  have hearlier : ∀ tier ∈ (table.buckets.take (table.bucketIndex target)).reverse.map Bucket.nodes,
      ∀ b ∈ tier, target.sharedBits b.id < table.bucketIndex target := by
    intro tier htier b hb
    obtain ⟨bucket, hbucket, rfl⟩ := List.mem_map.mp htier
    have hlt := h.bucketIndex_lt_of_mem_take (List.mem_reverse.mp hbucket) hb
    rw [sharedBits_of_bucketIndex_lt hlt]
    exact hlt
  refine List.pairwise_cons.mpr ⟨fun tier htier a ha b hb => ?_,
    List.pairwise_cons.mpr ⟨fun tier htier a ha b hb => ?_, h.pairwise_earlier target⟩⟩
  · have hown := h.bucketIndex_of_mem_bucketOf ha
    have hle := bucketIndex_le_sharedBits hown
    refine Id.distance_lt_of_sharedBits_lt ?_
    rcases List.mem_cons.mp htier with rfl | htier
    -- Only here does it count that two ids of a bucket agree on one more bit than its number.
    · have hlater := h.lt_bucketIndex_of_mem_drop hb
      have hbound := table.bucketIndex_le b.id
      rw [sharedBits_of_lt_bucketIndex hlater]
      exact lt_sharedBits_of_bucketIndex_eq h.front_lt (by omega) hown
    · exact Nat.lt_of_lt_of_le (hearlier tier htier b hb) hle
  · have hlater := h.lt_bucketIndex_of_mem_drop ha
    refine Id.distance_lt_of_sharedBits_lt ?_
    rw [sharedBits_of_lt_bucketIndex hlater]
    exact hearlier tier htier b hb

/-- The groups hold every entry of the table once. -/
theorem flatten_tiers_perm (table : RoutingTable) (target : Id) :
    (table.tiers target).flatten.Perm table.entries := by
  have hlt : table.bucketIndex target < table.buckets.length := by
    rw [length_buckets]
    exact Nat.lt_succ_of_le (table.bucketIndex_le target)
  have hget : table.buckets[table.bucketIndex target] = table.bucketOf target :=
    (List.getElem_eq_iff hlt).mpr (table.buckets_bucketIndex target)
  have hsplit : table.entries =
      (table.buckets.take (table.bucketIndex target)).flatMap Bucket.nodes ++
        ((table.bucketOf target).nodes ++
          (table.buckets.drop (table.bucketIndex target + 1)).flatMap Bucket.nodes) := by
    rw [← List.flatMap_cons, ← List.flatMap_append, ← hget, List.getElem_cons_drop,
      List.take_append_drop]
    rfl
  have hrev :
      ((table.buckets.take (table.bucketIndex target)).reverse.map Bucket.nodes).flatten.Perm
      ((table.buckets.take (table.bucketIndex target)).flatMap Bucket.nodes) :=
    ((List.reverse_perm _).map Bucket.nodes).flatten
  rw [hsplit, tiers, List.flatten_cons, List.flatten_cons, ← List.append_assoc]
  exact (hrev.append_left _).trans List.perm_append_comm

/-- Whole groups are gathered from the front until the count is reached. -/
theorem exists_gather_eq (count : Nat) (found : List Entry) (tiers : List (List Entry)) :
    ∃ taken rest, tiers = taken ++ rest ∧ gather count found tiers = found ++ taken.flatten ∧
      (rest = [] ∨ count ≤ (found ++ taken.flatten).length) := by
  induction tiers generalizing found with
  | nil => exact ⟨[], [], rfl, by simp [gather], .inl rfl⟩
  | cons tier tiers ih =>
    by_cases h : found.length < count
    · obtain ⟨taken, rest, rfl, hgather, hrest⟩ := ih (found ++ tier)
      refine ⟨tier :: taken, rest, rfl, ?_, ?_⟩
      · rw [gather, if_pos h, hgather, List.flatten_cons, List.append_assoc]
      · rwa [List.flatten_cons, ← List.append_assoc]
    · refine ⟨[], tier :: tiers, rfl, by simp [gather, h], .inr ?_⟩
      simpa using Nat.not_lt.mp h

/-! ### No id twice -/

/-- Ids that each bucket lists once are listed once by all of them. -/
theorem WellFormed.nodup_flatMap (h : table.WellFormed) {view : Bucket → List Id}
    (hnodup : ∀ bucket : Bucket, bucket.Sound → (view bucket).Nodup)
    (hview : ∀ bucket : Bucket, ∀ id ∈ view bucket, bucket.Mentions id) :
    (table.buckets.flatMap view).Nodup := by
  refine List.nodup_flatMap.mpr ⟨fun bucket hbucket => ?_, ?_⟩
  · obtain ⟨index, hindex⟩ := List.mem_iff_getElem?.mp hbucket
    exact hnodup bucket (h.fits index bucket hindex).sound
  · refine List.pairwise_iff_getElem.mpr fun i j hi hj hij id hidi hidj => ?_
    have hcovi := (h.fits i _ (List.getElem?_eq_getElem hi)).covers id (hview _ id hidi)
    have hcovj := (h.fits j _ (List.getElem?_eq_getElem hj)).covers id (hview _ id hidj)
    omega

theorem map_id_contacts (table : RoutingTable) :
    table.contacts.map Contact.id = table.buckets.flatMap Bucket.nodeIds := by
  rw [contacts, entries, List.map_map, List.map_flatMap]
  rfl

/-- No id has two places. -/
theorem WellFormed.nodup_ids (h : table.WellFormed) : (table.contacts.map Contact.id).Nodup := by
  rw [map_id_contacts]
  exact h.nodup_flatMap (fun _ hsound => hsound.nodup_nodes) fun _ _ hid => .inl hid

/-! ### The result -/

theorem distance_lt_of_pairwise_tiers {taken rest : List (List Entry)}
    (h : (taken ++ rest).Pairwise (AllCloser target)) :
    ∀ a ∈ taken.flatten.map Entry.contact, ∀ b ∈ rest.flatten.map Entry.contact,
      target.distance a.id < target.distance b.id := by
  intro _ hnear _ hfar
  obtain ⟨a, ha, rfl⟩ := List.mem_map.mp hnear
  obtain ⟨b, hb, rfl⟩ := List.mem_map.mp hfar
  obtain ⟨near, hnear, ha⟩ := List.mem_flatten.mp ha
  obtain ⟨far, hfar, hb⟩ := List.mem_flatten.mp hb
  exact (List.pairwise_append.mp h).2.2 near hnear far hfar a ha b hb

/-- **Finding the closest is exact.** -/
theorem WellFormed.findClosest_eq (h : table.WellFormed) (target : Id) (count : Nat) :
    table.findClosest target count = (Contact.byDistance target table.contacts).take count := by
  obtain ⟨taken, rest, htiers, hgather, hrest⟩ := exists_gather_eq count [] (table.tiers target)
  rw [List.nil_append] at hgather hrest
  have hperm : ((taken.flatten ++ rest.flatten).map Entry.contact).Perm table.contacts := by
    rw [← List.flatten_append, ← htiers]
    exact (table.flatten_tiers_perm target).map Entry.contact
  rw [List.map_append] at hperm
  have hnodup : ((taken.flatten.map Entry.contact ++ rest.flatten.map Entry.contact).map
      Contact.id).Nodup := (hperm.map Contact.id).nodup_iff.mpr h.nodup_ids
  have htaken : ((taken.flatten.map Entry.contact).map Contact.id).Nodup := by
    rw [List.map_append] at hnodup
    exact hnodup.of_append_left
  have hcloser := distance_lt_of_pairwise_tiers (htiers ▸ h.pairwise_tiers target)
  -- The contacts gathered come before all others, so sorting does not mix the two.
  have hall : Contact.byDistance target table.contacts =
      Contact.byDistance target (taken.flatten.map Entry.contact) ++
        Contact.byDistance target (rest.flatten.map Entry.contact) := by
    rw [← Contact.byDistance_append hnodup hcloser]
    exact (Contact.eq_byDistance h.nodup_ids ((Contact.byDistance_perm ..).trans hperm)
      (Contact.pairwise_byDistance ..)).symm
  have hfound : table.findClosest target count =
      (Contact.byDistance target (taken.flatten.map Entry.contact)).take count := by
    rw [findClosest, hgather, Ranking.contacts_ofList htaken]
  rw [hfound, hall]
  rcases hrest with rfl | hcount
  · simp [Contact.byDistance]
  · refine (List.take_append_of_le_length ?_).symm
    rwa [(Contact.byDistance_perm ..).length_eq, List.length_map]

/-- **Whatever became of a table**, it answers with all its contacts, sorted by their distance to
the target and cut to the count. The order is strict, no more are missing than the count demands,
and none that is missing is closer than one that is not. Counts that there is no room for are not
answered. -/
theorem findClosest?_run (own : Id) (start : Time) (events : List Event) (target : Id)
    (count : Nat) :
    let table := ((new own start).run events).1
    let closest := (Contact.byDistance target table.contacts).take count
    table.findClosest? target count = (if count ≤ maxCount then some closest else none) ∧
      Ranking.Sorted target closest ∧ closest.length = min count table.size ∧
      ∀ chosen ∈ closest, ∀ other ∈ table.contacts, other ∉ closest →
        target.distance chosen.id < target.distance other.id := by
  intro table closest
  have hwf : table.WellFormed := wellFormed_run own start events
  have hperm := Contact.byDistance_perm target table.contacts
  have hsorted : Ranking.Sorted target (Contact.byDistance target table.contacts) := by
    rw [← Ranking.contacts_ofList hwf.nodup_ids]
    exact Ranking.sorted_ofList target table.contacts
  refine ⟨?_, hsorted.sublist (List.take_sublist _ _), ?_, ?_⟩
  · rw [findClosest?, hwf.findClosest_eq]
  · rw [List.length_take, hperm.length_eq, contacts, List.length_map, size]
  · intro chosen hchosen other hother
    exact Contact.distance_lt_of_not_mem_take hsorted hchosen (hperm.mem_iff.mpr hother)

/-- A table with one contact does not answer when it is asked for up to 2^62 of them. -/
theorem findClosest?_beyond_room :
    let known : Contact := ⟨⟨1⟩, ⟨⟨10, 0, 0, 2⟩, 4444⟩⟩
    let table := ((new .zero 0).run [(0, .update known)]).1
    table.findClosest? .zero (1 <<< 62) = none ∧
      (Contact.byDistance .zero table.contacts).take (1 <<< 62) = [known] := by
  intro known table
  have hcontacts : table.contacts = [known] := by decide +kernel
  refine ⟨if_neg (by decide), ?_⟩
  rw [hcontacts, Contact.byDistance, List.mergeSort_singleton]
  rfl

end RoutingTable

end Kademlia
