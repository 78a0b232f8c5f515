import Kademlia.Proofs.RoutingTable.Pings

/-!
# Kademlia.Proofs.RoutingTable.Known

All that a routing table knows: the entries of its buckets and those that wait for a place
(`RoutingTable.known`). However entries move about, by refreshing, splitting, waiting and taking the
place of another, only an update brings one in, and no other of its id is left beside it
(`RoutingTable.eq_or_mem_known_of_update`).

The last part says who stays in the table when a ping is concluded.
-/

namespace Kademlia

/-! ### Buckets -/

namespace Bucket

variable {bucket : Bucket} {entry other : Entry} {id : Id}

/-- The entries of a bucket, also those that wait for a place. -/
def known (bucket : Bucket) : List Entry := bucket.nodes ++ bucket.replacements

theorem mentions_of_mem_known (h : entry ∈ bucket.known) : bucket.Mentions entry.id := by
  rcases List.mem_append.mp h with h | h
  · exact .inl (List.mem_map_of_mem h)
  · exact .inr (.inl (List.mem_map_of_mem h))

theorem Sound.nodup_known (h : bucket.Sound) : (bucket.known.map Entry.id).Nodup := by
  rw [Bucket.known, List.map_append]
  refine List.nodup_append.mpr ⟨h.nodup_nodes, h.nodup_replacements, fun id hid other hother => ?_⟩
  rintro rfl
  exact h.disjoint id hid hother

/-- An entry that is offered is known from then on. -/
theorem mem_known_offer (bucket : Bucket) (entry : Entry) :
    entry ∈ (bucket.offer entry).1.known := by
  rcases bucket.offer_cases entry with ⟨-, heq⟩ | ⟨-, -, heq⟩ | ⟨-, -, heq⟩ <;> rw [heq]
  · exact List.mem_append_left _ List.mem_cons_self
  · exact List.mem_append_left _ List.mem_cons_self
  · exact List.mem_append_right _ List.mem_cons_self

theorem mem_of_mem_dropId {entries : List Entry} (h : other ∈ dropId id entries) :
    other ∈ entries :=
  List.mem_of_mem_filter h

/-- Nothing else is. -/
theorem eq_or_mem_known_of_offer (h : other ∈ (bucket.offer entry).1.known) :
    other = entry ∨ other ∈ bucket.known := by
  rcases bucket.offer_cases entry with ⟨-, heq⟩ | ⟨-, -, heq⟩ | ⟨-, -, heq⟩ <;> rw [heq] at h <;>
    rcases List.mem_append.mp h with h | h
  -- The entry is refreshed, ...
  · exact (List.mem_cons.mp h).imp_right fun h => List.mem_append_left _ (mem_of_mem_dropId h)
  · exact .inr (List.mem_append_right _ h)
  -- ... takes a free place ...
  · exact (List.mem_cons.mp h).imp_right (List.mem_append_left _)
  · exact .inr (List.mem_append_right _ (mem_of_mem_dropId h))
  -- ... or waits for one.
  · exact .inr (List.mem_append_left _ h)
  · exact (List.mem_cons.mp (List.mem_of_mem_take h)).imp_right fun h =>
      List.mem_append_right _ (mem_of_mem_dropId h)

theorem known_settlePing (bucket : Bucket) (id : Id) :
    (bucket.settlePing id).known = bucket.known := by
  rw [known, nodes_settlePing, replacements_settlePing, known]

theorem known_promote_perm (bucket : Bucket) : bucket.promote.1.known.Perm bucket.known := by
  unfold promote
  split
  · exact .refl _
  · rename_i first rest hrepl
    rw [known, known, hrepl]
    exact List.perm_middle.symm

theorem known_evict_subset (bucket : Bucket) (id : Id) :
    (bucket.evict id).1.known ⊆ bucket.known := by
  rcases bucket.evict_cases id with ⟨-, heq⟩ | ⟨-, heq⟩ <;> rw [heq]
  · rw [← bucket.known_settlePing id]
    refine List.Subset.trans (known_promote_perm _).subset ?_
    exact (List.filter_sublist.append_right _).subset
  · rw [known_settlePing]
    exact List.Subset.refl _

/-- A contact that is given up is not known any more. -/
theorem Sound.id_ne_of_evict (h : bucket.Sound) (hin : id ∈ bucket.nodeIds)
    (hentry : entry ∈ (bucket.evict id).1.known) : entry.id ≠ id := by
  rw [evict_of_mem hin] at hentry
  rcases List.mem_append.mp ((known_promote_perm _).subset hentry) with hentry | hentry
  · exact of_decide_eq_true (List.mem_filter.mp hentry).2
  · rintro rfl
    refine h.disjoint _ hin (List.mem_map_of_mem ?_)
    rwa [Bucket.remove, replacements_settlePing] at hentry

/-- The other contacts of the bucket stay. -/
theorem mem_nodeIds_evict {other : Id} (hne : other ≠ id) (hin : other ∈ bucket.nodeIds) :
    other ∈ (bucket.evict id).1.nodeIds := by
  rcases bucket.evict_cases id with ⟨-, heq⟩ | ⟨-, heq⟩ <;> rw [heq]
  · have hremoved : other ∈ ((bucket.settlePing id).remove id).nodeIds := by
      rw [nodeIds, remove, nodes_settlePing]
      exact mem_ids_dropId.mpr ⟨hin, hne⟩
    unfold promote
    split
    · exact hremoved
    · exact List.mem_cons_of_mem _ hremoved
  · rwa [nodeIds, nodes_settlePing]

end Bucket

/-! ### Tables -/

namespace RoutingTable

variable {table : RoutingTable} {contact : Contact} {now : Time} {id : Id} {entry : Entry}

/-- All that a table knows. -/
def known (table : RoutingTable) : List Entry := table.buckets.flatMap Bucket.known

theorem mem_known_iff : entry ∈ table.known ↔ ∃ bucket ∈ table.buckets, entry ∈ bucket.known :=
  List.mem_flatMap

theorem WellFormed.nodup_known (h : table.WellFormed) : (table.known.map Entry.id).Nodup := by
  rw [known, List.map_flatMap]
  refine h.nodup_flatMap (fun _ hsound => hsound.nodup_known) fun bucket id hid => ?_
  obtain ⟨entry, hentry, rfl⟩ := List.mem_map.mp hid
  exact Bucket.mentions_of_mem_known hentry

/-- A table knows no entry of its own id. -/
theorem WellFormed.id_ne_own (h : table.WellFormed) (hentry : entry ∈ table.known) :
    entry.id ≠ table.own := by
  obtain ⟨bucket, hbucket, hentry⟩ := mem_known_iff.mp hentry
  obtain ⟨index, hindex⟩ := List.getElem?_of_mem hbucket
  exact ((h.fits index bucket hindex).covers entry.id (Bucket.mentions_of_mem_known hentry)).1

theorem mem_known_of_putBucket {bucket : Bucket} (h : entry ∈ (table.putBucket id bucket).known) :
    entry ∈ bucket.known ∨ entry ∈ table.known := by
  obtain ⟨before, after, htable, hput⟩ := table.exists_buckets_eq id
  rw [known, hput, List.flatMap_append, List.flatMap_cons] at h
  rw [known, htable, List.flatMap_append, List.flatMap_cons]
  simp only [List.mem_append] at h ⊢
  tauto

/-- A bucket that knows no more than the one in whose place it is put adds nothing. -/
theorem known_putBucket_subset {bucket : Bucket} (h : bucket.known ⊆ (table.bucketOf id).known) :
    (table.putBucket id bucket).known ⊆ table.known := by
  intro entry hentry
  rcases mem_known_of_putBucket hentry with hentry | hentry
  · exact mem_known_iff.mpr ⟨_, table.bucketOf_mem id, h hentry⟩
  · exact hentry

theorem known_touch_subset (table : RoutingTable) (id : Id) (now : Time) :
    (table.touch id now).known ⊆ table.known :=
  known_putBucket_subset (List.Subset.refl _)

theorem known_pingAnswered_subset (table : RoutingTable) (id : Id) :
    (table.pingAnswered id).known ⊆ table.known :=
  known_putBucket_subset (fun _ h => Bucket.known_settlePing .. ▸ h)

theorem known_evict_subset (table : RoutingTable) (id : Id) :
    (table.evict id).1.known ⊆ table.known :=
  known_putBucket_subset (Bucket.known_evict_subset ..)

theorem known_splitLast_subset (table : RoutingTable) : table.splitLast.known ⊆ table.known := by
  have hpart : ∀ keep, (table.last.restrict keep).known ⊆ table.last.known := fun keep =>
    (List.filter_sublist.append List.filter_sublist).subset
  intro entry h
  obtain ⟨bucket, hbucket, hentry⟩ := mem_known_iff.mp h
  rw [buckets_splitLast, List.mem_append, List.mem_cons, List.mem_singleton] at hbucket
  rcases hbucket with hbucket | rfl | rfl
  · exact mem_known_iff.mpr ⟨bucket, List.mem_append_left _ hbucket, hentry⟩
  · exact mem_known_iff.mpr ⟨_, List.mem_append_right _ (List.mem_singleton_self _), hpart _ hentry⟩
  · exact mem_known_iff.mpr ⟨_, List.mem_append_right _ (List.mem_singleton_self _), hpart _ hentry⟩

theorem known_splitFor_subset (table : RoutingTable) (id : Id) (now : Time) :
    (table.splitFor id now).known ⊆ table.known :=
  List.Subset.trans (known_splitLast_subset _) (table.known_touch_subset id now)

theorem mem_known_update (hown : contact.id ≠ table.own) (now : Time) :
    (⟨contact, now⟩ : Entry) ∈ (table.update contact now).1.known := by
  induction table using update_induction contact now with
  | ignored table hsame => exact absurd hsame hown
  | split table _ hupdate ih =>
    rw [hupdate]
    exact ih (by rwa [own_splitFor])
  | settled table _ _ hupdate =>
    rw [hupdate]
    refine mem_known_iff.mpr ⟨_, bucketOf_mem _ contact.id, ?_⟩
    rw [bucketOf_putBucket]
    exact Bucket.mem_known_offer ..

theorem eq_or_mem_known
    (h : entry ∈ (table.update contact now).1.known) :
    entry = ⟨contact, now⟩ ∨ entry ∈ table.known := by
  induction table using update_induction contact now with
  | ignored table _ hupdate =>
    rw [hupdate] at h
    exact .inr h
  | split table _ hupdate ih =>
    rw [hupdate] at h
    exact (ih h).imp_right (known_splitFor_subset table contact.id now ·)
  | settled table _ _ hupdate =>
    rw [hupdate] at h
    rcases mem_known_of_putBucket h with h | h
    · refine (Bucket.eq_or_mem_known_of_offer h).imp_right fun h => ?_
      exact mem_known_iff.mpr ⟨_, table.bucketOf_mem contact.id, h⟩
    · exact .inr h

/-- **What an update leaves** is the contact that was heard of and what was known of others: no id
is there twice, so an older entry of the contact's id is gone. -/
theorem WellFormed.eq_or_mem_known_of_update (h : table.WellFormed) (hown : contact.id ≠ table.own)
    (hentry : entry ∈ (table.update contact now).1.known) :
    entry = ⟨contact, now⟩ ∨ entry ∈ table.known ∧ entry.id ≠ contact.id := by
  by_cases hid : entry.id = contact.id
  · exact .inl (List.inj_on_of_nodup_map (h.update contact now).nodup_known hentry
      (mem_known_update hown now) hid)
  · exact (eq_or_mem_known hentry).imp_right (⟨·, hid⟩)

/-! ### Contacts -/

theorem WellFormed.contains_iff (h : table.WellFormed) :
    table.contains id = true ↔ id ∈ table.entries.map Entry.id := by
  rw [contains, Bucket.holds_iff]
  constructor
  · intro hid
    obtain ⟨entry, hentry, rfl⟩ := List.mem_map.mp hid
    exact List.mem_map_of_mem (List.mem_flatMap.mpr ⟨_, table.bucketOf_mem entry.id, hentry⟩)
  · intro hid
    obtain ⟨entry, hentry, rfl⟩ := List.mem_map.mp hid
    obtain ⟨bucket, hbucket, hentry⟩ := List.mem_flatMap.mp hentry
    have hmem : entry.id ∈ bucket.nodeIds := List.mem_map_of_mem hentry
    exact h.eq_bucketOf hbucket (.inl hmem) ▸ hmem

/-- Giving up a contact leaves the others. -/
theorem WellFormed.contains_evict (h : table.WellFormed) {other : Id} (hne : other ≠ id)
    (hin : table.contains other = true) : (table.evict id).1.contains other = true := by
  have hevicted : (table.evict id).1.WellFormed := h.putBucket ((h.bucketOf id).evict id)
  rw [hevicted.contains_iff]
  rw [h.contains_iff] at hin
  obtain ⟨before, after, htable, hput⟩ := table.exists_entries_eq id
  rw [evict, hput]
  rw [htable] at hin
  simp only [List.map_append, List.mem_append] at hin ⊢
  exact hin.imp_right (Or.imp_left (Bucket.mem_nodeIds_evict hne))

theorem WellFormed.contains_pingAnswered (h : table.WellFormed) {other : Id} :
    (table.pingAnswered id).contains other = table.contains other := by
  have hanswered : (table.pingAnswered id).WellFormed :=
    h.putBucket ((h.bucketOf id).settlePing id)
  obtain ⟨before, after, htable, hput⟩ := table.exists_entries_eq id
  rw [Bool.eq_iff_iff, hanswered.contains_iff, h.contains_iff, pingAnswered, changeBucket, hput,
    Bucket.nodes_settlePing, ← htable]

/-- A contact that is given up is not known any more. -/
theorem WellFormed.id_ne_of_evict (h : table.WellFormed) (hin : table.contains id = true)
    (hentry : entry ∈ (table.evict id).1.known) : entry.id ≠ id := by
  rintro rfl
  have hfits := h.bucketOf entry.id
  have hevicted : (table.evict entry.id).1.WellFormed := h.putBucket (hfits.evict entry.id)
  obtain ⟨bucket, hbucket, hentry⟩ := mem_known_iff.mp hentry
  obtain rfl := hevicted.eq_bucketOf hbucket (Bucket.mentions_of_mem_known hentry)
  rw [evict, bucketOf_putBucket] at hentry
  exact hfits.sound.id_ne_of_evict (Bucket.holds_iff.mp hin) hentry rfl

/-- A contact that is not known is not in the table. -/
theorem WellFormed.not_contains (h : table.WellFormed)
    (hout : ∀ entry ∈ table.known, entry.id ≠ id) : table.contains id = false := by
  refine Bool.eq_false_iff.mpr fun hin => ?_
  obtain ⟨entry, hentry, rfl⟩ := List.mem_map.mp (h.contains_iff.mp hin)
  obtain ⟨bucket, hbucket, hentry⟩ := List.mem_flatMap.mp hentry
  exact hout entry (mem_known_iff.mpr ⟨bucket, hbucket, List.mem_append_left _ hentry⟩) rfl

end RoutingTable

end Kademlia
