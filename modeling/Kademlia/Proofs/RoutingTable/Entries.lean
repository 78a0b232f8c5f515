import Kademlia.Proofs.RoutingTable.WellFormed

/-!
# Kademlia.Proofs.RoutingTable.Entries

The entries of a routing table, as they are seen through its buckets: putting a bucket replaces the
entries of one bucket, splitting moves entries about, and so an update concerns no entry of another
id (`filter_entries_update_perm`).
-/

namespace Kademlia

theorem Bucket.filter_nodes_offer (bucket : Bucket) (entry : Entry) :
    (bucket.offer entry).1.nodes.filter (·.id ≠ entry.id) =
      bucket.nodes.filter (·.id ≠ entry.id) := by
  have hcons : ∀ entries : List Entry, (entry :: entries).filter (·.id ≠ entry.id) =
      entries.filter (·.id ≠ entry.id) := by
    intro entries
    rw [List.filter_cons, if_neg (by simp)]
  rcases bucket.offer_cases entry with ⟨-, heq⟩ | ⟨-, -, heq⟩ | ⟨-, -, heq⟩ <;> rw [heq]
  · refine (hcons _).trans ?_
    rw [Bucket.dropId, List.filter_filter]
    exact List.filter_congr fun other _ => Bool.and_self _
  · exact hcons _
  · rfl

namespace RoutingTable

variable {table : RoutingTable} {id : Id} {now : Time}

/-- Putting a bucket replaces the entries of one bucket. -/
theorem exists_entries_eq (table : RoutingTable) (id : Id) :
    ∃ before after, table.entries = before ++ ((table.bucketOf id).nodes ++ after) ∧
      ∀ bucket, (table.putBucket id bucket).entries = before ++ (bucket.nodes ++ after) := by
  obtain ⟨before, after, htable, hput⟩ := table.exists_buckets_eq id
  refine ⟨before.flatMap Bucket.nodes, after.flatMap Bucket.nodes, ?_, fun bucket => ?_⟩
  · rw [entries, htable, List.flatMap_append, List.flatMap_cons]
  · rw [entries, hput, List.flatMap_append, List.flatMap_cons]

theorem entries_touch (table : RoutingTable) (id : Id) (now : Time) :
    (table.touch id now).entries = table.entries := by
  obtain ⟨before, after, htable, hput⟩ := table.exists_entries_eq id
  rw [touch_eq, hput, htable]
  rfl

theorem entries_splitLast_perm (table : RoutingTable) :
    table.splitLast.entries.Perm table.entries := by
  have hparts := List.filter_append_perm
    (fun entry : Entry => decide (table.own.sharedBits entry.id = table.front.length))
    table.last.nodes
  rw [entries, buckets_splitLast, entries, buckets, List.flatMap_append, List.flatMap_append]
  refine List.Perm.append_left _ ?_
  simpa [Bucket.restrict, Bucket.part] using hparts

theorem entries_splitFor_perm (table : RoutingTable) (id : Id) (now : Time) :
    (table.splitFor id now).entries.Perm table.entries := by
  rw [← table.entries_touch id now]
  exact entries_splitLast_perm _

/-- **An update neither loses nor adds an entry of another id**, whatever splits it causes. -/
theorem filter_entries_update_perm (table : RoutingTable) (contact : Contact) (now : Time) :
    ((table.update contact now).1.entries.filter (·.id ≠ contact.id)).Perm
      (table.entries.filter (·.id ≠ contact.id)) := by
  induction table using update_induction contact now with
  | ignored table _ hupdate => rw [hupdate]
  | split table _ hupdate ih =>
    rw [hupdate]
    exact ih.trans ((table.entries_splitFor_perm contact.id now).filter _)
  | settled table _ _ hupdate =>
    obtain ⟨before, after, htable, hput⟩ := table.exists_entries_eq contact.id
    have hoffer := (table.bucketOf contact.id).filter_nodes_offer ⟨contact, now⟩
    rw [hupdate, hput, htable]
    simp only [List.filter_append]
    exact ((List.Perm.of_eq hoffer).append_right _).append_left _

end RoutingTable

end Kademlia
