import Kademlia.RoutingTable
import Mathlib.Data.List.Nodup
import Mathlib.Tactic.Tauto

/-!
# Kademlia.Proofs.Bucket

What a single bucket keeps to, whatever table it is in:

* `Bucket.Sound`: at most twenty contacts and twenty replacements, and no id twice among both;
* `Bucket.Mentions`: the ids that a bucket speaks of, so that no operation brings in an id that it
  was not given; and
* `Bucket.offer`: the one step that a bucket makes when a contact is heard of, which is all of an
  update except for the splits that come before it.

Each operation of a bucket has a lemma for each of the two, and the routing table is reasoned about
through those lemmas alone.
-/

namespace Kademlia

namespace Bucket

variable {bucket : Bucket} {entry : Entry} {id other : Id} {now : Time}

/-- The ids of a bucket's contacts. -/
def nodeIds (bucket : Bucket) : List Id := bucket.nodes.map Entry.id

/-- The ids of a bucket's replacements. -/
def replacementIds (bucket : Bucket) : List Id := bucket.replacements.map Entry.id

/-- The bucket speaks of an id: as a contact, as a replacement or as the one that is pinged. -/
def Mentions (bucket : Bucket) (id : Id) : Prop :=
  id ∈ bucket.nodeIds ∨ id ∈ bucket.replacementIds ∨ bucket.pinging = some id

/-- No list is too long, and no id is there twice. -/
structure Sound (bucket : Bucket) : Prop where
  nodes_le : bucket.nodes.length ≤ capacity
  replacements_le : bucket.replacements.length ≤ capacity
  nodup_nodes : bucket.nodeIds.Nodup
  nodup_replacements : bucket.replacementIds.Nodup
  disjoint : ∀ id ∈ bucket.nodeIds, id ∉ bucket.replacementIds

/-- Nobody waits for a place in the bucket, and nobody is pinged. -/
def Idle (bucket : Bucket) : Prop := bucket.replacements = [] ∧ bucket.pinging = none

theorem holds_iff : bucket.holds id = true ↔ id ∈ bucket.nodeIds := by
  simp [holds, nodeIds]

theorem isFull_iff : bucket.isFull = true ↔ capacity ≤ bucket.nodes.length := by
  simp [isFull]

/-! ### Dropping an id from a list -/

theorem ids_dropId (id : Id) (entries : List Entry) :
    (dropId id entries).map Entry.id = (entries.map Entry.id).filter (· ≠ id) := by
  rw [dropId, List.filter_map]
  rfl

theorem mem_ids_dropId {entries : List Entry} :
    other ∈ (dropId id entries).map Entry.id ↔ other ∈ entries.map Entry.id ∧ other ≠ id := by
  rw [ids_dropId, List.mem_filter, decide_eq_true_iff]

theorem nodup_ids_dropId {entries : List Entry} (h : (entries.map Entry.id).Nodup) :
    ((dropId id entries).map Entry.id).Nodup := by
  rw [ids_dropId]
  exact h.filter _

theorem dropId_eq_self {entries : List Entry} (h : id ∉ entries.map Entry.id) :
    dropId id entries = entries := by
  refine List.filter_eq_self.mpr fun entry hentry => ?_
  simp only [ne_eq, decide_eq_true_eq]
  rintro rfl
  exact h (List.mem_map_of_mem hentry)

/-- An id that occurs once takes one place. -/
theorem length_dropId {entries : List Entry} (hnodup : (entries.map Entry.id).Nodup)
    (hmem : id ∈ entries.map Entry.id) : (dropId id entries).length + 1 = entries.length := by
  have hlen : (dropId id entries).length = ((entries.map Entry.id).filter (· ≠ id)).length := by
    rw [← ids_dropId, List.length_map]
  have herase : (entries.map Entry.id).filter (· ≠ id) = (entries.map Entry.id).erase id := by
    rw [hnodup.erase_eq_filter]
    exact List.filter_congr fun other _ => by rw [Bool.eq_iff_iff]; simp
  rw [hlen, herase, List.length_erase_of_mem hmem, List.length_map]
  have hpos : 0 < (entries.map Entry.id).length := List.length_pos_of_mem hmem
  rw [List.length_map] at hpos
  omega

/-! ### A contact is heard of -/

/-- What a bucket does with a contact that it covers, when there is no further bucket to split
off: the contact becomes the freshest, takes a place or waits for one. -/
def offer (bucket : Bucket) (entry : Entry) : Bucket × UpdateOutcome :=
  let bucket := bucket.touch entry.lastSeen
  if bucket.holds entry.id then (bucket.refresh entry, .refreshed)
  else if bucket.isFull then
    let (bucket, suspect) := bucket.overflow entry
    (bucket, .full suspect)
  else (bucket.insert entry, .inserted)

theorem offer_of_mem (hin : entry.id ∈ bucket.nodeIds) :
    bucket.offer entry = ((bucket.touch entry.lastSeen).refresh entry, .refreshed) := by
  have hholds : (bucket.touch entry.lastSeen).holds entry.id = true := holds_iff.mpr hin
  rw [offer, if_pos hholds]

theorem offer_of_lt (hout : entry.id ∉ bucket.nodeIds) (hroom : bucket.nodes.length < capacity) :
    bucket.offer entry = ((bucket.touch entry.lastSeen).insert entry, .inserted) := by
  have hholds : ¬ (bucket.touch entry.lastSeen).holds entry.id = true := mt holds_iff.mp hout
  have hfull : ¬ (bucket.touch entry.lastSeen).isFull = true :=
    mt isFull_iff.mp (Nat.not_le.mpr hroom)
  rw [offer, if_neg hholds, if_neg hfull]

theorem offer_of_le (hout : entry.id ∉ bucket.nodeIds) (hfull : capacity ≤ bucket.nodes.length) :
    bucket.offer entry =
      (((bucket.touch entry.lastSeen).overflow entry).1, .full bucket.suspect?) := by
  have hholds : ¬ (bucket.touch entry.lastSeen).holds entry.id = true := mt holds_iff.mp hout
  have hfull' : (bucket.touch entry.lastSeen).isFull = true := isFull_iff.mpr hfull
  rw [offer, if_neg hholds, if_pos hfull']
  rfl

/-- The three ways in which a contact is taken in. -/
theorem offer_cases (bucket : Bucket) (entry : Entry) :
    (entry.id ∈ bucket.nodeIds ∧
      bucket.offer entry = ((bucket.touch entry.lastSeen).refresh entry, .refreshed)) ∨
    (entry.id ∉ bucket.nodeIds ∧ bucket.nodes.length < capacity ∧
      bucket.offer entry = ((bucket.touch entry.lastSeen).insert entry, .inserted)) ∨
    (entry.id ∉ bucket.nodeIds ∧ capacity ≤ bucket.nodes.length ∧
      bucket.offer entry =
        (((bucket.touch entry.lastSeen).overflow entry).1, .full bucket.suspect?)) := by
  by_cases hin : entry.id ∈ bucket.nodeIds
  · exact .inl ⟨hin, offer_of_mem hin⟩
  · rcases Nat.lt_or_ge bucket.nodes.length capacity with hroom | hfull
    · exact .inr (.inl ⟨hin, hroom, offer_of_lt hin hroom⟩)
    · exact .inr (.inr ⟨hin, hfull, offer_of_le hin hfull⟩)

/-- A contact that is known or finds a place is the freshest afterwards. -/
theorem nodes_offer (hroom : entry.id ∉ bucket.nodeIds → bucket.nodes.length < capacity) :
    (bucket.offer entry).1.nodes = entry :: dropId entry.id bucket.nodes := by
  by_cases hin : entry.id ∈ bucket.nodeIds
  · rw [offer_of_mem hin]
    rfl
  · rw [offer_of_lt hin (hroom hin), dropId_eq_self hin]
    rfl

/-! ### Ids that an operation leaves in place -/

theorem Mentions.of_refresh (h : (bucket.refresh entry).Mentions id) :
    id = entry.id ∨ bucket.Mentions id := by
  rcases h with h | h | h
  · rcases List.mem_cons.mp h with h | h
    · exact .inl h
    · exact .inr (.inl (mem_ids_dropId.mp h).1)
  · exact .inr (.inr (.inl h))
  · exact .inr (.inr (.inr h))

theorem Mentions.of_insert (h : (bucket.insert entry).Mentions id) :
    id = entry.id ∨ bucket.Mentions id := by
  rcases h with h | h | h
  · rcases List.mem_cons.mp h with h | h
    · exact .inl h
    · exact .inr (.inl h)
  · exact .inr (.inr (.inl (mem_ids_dropId.mp h).1))
  · exact .inr (.inr (.inr h))

theorem mem_replacementIds_of_reserve (h : id ∈ (bucket.reserve entry).replacementIds) :
    id = entry.id ∨ (id ≠ entry.id ∧ id ∈ bucket.replacementIds) := by
  rw [replacementIds, reserve, List.map_take, List.map_cons] at h
  rcases List.mem_cons.mp (List.mem_of_mem_take h) with h | h
  · exact .inl h
  · exact .inr (mem_ids_dropId.mp h).symm

/-- The contact to ping is one of the bucket's. -/
theorem mem_nodes_of_suspect? {suspect : Contact} (h : bucket.suspect? = some suspect) :
    bucket.pinging = none ∧ ∃ entry ∈ bucket.nodes, entry.contact = suspect := by
  unfold suspect? at h
  split at h
  · exact absurd h (by simp)
  · rename_i hping
    obtain ⟨entry, hentry, rfl⟩ := Option.map_eq_some_iff.mp h
    exact ⟨hping, entry, List.mem_of_getLast? hentry, rfl⟩

theorem Mentions.of_overflow (h : (bucket.overflow entry).1.Mentions id) :
    id = entry.id ∨ bucket.Mentions id := by
  rcases h with h | h | h
  · exact .inr (.inl h)
  · exact (mem_replacementIds_of_reserve h).imp_right fun h => .inr (.inl h.2)
  · have hor : (bucket.suspect?.map Contact.id).or bucket.pinging = some id := h
    rcases Option.or_eq_some_iff.mp hor with h | ⟨-, h⟩
    · obtain ⟨suspect, hsuspect, rfl⟩ := Option.map_eq_some_iff.mp h
      obtain ⟨-, entry, hentry, rfl⟩ := mem_nodes_of_suspect? hsuspect
      exact .inr (.inl (List.mem_map_of_mem hentry))
    · exact .inr (.inr (.inr h))

theorem Mentions.of_offer (h : (bucket.offer entry).1.Mentions id) :
    id = entry.id ∨ bucket.Mentions id := by
  rcases offer_cases bucket entry with ⟨-, heq⟩ | ⟨-, -, heq⟩ | ⟨-, -, heq⟩ <;> rw [heq] at h
  · exact h.of_refresh
  · exact h.of_insert
  · exact h.of_overflow

@[simp] theorem nodes_settlePing (bucket : Bucket) (id : Id) :
    (bucket.settlePing id).nodes = bucket.nodes := by
  unfold settlePing; split <;> rfl

@[simp] theorem replacements_settlePing (bucket : Bucket) (id : Id) :
    (bucket.settlePing id).replacements = bucket.replacements := by
  unfold settlePing; split <;> rfl

/-- Only the ping of the id itself is settled. -/
theorem pinging_settlePing (bucket : Bucket) (id : Id) :
    (bucket.settlePing id).pinging = if bucket.pinging = some id then none else bucket.pinging := by
  unfold settlePing; split <;> rfl

theorem Mentions.of_settlePing (h : (bucket.settlePing other).Mentions id) :
    bucket.Mentions id := by
  rw [Mentions, nodeIds, replacementIds, nodes_settlePing, replacements_settlePing,
    pinging_settlePing] at h
  refine h.imp_right (Or.imp_right fun h => ?_)
  split at h
  · exact absurd h (by simp)
  · exact h

theorem Mentions.of_remove (h : (bucket.remove other).Mentions id) : bucket.Mentions id :=
  h.imp_left fun h => (mem_ids_dropId.mp h).1

theorem Mentions.of_promote (h : bucket.promote.1.Mentions id) : bucket.Mentions id := by
  unfold promote at h
  split at h
  · exact h
  · rename_i entry rest hrepl
    have hids : bucket.replacementIds = entry.id :: rest.map Entry.id := by
      rw [replacementIds, hrepl, List.map_cons]
    rcases h with h | h | h
    · rcases List.mem_cons.mp h with rfl | h
      · exact .inr (.inl (hids ▸ List.mem_cons_self))
      · exact .inl h
    · exact .inr (.inl (hids ▸ List.mem_cons_of_mem _ h))
    · exact .inr (.inr h)

theorem promote_of_nil (h : bucket.replacements = []) : bucket.promote = (bucket, none) := by
  simp only [promote, h]

theorem promote_of_cons {rest : List Entry} (h : bucket.replacements = entry :: rest) :
    bucket.promote =
      ({ bucket with nodes := entry :: bucket.nodes, replacements := rest },
        some entry.contact) := by
  simp only [promote, h]

theorem evict_of_mem (hin : id ∈ bucket.nodeIds) :
    bucket.evict id = ((bucket.settlePing id).remove id).promote := by
  have hholds : (bucket.settlePing id).holds id = true := by
    rwa [holds_iff, nodeIds, nodes_settlePing]
  rw [evict]
  exact if_pos hholds

theorem evict_of_not_mem (hout : id ∉ bucket.nodeIds) :
    bucket.evict id = (bucket.settlePing id, none) := by
  have hholds : ¬ (bucket.settlePing id).holds id = true := by
    rwa [holds_iff, nodeIds, nodes_settlePing]
  rw [evict]
  exact if_neg hholds

/-- The two ways in which a contact is given up. -/
theorem evict_cases (bucket : Bucket) (id : Id) :
    (id ∈ bucket.nodeIds ∧ bucket.evict id = ((bucket.settlePing id).remove id).promote) ∨
    (id ∉ bucket.nodeIds ∧ bucket.evict id = (bucket.settlePing id, none)) := by
  by_cases hin : id ∈ bucket.nodeIds
  · exact .inl ⟨hin, evict_of_mem hin⟩
  · exact .inr ⟨hin, evict_of_not_mem hin⟩

theorem Mentions.of_evict (h : (bucket.evict other).1.Mentions id) : bucket.Mentions id := by
  rcases evict_cases bucket other with ⟨-, heq⟩ | ⟨-, heq⟩ <;> rw [heq] at h
  · exact h.of_promote.of_remove.of_settlePing
  · exact h.of_settlePing

/-! ### Idle buckets -/

theorem settlePing_of_ne (h : bucket.pinging ≠ some id) : bucket.settlePing id = bucket := by
  rw [settlePing, if_neg h]

theorem settlePing_of_idle (h : bucket.Idle) (id : Id) : bucket.settlePing id = bucket :=
  settlePing_of_ne (by simp [h.2])

/-- Where nobody waits for a place, an eviction is a removal. -/
theorem evict_of_idle (h : bucket.Idle) (id : Id) : bucket.evict id = (bucket.remove id, none) := by
  by_cases hin : id ∈ bucket.nodeIds
  · rw [evict_of_mem hin, settlePing_of_idle h, promote,
      show (bucket.remove id).replacements = [] from h.1]
  · rw [evict_of_not_mem hin, settlePing_of_idle h, remove, dropId_eq_self hin]

/-- A bucket that has a place for a contact stays idle when it takes it in. -/
theorem Idle.offer (h : bucket.Idle)
    (hroom : entry.id ∉ bucket.nodeIds → bucket.nodes.length < capacity) :
    (bucket.offer entry).1.Idle := by
  obtain ⟨hrepl, hping⟩ := h
  by_cases hin : entry.id ∈ bucket.nodeIds
  · rw [offer_of_mem hin]
    exact ⟨hrepl, hping⟩
  · rw [offer_of_lt hin (hroom hin)]
    refine ⟨?_, hping⟩
    show dropId entry.id bucket.replacements = []
    rw [hrepl]
    rfl

/-! ### Parts of a bucket -/

/-- What a bucket holds of the ids with a property, in the order in which it holds them. -/
def restrict (keep : Id → Bool) (bucket : Bucket) : Bucket := (bucket.part keep).1

variable {keep : Id → Bool}

theorem nodeIds_restrict : (bucket.restrict keep).nodeIds = bucket.nodeIds.filter keep := by
  rw [nodeIds, nodeIds, List.filter_map]
  rfl

theorem replacementIds_restrict :
    (bucket.restrict keep).replacementIds = bucket.replacementIds.filter keep := by
  rw [replacementIds, replacementIds, List.filter_map]
  rfl

theorem mentions_restrict_iff :
    (bucket.restrict keep).Mentions id ↔ bucket.Mentions id ∧ keep id = true := by
  have hping : (bucket.restrict keep).pinging = some id ↔
      bucket.pinging = some id ∧ keep id = true := Option.filter_eq_some_iff
  rw [Mentions, Mentions, nodeIds_restrict, replacementIds_restrict, List.mem_filter,
    List.mem_filter, hping]
  tauto

theorem Idle.restrict (h : bucket.Idle) (keep : Id → Bool) : (bucket.restrict keep).Idle := by
  obtain ⟨hrepl, hping⟩ := h
  exact ⟨by rw [Bucket.restrict, part, hrepl]; rfl, by rw [Bucket.restrict, part, hping]; rfl⟩

/-! ### Soundness -/

theorem sound_empty (now : Time) : (empty now).Sound :=
  ⟨Nat.zero_le _, Nat.zero_le _, List.nodup_nil, List.nodup_nil, fun _ _ => List.not_mem_nil⟩

namespace Sound

theorem touch (h : bucket.Sound) (now : Time) : (bucket.touch now).Sound :=
  ⟨h.nodes_le, h.replacements_le, h.nodup_nodes, h.nodup_replacements, h.disjoint⟩

theorem refresh (h : bucket.Sound) (hin : entry.id ∈ bucket.nodeIds) :
    (bucket.refresh entry).Sound where
  nodes_le := by
    have hlen := length_dropId h.nodup_nodes hin
    have hle := h.nodes_le
    show (dropId entry.id bucket.nodes).length + 1 ≤ capacity
    omega
  replacements_le := h.replacements_le
  nodup_nodes := by
    refine List.nodup_cons.mpr ⟨fun hmem => ?_, nodup_ids_dropId h.nodup_nodes⟩
    exact (mem_ids_dropId.mp hmem).2 rfl
  nodup_replacements := h.nodup_replacements
  disjoint := by
    intro id hid
    rcases List.mem_cons.mp hid with rfl | hid
    · exact h.disjoint _ hin
    · exact h.disjoint _ (mem_ids_dropId.mp hid).1

theorem insert (h : bucket.Sound) (hout : entry.id ∉ bucket.nodeIds)
    (hroom : bucket.nodes.length < capacity) : (bucket.insert entry).Sound where
  nodes_le := hroom
  replacements_le := Nat.le_trans (List.length_filter_le ..) h.replacements_le
  nodup_nodes := List.nodup_cons.mpr ⟨hout, h.nodup_nodes⟩
  nodup_replacements := nodup_ids_dropId h.nodup_replacements
  disjoint := by
    intro id hid hrepl
    obtain ⟨hrepl, hne⟩ := mem_ids_dropId.mp hrepl
    rcases List.mem_cons.mp hid with rfl | hid
    · exact hne rfl
    · exact h.disjoint _ hid hrepl

theorem overflow (h : bucket.Sound) (hout : entry.id ∉ bucket.nodeIds) :
    (bucket.overflow entry).1.Sound where
  nodes_le := h.nodes_le
  replacements_le := List.length_take_le ..
  nodup_nodes := h.nodup_nodes
  nodup_replacements := by
    have hfresh : entry.id ∉ (dropId entry.id bucket.replacements).map Entry.id :=
      fun hmem => (mem_ids_dropId.mp hmem).2 rfl
    have hnodup := List.nodup_cons.mpr ⟨hfresh, nodup_ids_dropId h.nodup_replacements⟩
    show (((entry :: dropId entry.id bucket.replacements).take capacity).map Entry.id).Nodup
    rw [List.map_take, List.map_cons]
    exact hnodup.sublist (List.take_sublist ..)
  disjoint := by
    intro id hid hrepl
    rcases mem_replacementIds_of_reserve hrepl with rfl | ⟨-, hrepl⟩
    · exact hout hid
    · exact h.disjoint _ hid hrepl

theorem offer (h : bucket.Sound) (entry : Entry) : (bucket.offer entry).1.Sound := by
  rcases offer_cases bucket entry with ⟨hin, heq⟩ | ⟨hout, hroom, heq⟩ | ⟨hout, -, heq⟩ <;> rw [heq]
  · exact (h.touch _).refresh hin
  · exact (h.touch _).insert hout hroom
  · exact (h.touch _).overflow hout

theorem settlePing (h : bucket.Sound) (id : Id) : (bucket.settlePing id).Sound := by
  unfold Bucket.settlePing
  split
  · exact ⟨h.nodes_le, h.replacements_le, h.nodup_nodes, h.nodup_replacements, h.disjoint⟩
  · exact h

theorem remove (h : bucket.Sound) (id : Id) : (bucket.remove id).Sound where
  nodes_le := Nat.le_trans (List.length_filter_le ..) h.nodes_le
  replacements_le := h.replacements_le
  nodup_nodes := nodup_ids_dropId h.nodup_nodes
  nodup_replacements := h.nodup_replacements
  disjoint := fun _ hid => h.disjoint _ (mem_ids_dropId.mp hid).1

theorem promote (h : bucket.Sound) (hroom : bucket.nodes.length < capacity) :
    bucket.promote.1.Sound := by
  unfold Bucket.promote
  split
  · exact h
  · rename_i entry rest hrepl
    have hids : bucket.replacementIds = entry.id :: rest.map Entry.id := by
      rw [replacementIds, hrepl, List.map_cons]
    obtain ⟨hfresh, hnodup⟩ := List.nodup_cons.mp (hids ▸ h.nodup_replacements)
    have hout : entry.id ∉ bucket.nodeIds :=
      fun hmem => h.disjoint _ hmem (hids ▸ List.mem_cons_self)
    refine ⟨hroom, ?_, List.nodup_cons.mpr ⟨hout, h.nodup_nodes⟩, hnodup, ?_⟩
    · have hle := h.replacements_le
      rw [hrepl, List.length_cons] at hle
      exact Nat.le_of_succ_le hle
    · intro id hid hmem
      rcases List.mem_cons.mp hid with rfl | hid
      · exact hfresh hmem
      · exact h.disjoint _ hid (hids ▸ List.mem_cons_of_mem _ hmem)

theorem evict (h : bucket.Sound) (id : Id) : (bucket.evict id).1.Sound := by
  rcases evict_cases bucket id with ⟨hin, heq⟩ | ⟨-, heq⟩ <;> rw [heq]
  · refine ((h.settlePing id).remove id).promote ?_
    have hlen := length_dropId h.nodup_nodes hin
    have hle := h.nodes_le
    show (dropId id (bucket.settlePing id).nodes).length < capacity
    rw [nodes_settlePing]
    exact Nat.lt_of_lt_of_le (by omega) hle
  · exact h.settlePing id

theorem restrict (h : bucket.Sound) (keep : Id → Bool) : (bucket.restrict keep).Sound where
  nodes_le := Nat.le_trans (List.length_filter_le ..) h.nodes_le
  replacements_le := Nat.le_trans (List.length_filter_le ..) h.replacements_le
  nodup_nodes := nodeIds_restrict ▸ h.nodup_nodes.filter _
  nodup_replacements := replacementIds_restrict ▸ h.nodup_replacements.filter _
  disjoint := by
    intro id hid hrepl
    rw [nodeIds_restrict] at hid
    rw [replacementIds_restrict] at hrepl
    exact h.disjoint id (List.mem_of_mem_filter hid) (List.mem_of_mem_filter hrepl)

end Sound

end Bucket

end Kademlia
