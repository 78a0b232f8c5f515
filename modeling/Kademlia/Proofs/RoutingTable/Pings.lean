import Kademlia.Proofs.RoutingTable.Entries
import Kademlia.Proofs.RoutingTable.Closest

/-!
# Kademlia.Proofs.RoutingTable.Pings

The pings that a routing table waits for. `RoutingTable.Pinging` ties the ping slots of the buckets
to a list of ids that is kept elsewhere: each slot in use belongs to one id of the list, and each id
has its slot. Along with it goes what a slot in use says of its bucket (`Bucket.Staffed`): it is
full, the pinged contact is in it, and there is somebody to take its place.

Hence an eviction on account of a ping always promotes a replacement (`Pinging.evict`), and since
nothing else takes contacts out of a node's table, the table never shrinks.
-/

namespace Kademlia

/-! ### Buckets -/

/-- The contact that is to be pinged after an update. -/
def UpdateOutcome.suspect? : UpdateOutcome → Option Contact
  | .full suspect => suspect
  | _ => none

namespace Bucket

variable {bucket : Bucket} {entry : Entry} {id : Id} {now : Time}

/-- Contacts wait only for places in a full bucket, and a contact is only pinged while one waits. -/
structure Staffed (bucket : Bucket) : Prop where
  full : bucket.replacements ≠ [] → bucket.nodes.length = capacity
  pinged : ∀ id, bucket.pinging = some id → id ∈ bucket.nodeIds
  awaited : ∀ id, bucket.pinging = some id → bucket.replacements ≠ []

theorem Idle.staffed (h : bucket.Idle) : bucket.Staffed := by
  obtain ⟨hrepl, hping⟩ := h
  refine ⟨fun hne => absurd hrepl hne, fun id hid => ?_, fun id hid => ?_⟩
  · rw [hping] at hid
    exact absurd hid (by simp)
  · rw [hping] at hid
    exact absurd hid (by simp)

namespace Staffed

theorem touch (h : bucket.Staffed) (now : Time) : (bucket.touch now).Staffed :=
  ⟨h.full, h.pinged, h.awaited⟩

/-- A bucket with a free place is idle. -/
theorem idle (h : bucket.Staffed) (hroom : bucket.nodes.length < capacity) : bucket.Idle := by
  have hrepl : bucket.replacements = [] := by
    by_contra hne
    have hfull := h.full hne
    omega
  refine ⟨hrepl, ?_⟩
  cases hping : bucket.pinging with
  | none => rfl
  | some id => exact absurd hrepl (h.awaited id hping)

theorem refresh (h : bucket.Staffed) (hsound : bucket.Sound) (hin : entry.id ∈ bucket.nodeIds) :
    (bucket.refresh entry).Staffed where
  full := by
    intro hne
    have hlen := length_dropId hsound.nodup_nodes hin
    have hfull := h.full hne
    show (dropId entry.id bucket.nodes).length + 1 = capacity
    omega
  pinged := by
    intro id hid
    have hmem := h.pinged id hid
    by_cases heq : id = entry.id
    · exact heq ▸ List.mem_cons_self
    · exact List.mem_cons_of_mem _ (mem_ids_dropId.mpr ⟨hmem, heq⟩)
  awaited := h.awaited

theorem overflow (h : bucket.Staffed) (hsound : bucket.Sound)
    (hfull : capacity ≤ bucket.nodes.length) : (bucket.overflow entry).1.Staffed where
  full := fun _ => Nat.le_antisymm hsound.nodes_le hfull
  pinged := by
    intro id hid
    have hor : (bucket.suspect?.map Contact.id).or bucket.pinging = some id := hid
    rcases Option.or_eq_some_iff.mp hor with hid | ⟨-, hid⟩
    · obtain ⟨suspect, hsuspect, rfl⟩ := Option.map_eq_some_iff.mp hid
      obtain ⟨-, known, hknown, rfl⟩ := mem_nodes_of_suspect? hsuspect
      exact List.mem_map_of_mem hknown
    · exact h.pinged id hid
  awaited := fun _ _ => List.cons_ne_nil _ _

theorem offer (h : bucket.Staffed) (hsound : bucket.Sound) (entry : Entry) :
    (bucket.offer entry).1.Staffed := by
  rcases offer_cases bucket entry with ⟨hin, heq⟩ | ⟨-, hroom, -⟩ | ⟨-, hfull, heq⟩
  · rw [heq]
    exact (h.touch _).refresh (hsound.touch _) hin
  · exact ((h.idle hroom).offer fun _ => hroom).staffed
  · rw [heq]
    exact (h.touch _).overflow (hsound.touch _) hfull

theorem settlePing (h : bucket.Staffed) (id : Id) : (bucket.settlePing id).Staffed := by
  unfold Bucket.settlePing
  split
  · exact ⟨h.full, fun _ hid => absurd hid (by simp), fun _ hid => absurd hid (by simp)⟩
  · exact h

/-- Giving up the contact that is pinged moves a replacement into its place. -/
theorem evict_eq (h : bucket.Staffed) (hping : bucket.pinging = some id) :
    ∃ entry rest, bucket.replacements = entry :: rest ∧
      bucket.evict id = (⟨entry :: dropId id bucket.nodes, rest, none, bucket.touched⟩,
        some entry.contact) := by
  obtain ⟨entry, rest, hrepl⟩ := List.exists_cons_of_ne_nil (h.awaited id hping)
  refine ⟨entry, rest, hrepl, ?_⟩
  rw [evict_of_mem (h.pinged id hping), Bucket.settlePing, if_pos hping, remove, promote]
  simp only [hrepl]

theorem length_evict (h : bucket.Staffed) (hsound : bucket.Sound)
    (hping : bucket.pinging = some id) :
    (bucket.evict id).1.nodes.length = bucket.nodes.length := by
  obtain ⟨entry, rest, -, heq⟩ := h.evict_eq hping
  rw [heq]
  exact length_dropId hsound.nodup_nodes (h.pinged id hping)

theorem evict (h : bucket.Staffed) (hsound : bucket.Sound) (hping : bucket.pinging = some id) :
    (bucket.evict id).1.Staffed := by
  have hlen := h.length_evict hsound hping
  have hfull := h.full (h.awaited id hping)
  obtain ⟨entry, rest, -, heq⟩ := h.evict_eq hping
  rw [heq] at hlen ⊢
  exact ⟨fun _ => hlen.trans hfull, fun _ hid => absurd hid (by simp),
    fun _ hid => absurd hid (by simp)⟩

end Staffed

/-- No contact is lost when another is heard of. -/
theorem length_nodes_offer (hsound : bucket.Sound) (entry : Entry) :
    bucket.nodes.length ≤ (bucket.offer entry).1.nodes.length := by
  rcases offer_cases bucket entry with ⟨hin, heq⟩ | ⟨-, -, heq⟩ | ⟨-, -, heq⟩ <;> rw [heq]
  · have hlen := length_dropId hsound.nodup_nodes hin
    show bucket.nodes.length ≤ (dropId entry.id bucket.nodes).length + 1
    omega
  · exact Nat.le_succ _
  · exact Nat.le_refl _

/-- The contact to ping is the one whose ping the bucket waits for from then on. -/
theorem pinging_offer (bucket : Bucket) (entry : Entry) :
    (bucket.offer entry).1.pinging.toList =
      bucket.pinging.toList ++ ((bucket.offer entry).2.suspect?.map Contact.id).toList := by
  rcases offer_cases bucket entry with ⟨-, heq⟩ | ⟨-, -, heq⟩ | ⟨-, -, heq⟩ <;> rw [heq]
  · exact (List.append_nil _).symm
  · exact (List.append_nil _).symm
  · show ((bucket.suspect?.map Contact.id).or bucket.pinging).toList =
      bucket.pinging.toList ++ (bucket.suspect?.map Contact.id).toList
    cases hping : bucket.pinging with
    | none => rw [Option.or_none, Option.toList_none, List.nil_append]
    | some id =>
      have hnone : bucket.suspect? = none := by
        rw [suspect?, hping]
      rw [hnone, Option.map_none, Option.none_or, Option.toList_none, List.append_nil]

end Bucket

/-! ### Tables -/

namespace RoutingTable

variable {table : RoutingTable} {id : Id} {ids : List Id} {now : Time}

/-- The ids whose pings the buckets wait for. -/
def pings (table : RoutingTable) : List Id :=
  table.buckets.flatMap fun bucket => bucket.pinging.toList

/-- Putting a bucket replaces the ping of one bucket. -/
theorem exists_pings_eq (table : RoutingTable) (id : Id) :
    ∃ before after, table.pings = before ++ ((table.bucketOf id).pinging.toList ++ after) ∧
      ∀ bucket, (table.putBucket id bucket).pings = before ++ (bucket.pinging.toList ++ after) := by
  obtain ⟨before, after, htable, hput⟩ := table.exists_buckets_eq id
  refine ⟨before.flatMap fun bucket => bucket.pinging.toList,
    after.flatMap fun bucket => bucket.pinging.toList, ?_, fun bucket => ?_⟩
  · rw [pings, htable, List.flatMap_append, List.flatMap_cons]
  · rw [pings, hput, List.flatMap_append, List.flatMap_cons]

theorem mem_pings_iff : id ∈ table.pings ↔ ∃ bucket ∈ table.buckets, bucket.pinging = some id := by
  simp [pings, List.mem_flatMap, Option.mem_toList]

theorem WellFormed.nodup_pings (h : table.WellFormed) : table.pings.Nodup := by
  refine h.nodup_flatMap (fun bucket _ => ?_) fun bucket id hid => ?_
  · cases bucket.pinging with
    | none => exact List.nodup_nil
    | some id => exact List.nodup_singleton id
  · exact .inr (.inr (Option.mem_toList.mp hid))

/-- A bucket speaks of ids only that it is for. -/
theorem WellFormed.eq_bucketOf (h : table.WellFormed) {bucket : Bucket}
    (hbucket : bucket ∈ table.buckets) (hid : bucket.Mentions id) : bucket = table.bucketOf id := by
  obtain ⟨index, hindex⟩ := List.mem_iff_getElem?.mp hbucket
  have hplace := ((h.fits index bucket hindex).covers id hid).2
  have hget := table.buckets_bucketIndex id
  rw [hplace, hindex] at hget
  exact Option.some.inj hget

theorem bucketOf_mem (table : RoutingTable) (id : Id) : table.bucketOf id ∈ table.buckets :=
  List.mem_of_getElem? (table.buckets_bucketIndex id)

/-- The buckets wait for the pings of the given ids and for no others, and all of them are
staffed. -/
structure Pinging (table : RoutingTable) (ids : List Id) : Prop where
  wellFormed : table.WellFormed
  staffed : ∀ bucket ∈ table.buckets, bucket.Staffed
  pings : table.pings.Perm ids

theorem pinging_new (own : Id) (start : Time) : (new own start).Pinging [] where
  wellFormed := wellFormed_new own start
  staffed := by
    intro bucket hbucket
    obtain rfl : bucket = .empty start := List.mem_singleton.mp hbucket
    exact Bucket.Idle.staffed ⟨rfl, rfl⟩
  pings := List.Perm.refl _

namespace Pinging

theorem perm (h : table.Pinging ids) {others : List Id} (hperm : ids.Perm others) :
    table.Pinging others := ⟨h.wellFormed, h.staffed, h.pings.trans hperm⟩

theorem pinging_bucketOf (h : table.Pinging ids) (hid : id ∈ ids) :
    (table.bucketOf id).pinging = some id := by
  obtain ⟨bucket, hbucket, hping⟩ := mem_pings_iff.mp (h.pings.symm.subset hid)
  rwa [← h.wellFormed.eq_bucketOf hbucket (.inr (.inr hping))]

/-- A staffed bucket may be put. The pings that come with it take the place of those that go with
the bucket that was there. -/
theorem putBucket {others : List Id} (h : table.Pinging ids) {bucket : Bucket}
    (hfits : table.Fits (table.bucketIndex id) bucket) (hstaffed : bucket.Staffed)
    (hswap : (bucket.pinging.toList ++ ids).Perm
      ((table.bucketOf id).pinging.toList ++ others)) :
    (table.putBucket id bucket).Pinging others where
  wellFormed := h.wellFormed.putBucket hfits
  staffed := by
    intro other hother
    rcases mem_buckets_of_putBucket hother with rfl | hmem
    · exact hstaffed
    · exact h.staffed other hmem
  pings := by
    obtain ⟨before, after, htable, hput⟩ := table.exists_pings_eq id
    have hpings := h.pings
    rw [htable] at hpings
    rw [hput]
    -- Both sides are compared with the ping that goes away, which is then cancelled.
    refine (List.perm_append_left_iff (table.bucketOf id).pinging.toList).mp
      (List.Perm.trans ?_ hswap)
    refine List.Perm.trans ?_ (hpings.append_left bucket.pinging.toList)
    refine List.perm_append_comm_assoc .. |>.trans ?_
    refine List.Perm.trans ?_ (List.perm_append_comm_assoc ..)
    exact (List.perm_append_comm_assoc ..).append_left before

theorem touch (h : table.Pinging ids) (id : Id) (now : Time) : (table.touch id now).Pinging ids :=
  h.putBucket ((h.wellFormed.bucketOf id).touch now)
    ((h.staffed _ (table.bucketOf_mem id)).touch now) (List.Perm.refl _)

/-- The contact whose ping is settled has no slot any more. -/
theorem pingAnswered (h : table.Pinging (id :: ids)) : (table.pingAnswered id).Pinging ids := by
  have hping := h.pinging_bucketOf List.mem_cons_self
  refine h.putBucket ((h.wellFormed.bucketOf id).settlePing id)
    ((h.staffed _ (table.bucketOf_mem id)).settlePing id) ?_
  rw [Bucket.pinging_settlePing, if_pos hping, hping]
  exact List.Perm.refl _

theorem evict (h : table.Pinging (id :: ids)) : (table.evict id).1.Pinging ids := by
  have hping := h.pinging_bucketOf List.mem_cons_self
  have hstaffed := h.staffed _ (table.bucketOf_mem id)
  have hfits := h.wellFormed.bucketOf id
  obtain ⟨entry, rest, -, heq⟩ := hstaffed.evict_eq hping
  have hnone : ((table.bucketOf id).evict id).1.pinging = none := by rw [heq]
  have hswap : (((table.bucketOf id).evict id).1.pinging.toList ++ id :: ids).Perm
      ((table.bucketOf id).pinging.toList ++ ids) := by
    rw [hnone, hping]
    exact List.Perm.refl _
  exact h.putBucket (hfits.evict id) (hstaffed.evict hfits.sound hping) hswap

/-- An eviction on account of a ping promotes a replacement. -/
theorem isSome_evict (h : table.Pinging ids) (hid : id ∈ ids) :
    (table.evict id).2.isSome = true := by
  have hstaffed := h.staffed _ (table.bucketOf_mem id)
  obtain ⟨entry, rest, -, heq⟩ := hstaffed.evict_eq (h.pinging_bucketOf hid)
  rw [RoutingTable.evict, heq]
  rfl

theorem splitLast (h : table.Pinging ids) (hsplit : table.CanSplit) :
    table.splitLast.Pinging ids := by
  have hidle := h.wellFormed.last.idle rfl hsplit
  refine ⟨h.wellFormed.splitLast hsplit, fun bucket hbucket => ?_, ?_⟩
  · rw [buckets_splitLast, List.mem_append, List.mem_cons, List.mem_singleton] at hbucket
    rcases hbucket with hbucket | rfl | rfl
    · exact h.staffed bucket (List.mem_append_left _ hbucket)
    · exact (hidle.restrict _).staffed
    · exact (hidle.restrict _).staffed
  · have hpings : table.splitLast.pings = table.pings := by
      rw [RoutingTable.pings, RoutingTable.pings, buckets_splitLast, buckets, List.flatMap_append,
        List.flatMap_append]
      simp [(hidle.restrict _).2, hidle.2]
    rw [hpings]
    exact h.pings

theorem splitFor (h : table.Pinging ids) (hsplit : table.CanSplit) (id : Id) (now : Time) :
    (table.splitFor id now).Pinging ids :=
  (h.touch id now).splitLast (hsplit.touch id now)

/-- An update adds the contact that it wants pinged. -/
theorem update (h : table.Pinging ids) (contact : Contact) (now : Time) :
    (table.update contact now).1.Pinging
      (ids ++ ((table.update contact now).2.suspect?.map Contact.id).toList) := by
  induction table using update_induction contact now with
  | ignored table _ hupdate =>
    rw [hupdate]
    exact h.perm (List.Perm.of_eq (List.append_nil ids).symm)
  | split table hsplit hupdate ih =>
    rw [hupdate]
    exact ih (h.splitFor hsplit.canSplit contact.id now)
  | settled table hown hsettled hupdate =>
    have hfits := h.wellFormed.bucketOf contact.id
    rw [hupdate]
    refine h.putBucket (hfits.offer hown rfl fun hi hc hout => ?_)
      ((h.staffed _ (table.bucketOf_mem contact.id)).offer hfits.sound ⟨contact, now⟩) ?_
    · by_contra hfull
      exact hsettled ⟨hc, hi, hout, Nat.not_lt.mp hfull⟩
    · rw [Bucket.pinging_offer, List.append_assoc]
      exact List.perm_append_comm.append_left _

end Pinging

/-! ### Who is to be pinged -/

/-- Who is to be pinged stands last in the bucket for the contact that was heard of, and that bucket
is full. -/
theorem getLast?_of_suspect {contact suspect : Contact}
    (h : (table.update contact now).2.suspect? = some suspect) :
    Bucket.capacity ≤ ((table.update contact now).1.bucketOf contact.id).nodes.length ∧
      ((table.update contact now).1.bucketOf contact.id).nodes.getLast?.map Entry.contact =
        some suspect := by
  induction table using update_induction contact now with
  | ignored table _ hupdate =>
    rw [hupdate] at h
    exact absurd h (by simp [UpdateOutcome.suspect?])
  | split table _ hupdate ih =>
    rw [hupdate] at h ⊢
    exact ih h
  | settled table _ _ hupdate =>
    rw [hupdate] at h ⊢
    rw [bucketOf_putBucket]
    rcases (table.bucketOf contact.id).offer_cases ⟨contact, now⟩ with
      ⟨-, heq⟩ | ⟨-, -, heq⟩ | ⟨-, hfull, heq⟩ <;> rw [heq] at h ⊢
    · exact absurd h (by simp [UpdateOutcome.suspect?])
    · exact absurd h (by simp [UpdateOutcome.suspect?])
    · refine ⟨hfull, ?_⟩
      have hsuspect : (table.bucketOf contact.id).suspect? = some suspect := h
      unfold Bucket.suspect? at hsuspect
      split at hsuspect
      · exact absurd hsuspect (by simp)
      · exact hsuspect

/-! ### Sizes -/

theorem size_putBucket (table : RoutingTable) (id : Id) (bucket : Bucket) :
    (table.putBucket id bucket).size + (table.bucketOf id).nodes.length =
      table.size + bucket.nodes.length := by
  obtain ⟨before, after, htable, hput⟩ := table.exists_entries_eq id
  rw [size, hput, size, htable]
  simp only [List.length_append]
  omega

theorem size_touch (table : RoutingTable) (id : Id) (now : Time) :
    (table.touch id now).size = table.size := by
  rw [size, entries_touch, size]

theorem size_pingAnswered (table : RoutingTable) (id : Id) :
    (table.pingAnswered id).size = table.size := by
  have hsize := table.size_putBucket id ((table.bucketOf id).settlePing id)
  rw [Bucket.nodes_settlePing] at hsize
  exact Nat.add_right_cancel hsize

theorem Pinging.size_evict (h : table.Pinging ids) (hid : id ∈ ids) :
    (table.evict id).1.size = table.size := by
  have hsize := table.size_putBucket id ((table.bucketOf id).evict id).1
  have hstaffed := h.staffed _ (table.bucketOf_mem id)
  rw [hstaffed.length_evict (h.wellFormed.bucketOf id).sound (h.pinging_bucketOf hid)] at hsize
  exact Nat.add_right_cancel hsize

theorem WellFormed.size_le_update (h : table.WellFormed) (contact : Contact) (now : Time) :
    table.size ≤ (table.update contact now).1.size := by
  induction table using update_induction contact now with
  | ignored table _ hupdate => exact Nat.le_of_eq (by rw [hupdate])
  | split table hsplit hupdate ih =>
    have hsize := (table.entries_splitFor_perm contact.id now).length_eq
    rw [hupdate, size, ← hsize]
    exact ih (h.splitFor hsplit.canSplit contact.id now)
  | settled table _ _ hupdate =>
    have hsize := table.size_putBucket contact.id
      ((table.bucketOf contact.id).offer ⟨contact, now⟩).1
    have hlen := Bucket.length_nodes_offer (h.bucketOf contact.id).sound ⟨contact, now⟩
    rw [hupdate]
    dsimp only
    omega

end RoutingTable

end Kademlia
