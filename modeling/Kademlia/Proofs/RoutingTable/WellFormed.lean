import Kademlia.Proofs.Bucket
import Kademlia.Proofs.Metric

/-!
# Kademlia.Proofs.RoutingTable.WellFormed

The representation invariant of a routing table, and the two equations by which an update is
reasoned about.

* `RoutingTable.Fits` says what a bucket has to be in order to stand at a place of a table: it
  speaks of ids of that place only, it is sound, and as long as it can still be split it has neither
  replacements nor a ping under way. `RoutingTable.WellFormed` says that every bucket fits.
* An update splits the last bucket while it has to (`update_of_mustSplit`), and then is a single
  step of a single bucket (`update_of_not_mustSplit`). `update_induction` is the induction over the
  splits, with the case of the own contact, which is ignored; no other proof looks into the loop.
* The invariant is kept by an update (`WellFormed.update`); `wellFormed_run` says it of histories.
-/

namespace Kademlia

namespace RoutingTable

variable {table : RoutingTable} {bucket : Bucket} {id other : Id} {index : Nat} {now : Time}

/-! ### Places -/

theorem buckets_bucketIndex (table : RoutingTable) (id : Id) :
    table.buckets[table.bucketIndex id]? = some (table.bucketOf id) := by
  rw [buckets, bucketOf, List.getD_eq_getElem?_getD]
  rcases Nat.lt_or_eq_of_le (table.bucketIndex_le id) with h | h
  · rw [List.getElem?_append_left h, List.getElem?_eq_getElem h, Option.getD_some]
  · rw [h, List.getElem?_concat_length, List.getElem?_eq_none (Nat.le_refl _), Option.getD_none]

theorem buckets_putBucket (table : RoutingTable) (id : Id) (bucket : Bucket) :
    (table.putBucket id bucket).buckets = table.buckets.set (table.bucketIndex id) bucket := by
  rcases Nat.lt_or_eq_of_le (table.bucketIndex_le id) with h | h
  · rw [putBucket, if_pos h, buckets, buckets, List.set_append_left _ _ h]
  · rw [putBucket, if_neg (by omega), buckets, buckets, List.set_append_right _ _ (by omega), h,
      Nat.sub_self]
    rfl

@[simp] theorem length_buckets (table : RoutingTable) :
    table.buckets.length = table.front.length + 1 := by
  rw [buckets, List.length_append, List.length_singleton]

/-- The buckets around that for an id stay where they are. -/
theorem exists_buckets_eq (table : RoutingTable) (id : Id) :
    ∃ before after, table.buckets = before ++ table.bucketOf id :: after ∧
      ∀ bucket, (table.putBucket id bucket).buckets = before ++ bucket :: after := by
  have hlt : table.bucketIndex id < table.buckets.length := by
    rw [length_buckets]
    exact Nat.lt_succ_of_le (table.bucketIndex_le id)
  have hget : table.buckets[table.bucketIndex id] = table.bucketOf id :=
    (List.getElem_eq_iff hlt).mpr (table.buckets_bucketIndex id)
  refine ⟨table.buckets.take (table.bucketIndex id), table.buckets.drop (table.bucketIndex id + 1),
    ?_, fun bucket => ?_⟩
  · rw [← hget, List.getElem_cons_drop, List.take_append_drop]
  · rw [buckets_putBucket, List.set_eq_take_append_cons_drop, if_pos hlt]

/-- Putting a bucket brings in no other. -/
theorem mem_buckets_of_putBucket {other : Bucket}
    (h : other ∈ (table.putBucket id bucket).buckets) : other = bucket ∨ other ∈ table.buckets := by
  obtain ⟨before, after, htable, hput⟩ := table.exists_buckets_eq id
  rw [hput, List.mem_append, List.mem_cons] at h
  rw [htable, List.mem_append, List.mem_cons]
  tauto

@[simp] theorem putBucket_putBucket (table : RoutingTable) (id : Id) (first second : Bucket) :
    (table.putBucket id first).putBucket id second = table.putBucket id second := by
  rw [putBucket, bucketIndex_putBucket, length_front_putBucket, own_putBucket]
  by_cases h : table.bucketIndex id < table.front.length
  · rw [if_pos h, putBucket, if_pos h, putBucket, if_pos h, List.set_set]
  · rw [if_neg h, putBucket, if_neg h, putBucket, if_neg h]

/-! ### The invariant -/

/-- The last bucket can be split, since there are further bits to tell its ids apart by. -/
def CanSplit (table : RoutingTable) : Prop := table.front.length + 1 < Id.width

/-- What a bucket has to be in order to stand at a place of a table. -/
structure Fits (table : RoutingTable) (index : Nat) (bucket : Bucket) : Prop where
  covers : ∀ id, bucket.Mentions id → id ≠ table.own ∧ table.bucketIndex id = index
  sound : bucket.Sound
  idle : index = table.front.length → table.CanSplit → bucket.Idle

/-- Every bucket is what it has to be at its place. -/
structure WellFormed (table : RoutingTable) : Prop where
  front_lt : table.front.length < Id.width
  fits : ∀ index bucket, table.buckets[index]? = some bucket → table.Fits index bucket

theorem wellFormed_new (own : Id) (now : Time) : (new own now).WellFormed where
  front_lt := Nat.zero_lt_succ _
  fits := by
    intro index bucket hbucket
    obtain rfl : bucket = .empty now := by
      have hmem := List.mem_of_getElem? hbucket
      exact List.mem_singleton.mp hmem
    refine ⟨fun id hid => ?_, Bucket.sound_empty now, fun _ _ => ⟨rfl, rfl⟩⟩
    simp [Bucket.Mentions, Bucket.nodeIds, Bucket.replacementIds, Bucket.empty] at hid

theorem WellFormed.bucketOf (h : table.WellFormed) (id : Id) :
    table.Fits (table.bucketIndex id) (table.bucketOf id) :=
  h.fits _ _ (table.buckets_bucketIndex id)

/-- A bucket that fits may be put. -/
theorem WellFormed.putBucket (h : table.WellFormed)
    (hfits : table.Fits (table.bucketIndex id) bucket) :
    (table.putBucket id bucket).WellFormed := by
  have hcong : ∀ {index bucket'}, table.Fits index bucket' →
      (table.putBucket id bucket).Fits index bucket' := by
    intro index bucket' hf
    refine ⟨fun other hother => ?_, hf.sound, fun hi hc => hf.idle ?_ ?_⟩
    · rw [own_putBucket, bucketIndex_putBucket]
      exact hf.covers other hother
    · rw [hi, length_front_putBucket]
    · rwa [CanSplit, length_front_putBucket] at hc
  refine ⟨by rw [length_front_putBucket]; exact h.front_lt, fun index bucket' hbucket => ?_⟩
  rw [buckets_putBucket, List.getElem?_set] at hbucket
  split at hbucket
  · rename_i heq
    subst heq
    split at hbucket
    · obtain rfl := Option.some.inj hbucket
      exact hcong hfits
    · exact absurd hbucket (by simp)
  · exact hcong (h.fits index bucket' hbucket)

/-! ### What fits after an operation of the bucket -/

namespace Fits

theorem touch (h : table.Fits index bucket) (now : Time) : table.Fits index (bucket.touch now) :=
  ⟨h.covers, h.sound.touch now, h.idle⟩

theorem settlePing (h : table.Fits index bucket) (id : Id) :
    table.Fits index (bucket.settlePing id) where
  covers := fun other hother => h.covers other hother.of_settlePing
  sound := h.sound.settlePing id
  idle := by
    intro hi hc
    rw [Bucket.settlePing_of_idle (h.idle hi hc)]
    exact h.idle hi hc

theorem remove (h : table.Fits index bucket) (id : Id) : table.Fits index (bucket.remove id) :=
  ⟨fun other hother => h.covers other hother.of_remove, h.sound.remove id, h.idle⟩

theorem evict (h : table.Fits index bucket) (id : Id) :
    table.Fits index (bucket.evict id).1 where
  covers := fun other hother => h.covers other hother.of_evict
  sound := h.sound.evict id
  idle := by
    intro hi hc
    rw [Bucket.evict_of_idle (h.idle hi hc)]
    exact h.idle hi hc

/-- A contact may be offered to the bucket for its id unless the bucket has to be split first. -/
theorem offer {entry : Entry} (h : table.Fits index bucket) (hown : entry.id ≠ table.own)
    (hindex : table.bucketIndex entry.id = index)
    (hroom : index = table.front.length → table.CanSplit → entry.id ∉ bucket.nodeIds →
      bucket.nodes.length < Bucket.capacity) :
    table.Fits index (bucket.offer entry).1 where
  covers := by
    intro other hother
    rcases hother.of_offer with rfl | hother
    · exact ⟨hown, hindex⟩
    · exact h.covers other hother
  sound := h.sound.offer entry
  idle := fun hi hc => (h.idle hi hc).offer (hroom hi hc)

end Fits

/-! ### Splitting -/

theorem own_splitLast (table : RoutingTable) : table.splitLast.own = table.own := rfl

/-- The ids that share exactly as many bits as the last bucket's number stay behind in it. -/
theorem front_splitLast (table : RoutingTable) :
    table.splitLast.front = table.front ++
      [table.last.restrict fun id => table.own.sharedBits id = table.front.length] := rfl

theorem last_splitLast (table : RoutingTable) :
    table.splitLast.last =
      table.last.restrict fun id => !decide (table.own.sharedBits id = table.front.length) := rfl

@[simp] theorem length_front_splitLast (table : RoutingTable) :
    table.splitLast.front.length = table.front.length + 1 := by
  rw [front_splitLast, List.length_append, List.length_singleton]

theorem buckets_splitLast (table : RoutingTable) :
    table.splitLast.buckets = table.front ++
      [table.last.restrict fun id => table.own.sharedBits id = table.front.length,
        table.last.restrict fun id => !decide (table.own.sharedBits id = table.front.length)] := by
  rw [buckets, front_splitLast, last_splitLast, List.append_assoc]
  rfl

/-- The last bucket is the bucket at the last place. -/
theorem WellFormed.last (h : table.WellFormed) : table.Fits table.front.length table.last := by
  refine h.fits _ _ ?_
  rw [buckets, List.getElem?_concat_length]

theorem bucketIndex_splitLast (table : RoutingTable) (id : Id) :
    table.splitLast.bucketIndex id = min (table.own.sharedBits id) (table.front.length + 1) := by
  rw [bucketIndex, length_front_splitLast, own_splitLast]

/-- A bucket before the last one keeps its ids, for a further split tells them apart no more. -/
theorem Fits.splitLast (h : table.Fits index bucket) (hlt : index < table.front.length) :
    table.splitLast.Fits index bucket where
  covers := by
    intro id hid
    obtain ⟨hne, hi⟩ := h.covers id hid
    rw [bucketIndex] at hi
    refine ⟨hne, ?_⟩
    rw [bucketIndex_splitLast]
    omega
  sound := h.sound
  idle := by
    intro hi
    rw [length_front_splitLast] at hi
    omega

/-- The ids that stay behind share as many bits as the place says. -/
theorem Fits.splitLast_near (h : table.Fits table.front.length table.last) :
    table.splitLast.Fits table.front.length
      (table.last.restrict fun id => table.own.sharedBits id = table.front.length) where
  covers := by
    intro id hid
    obtain ⟨hid, hkeep⟩ := Bucket.mentions_restrict_iff.mp hid
    refine ⟨(h.covers id hid).1, ?_⟩
    rw [bucketIndex_splitLast, of_decide_eq_true hkeep]
    omega
  sound := h.sound.restrict _
  idle := by
    intro hi
    rw [length_front_splitLast] at hi
    omega

/-- The other ids share more. -/
theorem Fits.splitLast_far (h : table.Fits table.front.length table.last)
    (hsplit : table.CanSplit) :
    table.splitLast.Fits (table.front.length + 1)
      (table.last.restrict fun id => !decide (table.own.sharedBits id = table.front.length)) where
  covers := by
    intro id hid
    obtain ⟨hid, hkeep⟩ := Bucket.mentions_restrict_iff.mp hid
    obtain ⟨hne, hi⟩ := h.covers id hid
    have hneq : table.own.sharedBits id ≠ table.front.length := by simpa using hkeep
    rw [bucketIndex] at hi
    refine ⟨hne, ?_⟩
    rw [bucketIndex_splitLast]
    omega
  sound := h.sound.restrict _
  idle := fun _ _ => (h.idle rfl hsplit).restrict _

theorem WellFormed.splitLast (h : table.WellFormed) (hsplit : table.CanSplit) :
    table.splitLast.WellFormed := by
  refine ⟨by rw [length_front_splitLast]; exact hsplit, fun index bucket hbucket => ?_⟩
  rw [buckets_splitLast, List.getElem?_append] at hbucket
  split at hbucket
  · rename_i hlt
    have hfits : table.Fits index bucket := h.fits index bucket <| by
      rw [buckets, List.getElem?_append_left hlt, hbucket]
    exact hfits.splitLast hlt
  · rename_i hge
    obtain ⟨offset, rfl⟩ : ∃ offset, index = table.front.length + offset :=
      ⟨index - table.front.length, by omega⟩
    rw [Nat.add_sub_cancel_left] at hbucket
    rcases offset with _ | _ | offset
    · obtain rfl := Option.some.inj hbucket
      exact h.last.splitLast_near
    · obtain rfl := Option.some.inj hbucket
      exact h.last.splitLast_far hsplit
    · exact absurd hbucket (by simp)

/-! ### Updates -/

/-- The bucket for an id has to be split before the id can be taken in. -/
structure MustSplit (table : RoutingTable) (id : Id) : Prop where
  canSplit : table.CanSplit
  isLast : table.bucketIndex id = table.front.length
  unknown : id ∉ (table.bucketOf id).nodeIds
  full : Bucket.capacity ≤ (table.bucketOf id).nodes.length

/-- One split on the way of an update. -/
def splitFor (table : RoutingTable) (id : Id) (now : Time) : RoutingTable :=
  (table.touch id now).splitLast

theorem touch_eq (table : RoutingTable) (id : Id) (now : Time) :
    table.touch id now = table.putBucket id ((table.bucketOf id).touch now) := rfl

@[simp] theorem own_touch (table : RoutingTable) (id : Id) (now : Time) :
    (table.touch id now).own = table.own := by
  rw [touch_eq, own_putBucket]

@[simp] theorem length_front_touch (table : RoutingTable) (id : Id) (now : Time) :
    (table.touch id now).front.length = table.front.length := by
  rw [touch_eq, length_front_putBucket]

@[simp] theorem bucketIndex_touch (table : RoutingTable) (target id : Id) (now : Time) :
    (table.touch target now).bucketIndex id = table.bucketIndex id := by
  rw [touch_eq, bucketIndex_putBucket]

theorem CanSplit.touch (h : table.CanSplit) (id : Id) (now : Time) :
    (table.touch id now).CanSplit := by
  rwa [CanSplit, length_front_touch]

/-- The bucket that has to be split is the last one, and it stays so when it is used. -/
theorem MustSplit.isLast_touch (h : table.MustSplit id) (now : Time) :
    (table.touch id now).bucketIndex id = (table.touch id now).front.length := by
  rw [bucketIndex_touch, length_front_touch, h.isLast]

@[simp] theorem own_splitFor (table : RoutingTable) (id : Id) (now : Time) :
    (table.splitFor id now).own = table.own := by
  rw [splitFor, own_splitLast, own_touch]

@[simp] theorem length_front_splitFor (table : RoutingTable) (id : Id) (now : Time) :
    (table.splitFor id now).front.length = table.front.length + 1 := by
  rw [splitFor, length_front_splitLast, length_front_touch]

theorem WellFormed.touch (h : table.WellFormed) (id : Id) (now : Time) :
    (table.touch id now).WellFormed :=
  h.putBucket ((h.bucketOf id).touch now)

theorem WellFormed.splitFor (h : table.WellFormed) (hsplit : table.CanSplit) (id : Id)
    (now : Time) : (table.splitFor id now).WellFormed :=
  (h.touch id now).splitLast (hsplit.touch id now)

/-- A crowded bucket is found where an id is not known and all places are taken. -/
theorem place_of_crowded {entry : Entry} (hout : entry.id ∉ (table.bucketOf entry.id).nodeIds)
    (hfull : Bucket.capacity ≤ (table.bucketOf entry.id).nodes.length) :
    table.place entry = .crowded (table.touch entry.id entry.lastSeen) := by
  have hholds : ¬ ((table.bucketOf entry.id).touch entry.lastSeen).holds entry.id = true :=
    mt Bucket.holds_iff.mp hout
  have hcrowded : ((table.bucketOf entry.id).touch entry.lastSeen).isFull = true :=
    Bucket.isFull_iff.mpr hfull
  rw [place, if_neg hholds, if_pos hcrowded, touch_eq]

/-- Anywhere else the bucket for the id takes the contact in. -/
theorem place_of_not_crowded {entry : Entry}
    (h : ¬ (entry.id ∉ (table.bucketOf entry.id).nodeIds ∧
      Bucket.capacity ≤ (table.bucketOf entry.id).nodes.length)) :
    table.place entry =
      .placed (table.putBucket entry.id ((table.bucketOf entry.id).offer entry).1)
        ((table.bucketOf entry.id).offer entry).2 := by
  rcases Bucket.offer_cases (table.bucketOf entry.id) entry with
    ⟨hin, heq⟩ | ⟨hout, hroom, heq⟩ | ⟨hout, hfull, -⟩
  · have hholds : ((table.bucketOf entry.id).touch entry.lastSeen).holds entry.id = true :=
      Bucket.holds_iff.mpr hin
    rw [place, if_pos hholds, heq]
  · have hholds : ¬ ((table.bucketOf entry.id).touch entry.lastSeen).holds entry.id = true :=
      mt Bucket.holds_iff.mp hout
    have hcrowded : ¬ ((table.bucketOf entry.id).touch entry.lastSeen).isFull = true :=
      mt Bucket.isFull_iff.mp (Nat.not_le.mpr hroom)
    rw [place, if_neg hholds, if_neg hcrowded, heq]
  · exact absurd ⟨hout, hfull⟩ h

/-- In a crowded bucket that is not split the contact waits for a place. -/
theorem overflow_touch {entry : Entry} (hout : entry.id ∉ (table.bucketOf entry.id).nodeIds)
    (hfull : Bucket.capacity ≤ (table.bucketOf entry.id).nodes.length) :
    (table.touch entry.id entry.lastSeen).overflow entry =
      (table.putBucket entry.id ((table.bucketOf entry.id).offer entry).1,
        ((table.bucketOf entry.id).offer entry).2) := by
  rcases Bucket.offer_cases (table.bucketOf entry.id) entry with
    ⟨hin, -⟩ | ⟨-, hroom, -⟩ | ⟨-, -, heq⟩
  · exact absurd hin hout
  · omega
  · have hput := table.putBucket_putBucket entry.id
      ((table.bucketOf entry.id).touch entry.lastSeen)
      (((table.bucketOf entry.id).touch entry.lastSeen).overflow entry).1
    rw [heq, overflow, touch_eq, bucketOf_putBucket]
    exact Prod.ext hput rfl

theorem MustSplit.room_eq (h : table.MustSplit id) (now : Time) :
    table.room = (table.splitFor id now).room + 1 := by
  have hlt : table.front.length + 1 < Id.width := h.canSplit
  rw [room, room, length_front_splitFor]
  omega

/-- The own contact is not taken in. -/
theorem update_of_own {contact : Contact} (hown : contact.id = table.own) :
    table.update contact now = (table, .ignored) := by
  rw [update, if_pos hown]

/-- An update that has to split the last bucket goes on with the table in which it is split. -/
theorem update_of_mustSplit {contact : Contact} (hown : contact.id ≠ table.own)
    (h : table.MustSplit contact.id) :
    table.update contact now = (table.splitFor contact.id now).update contact now := by
  have hplace : table.place ⟨contact, now⟩ = .crowded (table.touch contact.id now) :=
    place_of_crowded h.unknown h.full
  rw [update, update, own_splitFor, if_neg hown, if_neg hown, h.room_eq now, updateWithin, hplace]
  exact if_pos (h.isLast_touch now)

/-- Any other update is a step of the bucket for the contact. -/
theorem update_of_not_mustSplit {contact : Contact} (hown : contact.id ≠ table.own)
    (h : ¬ table.MustSplit contact.id) :
    table.update contact now =
      (table.putBucket contact.id ((table.bucketOf contact.id).offer ⟨contact, now⟩).1,
        ((table.bucketOf contact.id).offer ⟨contact, now⟩).2) := by
  rw [update, if_neg hown]
  by_cases hcrowded : contact.id ∉ (table.bucketOf contact.id).nodeIds ∧
      Bucket.capacity ≤ (table.bucketOf contact.id).nodes.length
  · obtain ⟨hout, hfull⟩ := hcrowded
    have hplace : table.place ⟨contact, now⟩ = .crowded (table.touch contact.id now) :=
      place_of_crowded hout hfull
    have hover := @overflow_touch table ⟨contact, now⟩ hout hfull
    -- Without room for a split the bucket overflows, and so it does with room to spare, for it is
    -- then not the last bucket.
    cases hroom : table.room with
    | zero =>
      rw [updateWithin, hplace]
      exact hover
    | succ room =>
      have hcan : table.CanSplit := by
        rw [RoutingTable.room] at hroom
        rw [CanSplit]
        omega
      have hnotLast : (table.touch contact.id now).bucketIndex contact.id ≠
          (table.touch contact.id now).front.length := by
        rw [bucketIndex_touch, length_front_touch]
        intro hlast
        exact h ⟨hcan, hlast, hout, hfull⟩
      rw [updateWithin, hplace]
      exact (if_neg hnotLast).trans hover
  · have hplace := @place_of_not_crowded table ⟨contact, now⟩ hcrowded
    cases table.room with
    | zero => rw [updateWithin, hplace]; rfl
    | succ room => rw [updateWithin, hplace]; rfl

/-- Induction over the splits of an update, with what the update comes to in each case. -/
theorem update_induction {motive : RoutingTable → Prop} (contact : Contact) (now : Time)
    (ignored : ∀ table : RoutingTable, contact.id = table.own →
      table.update contact now = (table, .ignored) → motive table)
    (split : ∀ table : RoutingTable, table.MustSplit contact.id →
      table.update contact now = (table.splitFor contact.id now).update contact now →
      motive (table.splitFor contact.id now) → motive table)
    (settled : ∀ table : RoutingTable, contact.id ≠ table.own → ¬ table.MustSplit contact.id →
      table.update contact now =
        (table.putBucket contact.id ((table.bucketOf contact.id).offer ⟨contact, now⟩).1,
          ((table.bucketOf contact.id).offer ⟨contact, now⟩).2) → motive table)
    (table : RoutingTable) : motive table := by
  induction hroom : table.room using Nat.strongRecOn generalizing table with
  | ind room ih =>
    by_cases hown : contact.id = table.own
    · exact ignored table hown (update_of_own hown)
    by_cases hsplit : table.MustSplit contact.id
    · have hless : (table.splitFor contact.id now).room < room := by
        rw [← hroom, hsplit.room_eq now]
        exact Nat.lt_succ_self _
      exact split table hsplit (update_of_mustSplit hown hsplit) (ih _ hless _ rfl)
    · exact settled table hown hsplit (update_of_not_mustSplit hown hsplit)

theorem own_update (table : RoutingTable) (contact : Contact) (now : Time) :
    (table.update contact now).1.own = table.own := by
  induction table using update_induction contact now with
  | ignored table _ hupdate => rw [hupdate]
  | split table _ hupdate ih => rw [hupdate, ih, own_splitFor]
  | settled table _ _ hupdate => rw [hupdate, own_putBucket]

theorem WellFormed.update (h : table.WellFormed) (contact : Contact) (now : Time) :
    (table.update contact now).1.WellFormed := by
  induction table using update_induction contact now with
  | ignored table _ hupdate =>
    rw [hupdate]
    exact h
  | split table hsplit hupdate ih =>
    rw [hupdate]
    exact ih (h.splitFor hsplit.canSplit _ _)
  | settled table hown hsettled hupdate =>
    rw [hupdate]
    refine h.putBucket ((h.bucketOf contact.id).offer hown rfl fun hi hc hout => ?_)
    by_contra hfull
    exact hsettled ⟨hc, hi, hout, Nat.not_lt.mp hfull⟩

end RoutingTable

end Kademlia
