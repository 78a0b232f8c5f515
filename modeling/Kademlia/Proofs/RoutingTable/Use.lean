import Mathlib.Data.List.GetD
import Kademlia.Proofs.Neighbourhood
import Kademlia.Proofs.RoutingTable.WellFormed

/-!
# Kademlia.Proofs.RoutingTable.Use

When the buckets of a table were used last, while buckets are split. A bucket that is split had just
been used, and both parts remember that. So any bucket of a later table either was used since
an instant or is the bucket it was, for the same ids (`RoutingTable.Ages`).

This is what makes it enough to use one id of each bucket that was not used for a time, wherever
that id belongs by then: afterwards no bucket is left that was not used
(`Ages.staleBuckets_eq_nil`). The ids for this are drawn from the bucket
(`bucketIndex_idInBucket`).
-/

namespace Kademlia

namespace Bucket

variable {bucket : Bucket}

theorem touched_offer (bucket : Bucket) (entry : Entry) :
    (bucket.offer entry).1.touched = entry.lastSeen := by
  rcases offer_cases bucket entry with ⟨-, heq⟩ | ⟨-, -, heq⟩ | ⟨-, -, heq⟩ <;> rw [heq] <;> rfl

theorem touched_settlePing (bucket : Bucket) (id : Id) :
    (bucket.settlePing id).touched = bucket.touched := by
  unfold settlePing
  split <;> rfl

theorem touched_promote (bucket : Bucket) : bucket.promote.1.touched = bucket.touched := by
  unfold promote
  split <;> rfl

theorem touched_evict (bucket : Bucket) (id : Id) :
    (bucket.evict id).1.touched = bucket.touched := by
  unfold evict
  dsimp only
  split
  · rw [touched_promote]
    exact bucket.touched_settlePing id
  · exact bucket.touched_settlePing id

end Bucket

namespace RoutingTable

variable {table next later : RoutingTable} {bucket : Bucket} {id other : Id} {since now : Time}
  {threshold : Duration} {index : Nat}

/-! ### Buckets and ids -/

/-- Ids of one bucket have the same bucket. -/
theorem bucketOf_congr (h : table.bucketIndex id = table.bucketIndex other) :
    table.bucketOf id = table.bucketOf other := by
  rw [bucketOf, bucketOf, h]

theorem bucketOf_eq_last (h : table.bucketIndex id = table.front.length) :
    table.bucketOf id = table.last := by
  rw [bucketOf, List.getD_eq_default _ _ (Nat.le_of_eq h.symm)]

theorem bucketOf_putBucket_of_ne (h : table.bucketIndex other ≠ table.bucketIndex id)
    (bucket : Bucket) : (table.putBucket id bucket).bucketOf other = table.bucketOf other := by
  have hbuckets := (table.putBucket id bucket).buckets_bucketIndex other
  rw [buckets_putBucket, bucketIndex_putBucket, List.getElem?_set_ne h.symm,
    buckets_bucketIndex] at hbuckets
  exact (Option.some.inj hbuckets).symm

/-- **An id that is drawn from a bucket belongs to it**, whatever the draw. -/
theorem bucketIndex_idInBucket (hfront : table.front.length < Id.width)
    (hindex : index ≤ table.front.length) (draw : Id) :
    table.bucketIndex (table.idInBucket index draw) = index := by
  rw [bucketIndex, idInBucket]
  split
  · rename_i hlt
    rw [Id.sharedBits_sharingExactly _ _ (Nat.lt_trans hlt hfront)]
    exact Nat.min_eq_left hindex
  · rename_i hlast
    have hshared : index ≤ table.own.sharedBits (table.own.sharingAtLeast index draw) :=
      table.own.le_sharedBits_sharingAtLeast draw (by omega)
    omega

/-- The number of the bucket that the bucket of a later table is or was split from. -/
def splitFrom (table : RoutingTable) (index : Nat) : Nat := min index table.front.length

/-- An id stays in its bucket and those that are split from it. -/
theorem splitFrom_bucketIndex (hown : next.own = table.own)
    (hfront : table.front.length ≤ next.front.length) (id : Id) :
    table.splitFrom (next.bucketIndex id) = table.bucketIndex id := by
  rw [splitFrom, bucketIndex, bucketIndex, hown]
  omega

theorem mem_staleBuckets_iff :
    index ∈ table.staleBuckets threshold now ↔
      ∃ bucket, table.buckets[index]? = some bucket ∧ threshold ≤ now - bucket.touched := by
  simp only [staleBuckets, List.mem_map, List.mem_filter, decide_eq_true_eq, Prod.exists,
    List.mk_mem_zipIdx_iff_getElem?]
  constructor
  · rintro ⟨bucket, place, ⟨hget, hstale⟩, rfl⟩
    exact ⟨bucket, hget, hstale⟩
  · rintro ⟨bucket, hget, hstale⟩
    exact ⟨bucket, index, ⟨hget, hstale⟩, rfl⟩

theorem le_of_mem_staleBuckets (h : index ∈ table.staleBuckets threshold now) :
    index ≤ table.front.length := by
  obtain ⟨bucket, hbucket, -⟩ := mem_staleBuckets_iff.mp h
  have hlt := (List.getElem?_eq_some_iff.mp hbucket).1
  rw [length_buckets] at hlt
  exact Nat.le_of_lt_succ hlt

/-! ### Aging -/

/-- What may become of a table from an instant on: the bucket for any id was used since, or it is
the one it was, for the ids that it was for. -/
def Ages (since : Time) (table next : RoutingTable) : Prop :=
  ∀ id, since ≤ (next.bucketOf id).touched ∨
    ((next.bucketOf id).touched = (table.bucketOf id).touched ∧
      ∀ other, table.bucketIndex other = table.bucketIndex id →
        next.bucketIndex other = next.bucketIndex id)

theorem Ages.refl (since : Time) (table : RoutingTable) : table.Ages since table :=
  fun _ => .inr ⟨rfl, fun _ h => h⟩

theorem Ages.trans (h : table.Ages since next) (hnext : next.Ages since later) :
    table.Ages since later := by
  intro id
  rcases hnext id with hused | ⟨hlater, hsame⟩
  · exact .inl hused
  rcases h id with hused | ⟨htouched, hbefore⟩
  · exact .inl (hlater ▸ hused)
  · exact .inr ⟨hlater.trans htouched, fun other hother => hsame other (hbefore other hother)⟩

/-- A bucket that was used stays so. -/
theorem Ages.used (h : table.Ages since next) (hused : since ≤ (table.bucketOf id).touched) :
    since ≤ (next.bucketOf id).touched := by
  rcases h id with hlater | ⟨htouched, -⟩
  · exact hlater
  · exact htouched ▸ hused

theorem ages_putBucket
    (h : since ≤ bucket.touched ∨ bucket.touched = (table.bucketOf id).touched) :
    table.Ages since (table.putBucket id bucket) := by
  intro other
  by_cases hindex : table.bucketIndex other = table.bucketIndex id
  · have hput : (table.putBucket id bucket).bucketIndex other =
        (table.putBucket id bucket).bucketIndex id := by
      rw [bucketIndex_putBucket, bucketIndex_putBucket, hindex]
    rw [bucketOf_congr hput, bucketOf_putBucket, bucketOf_congr hindex]
    exact h.imp_right fun htouched => ⟨htouched, fun third hthird => by simpa using hthird⟩
  · rw [bucketOf_putBucket_of_ne hindex]
    exact .inr ⟨rfl, fun third hthird => by simpa using hthird⟩

/-- A bucket that has been used may be split. -/
theorem ages_splitLast (h : since ≤ table.last.touched) : table.Ages since table.splitLast := by
  intro id
  rcases Nat.lt_or_ge (table.own.sharedBits id) table.front.length with hfront | hlast
  · have hbefore : table.bucketIndex id = table.own.sharedBits id :=
      Nat.min_eq_left (Nat.le_of_lt hfront)
    have hindex : table.splitLast.bucketIndex id = table.own.sharedBits id := by
      rw [bucketIndex_splitLast]
      omega
    refine .inr ⟨?_, fun other hother => ?_⟩
    · rw [bucketOf, bucketOf, hindex, hbefore, front_splitLast, List.getD_append _ _ _ _ hfront,
        List.getD_eq_getElem _ _ hfront, List.getD_eq_getElem _ _ hfront]
    · rw [hbefore, bucketIndex] at hother
      rw [hindex, bucketIndex_splitLast]
      omega
  · -- The last bucket is the one that was split, and both parts remember its use.
    refine .inl ?_
    have hindex : table.splitLast.bucketIndex id = table.front.length ∨
        table.splitLast.bucketIndex id = table.front.length + 1 := by
      rw [bucketIndex_splitLast]
      omega
    rcases hindex with hindex | hindex
    · rw [bucketOf, hindex, front_splitLast, List.getD_append_right _ _ _ _ (Nat.le_refl _),
        Nat.sub_self]
      exact h
    · rw [bucketOf_eq_last (by rw [hindex, length_front_splitLast])]
      exact h

theorem ages_touch (table : RoutingTable) (id : Id) (h : since ≤ now) :
    table.Ages since (table.touch id now) :=
  ages_putBucket (.inl h)

/-- The bucket of an id that was used, was. -/
theorem touched_bucketOf_touch (table : RoutingTable) (id : Id) (now : Time) :
    ((table.touch id now).bucketOf id).touched = now := by
  rw [touch_eq, bucketOf_putBucket]
  rfl

theorem ages_splitFor (h : table.MustSplit id) (hnow : since ≤ now) :
    table.Ages since (table.splitFor id now) := by
  refine (table.ages_touch id hnow).trans (ages_splitLast ?_)
  have hlast : (table.touch id now).bucketOf id = (table.touch id now).last :=
    bucketOf_eq_last (h.isLast_touch now)
  rw [← hlast, touched_bucketOf_touch]
  exact hnow

theorem ages_update (table : RoutingTable) (contact : Contact) (hnow : since ≤ now) :
    table.Ages since (table.update contact now).1 := by
  induction table using update_induction contact now with
  | ignored table _ hupdate =>
    rw [hupdate]
    exact .refl since table
  | split table hsplit hupdate ih =>
    rw [hupdate]
    exact (ages_splitFor hsplit hnow).trans ih
  | settled table _ _ hupdate =>
    rw [hupdate]
    refine ages_putBucket (.inl ?_)
    rw [Bucket.touched_offer]
    exact hnow

theorem ages_evict (since : Time) (table : RoutingTable) (id : Id) :
    table.Ages since (table.evict id).1 :=
  ages_putBucket (.inr (Bucket.touched_evict _ id))

theorem ages_pingAnswered (since : Time) (table : RoutingTable) (id : Id) :
    table.Ages since (table.pingAnswered id) :=
  ages_putBucket (.inr (Bucket.touched_settlePing _ id))

/-- A bucket that was used since an instant is not stale at it. -/
theorem not_stale_of_used (hthreshold : 0 < threshold) (hused : now ≤ bucket.touched) :
    ¬ threshold ≤ now - bucket.touched := by
  rw [Nat.sub_eq_zero_of_le hused]
  exact Nat.not_le.mpr hthreshold

/-- **No bucket is left that was not used**, if an id of each such bucket was used since, wherever
it belongs by then. -/
theorem Ages.staleBuckets_eq_nil (h : table.Ages now next) (hthreshold : 0 < threshold)
    (hfront : next.front.length < Id.width)
    (hused : ∀ index ∈ table.staleBuckets threshold now,
      ∃ target, table.bucketIndex target = index ∧ now ≤ (next.bucketOf target).touched) :
    next.staleBuckets threshold now = [] := by
  refine List.eq_nil_iff_forall_not_mem.mpr fun index hindex => ?_
  -- Some id of the bucket tells which bucket it was before.
  obtain ⟨id, rfl⟩ : ∃ id, next.bucketIndex id = index :=
    ⟨_, bucketIndex_idInBucket hfront (le_of_mem_staleBuckets hindex) .zero⟩
  obtain ⟨bucket, hbucket, hstale⟩ := mem_staleBuckets_iff.mp hindex
  rw [buckets_bucketIndex] at hbucket
  obtain rfl := Option.some.inj hbucket
  rcases h id with hlater | ⟨htouched, hsame⟩
  · exact not_stale_of_used hthreshold hlater hstale
  · obtain ⟨target, htarget, hlater⟩ := hused (table.bucketIndex id)
      (mem_staleBuckets_iff.mpr ⟨_, table.buckets_bucketIndex id, htouched ▸ hstale⟩)
    rw [bucketOf_congr (hsame target htarget)] at hlater
    exact not_stale_of_used hthreshold hlater hstale

end RoutingTable

end Kademlia
