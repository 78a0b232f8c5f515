import Kademlia.Proofs.RoutingTable.Representation

/-!
# Kademlia.Proofs.RoutingTable.Unlimited

An update splits the last bucket as often as it takes, up to a limit on the number of buckets. The
limit is never felt (`RoutingTable.neverLimited_run`): close to the own id ids are too scarce to
fill a bucket (`WellFormed.length_front_lt_of_full`), so the splitting comes to an end by itself.

`RoutingTable.Unlimited` is the loop of an update that knows no limit. It is a relation, since
nothing in the loop says that it ends; that it ends, and how, is what is proved. The induction is
over the splits of an update (`update_induction`), and what carries it is that a table whose last
bucket has to be split has room for one more bucket (`WellFormed.length_front_splitFor_le`).
-/

namespace Kademlia

namespace RoutingTable

variable {table : RoutingTable} {contact : Contact} {id : Id} {entry : Entry} {now : Time}
  {first second : RoutingTable × UpdateOutcome}

/-! ### The loop without a limit -/

/-- How an entry is put where it belongs, if a crowded bucket is split whenever it is the last. -/
inductive Unlimited (entry : Entry) : RoutingTable → RoutingTable × UpdateOutcome → Prop
  | placed {table next : RoutingTable} {outcome : UpdateOutcome}
      (hplace : table.place entry = .placed next outcome) : Unlimited entry table (next, outcome)
  | split {table touched : RoutingTable} {result : RoutingTable × UpdateOutcome}
      (hplace : table.place entry = .crowded touched)
      (hlast : touched.bucketIndex entry.id = touched.front.length)
      (hrest : Unlimited entry touched.splitLast result) : Unlimited entry table result
  | overflow {table touched : RoutingTable} (hplace : table.place entry = .crowded touched)
      (hlast : touched.bucketIndex entry.id ≠ touched.front.length) :
      Unlimited entry table (touched.overflow entry)

/-- An update whose loop knows no limit. -/
inductive UnlimitedUpdate (contact : Contact) (now : Time) (table : RoutingTable) :
    RoutingTable × UpdateOutcome → Prop
  | ignored (hown : contact.id = table.own) : UnlimitedUpdate contact now table (table, .ignored)
  | settled {result : RoutingTable × UpdateOutcome} (hown : contact.id ≠ table.own)
      (hloop : Unlimited ⟨contact, now⟩ table result) : UnlimitedUpdate contact now table result

/-- The loop has no choice. -/
theorem Unlimited.unique (hfirst : Unlimited entry table first)
    (hsecond : Unlimited entry table second) : first = second := by
  induction hfirst with
  | placed hplace =>
    cases hsecond with
    | placed hother =>
      cases hplace.symm.trans hother
      rfl
    | split hother => cases hplace.symm.trans hother
    | overflow hother => cases hplace.symm.trans hother
  | split hplace hlast hrest ih =>
    cases hsecond with
    | placed hother => cases hplace.symm.trans hother
    | split hother hlast' hrest' =>
      cases hplace.symm.trans hother
      exact ih hrest'
    | overflow hother hlast' =>
      cases hplace.symm.trans hother
      exact absurd hlast hlast'
  | overflow hplace hlast =>
    cases hsecond with
    | placed hother => cases hplace.symm.trans hother
    | split hother hlast' =>
      cases hplace.symm.trans hother
      exact absurd hlast' hlast
    | overflow hother =>
      cases hplace.symm.trans hother
      rfl

/-! ### Tables that are not deep -/

/-- A full bucket that does not have to be split comes before the last one. -/
theorem bucketIndex_lt_of_settled (hfront : table.front.length ≤ deepest)
    (hsettled : ¬ table.MustSplit id) (hout : id ∉ (table.bucketOf id).nodeIds)
    (hfull : Bucket.capacity ≤ (table.bucketOf id).nodes.length) :
    table.bucketIndex id < table.front.length := by
  refine Nat.lt_of_le_of_ne (table.bucketIndex_le id) fun hlast => ?_
  exact hsettled ⟨canSplit_of_length_front_le hfront, hlast, hout, hfull⟩

/-- Where nothing has to be split, the loop ends in the pass that it is in. -/
theorem unlimited_of_settled (hfront : table.front.length ≤ deepest)
    (hsettled : ¬ table.MustSplit entry.id) :
    Unlimited entry table (table.putBucket entry.id ((table.bucketOf entry.id).offer entry).1,
      ((table.bucketOf entry.id).offer entry).2) := by
  by_cases hcrowded : entry.id ∉ (table.bucketOf entry.id).nodeIds ∧
      Bucket.capacity ≤ (table.bucketOf entry.id).nodes.length
  · obtain ⟨hout, hfull⟩ := hcrowded
    have hbefore : (table.touch entry.id entry.lastSeen).bucketIndex entry.id ≠
        (table.touch entry.id entry.lastSeen).front.length := by
      rw [bucketIndex_touch, length_front_touch]
      exact Nat.ne_of_lt (bucketIndex_lt_of_settled hfront hsettled hout hfull)
    rw [← overflow_touch hout hfull]
    exact .overflow (place_of_crowded hout hfull) hbefore
  · exact .placed (place_of_not_crowded hcrowded)

/-- The loop without a limit ends, and as an update does. -/
theorem WellFormed.unlimited_update (h : table.WellFormed) (hfront : table.front.length ≤ deepest)
    (hown : contact.id ≠ table.own) (now : Time) :
    Unlimited ⟨contact, now⟩ table (table.update contact now) := by
  induction table using update_induction contact now with
  | ignored table hsame => exact absurd hsame hown
  | split table hsplit hupdate ih =>
    have hplace : table.place ⟨contact, now⟩ = .crowded (table.touch contact.id now) :=
      place_of_crowded hsplit.unknown hsplit.full
    rw [hupdate]
    refine .split hplace (hsplit.isLast_touch now) ?_
    exact ih (h.splitFor hsplit.canSplit _ _) (h.length_front_splitFor_le hsplit)
      (by rwa [own_splitFor])
  | settled table _ hsettled hupdate =>
    rw [hupdate]
    exact @unlimited_of_settled table ⟨contact, now⟩ hfront hsettled

/-- The last bucket takes in whatever is offered to it, or is split. -/
theorem WellFormed.bucketIndex_lt_of_full (h : table.WellFormed)
    (hfront : table.front.length ≤ deepest) {ping : Option Contact}
    (hfull : (table.update contact now).2 = .full ping) :
    (table.update contact now).1.bucketIndex contact.id <
      (table.update contact now).1.front.length := by
  induction table using update_induction contact now with
  | ignored table _ hupdate =>
    rw [hupdate] at hfull
    cases hfull
  | split table hsplit hupdate ih =>
    rw [hupdate] at hfull ⊢
    exact ih (h.splitFor hsplit.canSplit _ _) (h.length_front_splitFor_le hsplit) hfull
  | settled table _ hsettled hupdate =>
    rw [hupdate] at hfull ⊢
    rw [bucketIndex_putBucket, length_front_putBucket]
    rcases Bucket.offer_cases (table.bucketOf contact.id) ⟨contact, now⟩ with
      ⟨-, heq⟩ | ⟨-, -, heq⟩ | ⟨hout, hcrowded, -⟩
    · rw [heq] at hfull
      cases hfull
    · rw [heq] at hfull
      cases hfull
    · exact bucketIndex_lt_of_settled hfront hsettled hout hcrowded

/-! ### The result -/

/-- A table to which the limit on the number of buckets means nothing. -/
structure NeverLimited (table : RoutingTable) : Prop where
  length_buckets_le : table.buckets.length ≤ 381
  /-- A last bucket without a free place can be split, and then there are no more buckets either. -/
  canSplit : table.last.isFull = true →
    table.CanSplit ∧ table.splitLast.buckets.length ≤ 381
  /-- Without the limit an update ends as it does with it. -/
  ends : ∀ contact now result,
    UnlimitedUpdate contact now table result ↔ result = table.update contact now
  /-- Contacts wait for a place in buckets before the last one only. -/
  full : ∀ contact now ping, (table.update contact now).2 = .full ping →
    (table.update contact now).1.bucketIndex contact.id <
      (table.update contact now).1.front.length

/-- **The limit on the number of buckets is never felt.** -/
theorem neverLimited_run (own : Id) (start : Time) (events : List Event) :
    ((new own start).run events).1.NeverLimited := by
  have h := wellFormed_run own start events
  have hfront := length_front_run own start events
  generalize ((new own start).run events).1 = table at h hfront
  refine ⟨?_, fun hfull => ?_, fun contact now result => ?_, fun contact now ping hfull => ?_⟩
  · rw [length_buckets]
    exact Nat.succ_le_succ hfront
  · have hlt := h.length_front_lt_of_full (Bucket.isFull_iff.mp hfull)
    refine ⟨canSplit_of_length_front_le hfront, ?_⟩
    rw [length_buckets, length_front_splitLast]
    exact Nat.succ_le_succ hlt
  · constructor
    · intro hresult
      cases hresult with
      | ignored hown => rw [update_of_own hown]
      | settled hown hloop => exact hloop.unique (h.unlimited_update hfront hown now)
    · rintro rfl
      by_cases hown : contact.id = table.own
      · rw [update_of_own hown]
        exact .ignored hown
      · exact .settled hown (h.unlimited_update hfront hown now)
  · exact h.bucketIndex_lt_of_full hfront hfull

end RoutingTable

end Kademlia
