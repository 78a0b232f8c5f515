import Kademlia.Proofs.RoutingTable.Closest
import Kademlia.Proofs.RoutingTable.Entries
import Kademlia.Proofs.RoutingTable.History
import Kademlia.Proofs.Share
import Mathlib.Data.List.FinRange
import Mathlib.Logic.Function.Basic

/-!
# Kademlia.Proofs.RoutingTable.Splitting

Splitting is invisible. `SplitTable` is the routing table that needs no splits: from the start it
has a bucket for every number of bits that an id can share with the own one. A table that splits its
last bucket only when it has to answers every history as that table does
(`run_agrees_with_split_table`).

`Simulates` is what the two have in common: the bucket of the split table for a number of shared
bits is the share that the other's bucket has of the ids with that number (`RoutingTable.share`).
Two facts carry the proof.

* Splitting changes no share (`share_splitLast`), so updates may split as often as they like.
* What an operation does to the bucket for an id it does to the share of that id, and to no other
  share (`Simulates.step`). Where the bucket is split already, its only share is the bucket itself;
  the last bucket is idle, and steps of an idle bucket are local (`Bucket.LocalAt`).
-/

namespace Kademlia

/-! ### The table without splits -/

/-- The routing table that has a bucket for each number of shared bits from the start. -/
structure SplitTable where
  own : Id
  /-- The bucket for each number of shared bits. -/
  bucket : Fin Id.width → Bucket

namespace SplitTable

open RoutingTable (Operation Answer Event)

/-- The table of a node that knows no other. -/
def new (own : Id) (now : Time) : SplitTable := ⟨own, fun _ => .empty now⟩

/-- The number of the bucket for an id; the own id has none. -/
def position? (table : SplitTable) (id : Id) : Option (Fin Id.width) :=
  if h : table.own.sharedBits id < Id.width then some ⟨table.own.sharedBits id, h⟩ else none

/-- Puts a bucket at a position. -/
def put (table : SplitTable) (position : Fin Id.width) (bucket : Bucket) : SplitTable :=
  { table with bucket := Function.update table.bucket position bucket }

@[simp] theorem bucket_put_self (table : SplitTable) (position : Fin Id.width) (bucket : Bucket) :
    (table.put position bucket).bucket position = bucket := Function.update_self ..

theorem bucket_put_of_ne (table : SplitTable) {position other : Fin Id.width}
    (h : other ≠ position) (bucket : Bucket) :
    (table.put position bucket).bucket other = table.bucket other := Function.update_of_ne h ..

/-- Lets the bucket for an id make a step. For an id without a bucket nothing changes, and the
answer is `otherwise`. -/
def step {α : Type} (table : SplitTable) (id : Id) (change : Bucket → Bucket × α) (otherwise : α) :
    SplitTable × α :=
  match table.position? id with
  | none => (table, otherwise)
  | some position =>
    (table.put position (change (table.bucket position)).1, (change (table.bucket position)).2)

/-- Performs an operation, as a step of one bucket. -/
def perform (table : SplitTable) (now : Time) : Operation → SplitTable × Answer
  | .update contact =>
    let (table, outcome) := table.step contact.id (·.offer ⟨contact, now⟩) .ignored
    (table, .updated outcome)
  | .evict id =>
    let (table, promoted) := table.step id (·.evict id) none
    (table, .evicted promoted)
  | .pingAnswered id => table.step id (fun bucket => (bucket.settlePing id, .done)) .done
  | .remove id => table.step id (fun bucket => (bucket.remove id, .done)) .done
  | .touch id => table.step id (fun bucket => (bucket.touch now, .done)) .done

/-- A history of the table. -/
def run (table : SplitTable) (events : List Event) : SplitTable × List Answer :=
  Operation.runWith perform table events

/-- Is the id among the contacts of the table? -/
def contains (table : SplitTable) (id : Id) : Bool :=
  (table.position? id).any fun position => (table.bucket position).holds id

/-- The entries of the table, bucket by bucket. -/
def entries (table : SplitTable) : List Entry :=
  (List.finRange Id.width).flatMap fun position => (table.bucket position).nodes

/-- The contacts of the table, bucket by bucket. -/
def contacts (table : SplitTable) : List Contact := table.entries.map Entry.contact

/-- The number of contacts. -/
def size (table : SplitTable) : Nat := table.entries.length

/-- Up to `count` contacts of the table, closest to the target first. -/
def findClosest (table : SplitTable) (target : Id) (count : Nat) : List Contact :=
  (Contact.byDistance target table.contacts).take count

/-- Up to `count` contacts of the table, closest to the target first, if as many can be asked
for. -/
def findClosest? (table : SplitTable) (target : Id) (count : Nat) : Option (List Contact) :=
  if count ≤ RoutingTable.maxCount then some (table.findClosest target count) else none

end SplitTable

namespace RoutingTable

variable {table : RoutingTable} {split : SplitTable} {id : Id} {now : Time}

/-! ### Shares of a table -/

/-- What the table holds of the ids that share a number of bits with the own id. -/
def share (table : RoutingTable) (bits : Nat) : Bucket :=
  (table.front.getD bits table.last).restrict fun id => table.own.sharedBits id = bits

/-- A share is part of the bucket for the ids that it keeps. -/
theorem share_eq_restrict {bits : Nat}
    (h : min bits table.front.length = table.bucketIndex id) :
    table.share bits =
      (table.bucketOf id).restrict fun other => table.own.sharedBits other = bits := by
  have hget : table.front.getD bits table.last = table.bucketOf id := by
    rw [bucketOf, ← h, List.getD_eq_getElem?_getD, List.getD_eq_getElem?_getD]
    rcases Nat.lt_or_ge bits table.front.length with hlt | hge
    · rw [Nat.min_eq_left (Nat.le_of_lt hlt)]
    · rw [Nat.min_eq_right hge, List.getElem?_eq_none hge, List.getElem?_eq_none (Nat.le_refl _)]
  rw [share, hget]

/-- Putting the bucket for an id replaces the shares that lie in it. -/
theorem share_putBucket (table : RoutingTable) (id : Id) (bucket : Bucket) (bits : Nat) :
    (table.putBucket id bucket).share bits =
      if min bits table.front.length = table.bucketIndex id then
        bucket.restrict fun id => table.own.sharedBits id = bits
      else table.share bits := by
  rw [share, share, own_putBucket, putBucket]
  have hindex := table.bucketIndex_le id
  split
  · rename_i hlt
    dsimp only
    rw [List.getD_eq_getElem?_getD, List.getElem?_set]
    by_cases heq : table.bucketIndex id = bits
    · rw [if_pos heq, if_pos hlt, if_pos (by omega), Option.getD_some]
    · rw [if_neg heq, if_neg (by omega), List.getD_eq_getElem?_getD]
  · rename_i hlt
    dsimp only
    rcases Nat.lt_or_ge bits table.front.length with hbits | hbits
    · rw [if_neg (by omega), List.getD_eq_getElem?_getD, List.getD_eq_getElem?_getD,
        List.getElem?_eq_getElem hbits]
      rfl
    · rw [if_pos (by omega), List.getD_eq_getElem?_getD, List.getElem?_eq_none hbits]
      rfl

/-- Splitting changes no share: what it parts in two it parts along the shares. -/
theorem share_splitLast (table : RoutingTable) (bits : Nat) :
    table.splitLast.share bits = table.share bits := by
  rw [share, share, own_splitLast, front_splitLast, last_splitLast, List.getD_eq_getElem?_getD,
    List.getD_eq_getElem?_getD]
  rcases Nat.lt_trichotomy bits table.front.length with hlt | rfl | hlt
  · rw [List.getElem?_append_left hlt, List.getElem?_eq_getElem hlt]
    rfl
  · rw [List.getElem?_concat_length, List.getElem?_eq_none (Nat.le_refl _), Option.getD_some,
      Option.getD_none, Bucket.restrict_restrict]
    simp only [Bool.and_self]
  · have hlen : (table.front ++ [table.last.restrict
        fun id => table.own.sharedBits id = table.front.length]).length ≤ bits := by
      rw [List.length_append, List.length_singleton]
      exact hlt
    rw [List.getElem?_eq_none hlen, List.getElem?_eq_none (Nat.le_of_lt hlt),
      Option.getD_none, Option.getD_none, Bucket.restrict_restrict]
    congr 1
    funext id
    rw [Bool.eq_iff_iff]
    simp only [Bool.and_eq_true, decide_eq_true_eq, Bool.not_eq_true', decide_eq_false_iff_not]
    omega

/-! ### The simulation -/

/-- The buckets of the split table are the shares of the other. -/
structure Simulates (table : RoutingTable) (split : SplitTable) : Prop where
  own : split.own = table.own
  alike : ∀ position : Fin Id.width, (table.share position).Alike (split.bucket position)

theorem simulates_new (own : Id) (start : Time) :
    (new own start).Simulates (SplitTable.new own start) := by
  refine ⟨rfl, fun position => ?_⟩
  exact ⟨rfl, rfl, rfl⟩

/-- A bucket may be put whose contents are those of the bucket that was there. -/
theorem Simulates.putBucket_alike (h : table.Simulates split) {bucket : Bucket}
    (halike : (table.bucketOf id).Alike bucket) : (table.putBucket id bucket).Simulates split := by
  refine ⟨h.own.trans (own_putBucket ..).symm, fun position => ?_⟩
  rw [share_putBucket]
  split
  · rename_i heq
    refine (halike.symm.restrict _).trans ?_
    rw [← share_eq_restrict heq]
    exact h.alike position
  · exact h.alike position

theorem Simulates.splitFor (h : table.Simulates split) (id : Id) (now : Time) :
    (table.splitFor id now).Simulates split := by
  have htouch : (table.touch id now).Simulates split :=
    h.putBucket_alike (Bucket.Alike.of_touch _ now)
  refine ⟨htouch.own, fun position => ?_⟩
  rw [RoutingTable.splitFor, share_splitLast]
  exact htouch.alike position

theorem position?_eq_some (h : table.Simulates split) (hid : id ≠ table.own) :
    ∃ position, split.position? id = some position ∧
      (position : Nat) = table.own.sharedBits id := by
  have hlt : split.own.sharedBits id < Id.width := by
    rw [h.own]
    exact Id.sharedBits_lt_width hid.symm
  exact ⟨⟨split.own.sharedBits id, hlt⟩, by rw [SplitTable.position?, dif_pos hlt],
    congrArg (Id.sharedBits · id) h.own⟩

theorem position?_own (h : table.Simulates split) : split.position? table.own = none := by
  rw [SplitTable.position?, h.own, dif_neg]
  rw [Id.sharedBits_self]
  exact Nat.lt_irrefl _

/-- A step of the bucket for an id is a step of the share of the id, and of no other share. -/
structure StepsShare {α : Type} (table : RoutingTable) (id : Id) (change : Bucket → Bucket × α) :
    Prop where
  kept : ((change (table.bucketOf id)).1.restrict
      fun other => table.own.sharedBits other = table.own.sharedBits id).Alike
    (change (table.share (table.own.sharedBits id))).1
  answer : (change (table.bucketOf id)).2 = (change (table.share (table.own.sharedBits id))).2
  left : ∀ bits < Id.width, min bits table.front.length = table.bucketIndex id →
    bits ≠ table.own.sharedBits id →
      ((change (table.bucketOf id)).1.restrict fun other => table.own.sharedBits other = bits).Alike
        (table.share bits)

variable {α : Type} {change : Bucket → Bucket × α}

/-- In a bucket that can be split the step has to be local. -/
theorem stepsShare_of_localAt (hlocal : Bucket.LocalAt change id (table.bucketOf id)) :
    table.StepsShare id change := by
  have hshare : table.share (table.own.sharedBits id) = (table.bucketOf id).restrict
      fun other => table.own.sharedBits other = table.own.sharedBits id := share_eq_restrict rfl
  obtain ⟨hkept, hanswer⟩ := hlocal.kept
    (fun other => table.own.sharedBits other = table.own.sharedBits id) (decide_eq_true rfl)
  refine ⟨hshare ▸ hkept, hshare ▸ hanswer, fun bits _ hindex hne => ?_⟩
  rw [share_eq_restrict hindex]
  exact hlocal.left _ (decide_eq_false hne.symm)

/-- A bucket that cannot be split is a single share. -/
theorem stepsShare_of_not_canSplit (hwf : table.WellFormed) (hid : id ≠ table.own)
    (hfits : table.Fits (table.bucketIndex id) (change (table.bucketOf id)).1)
    (hsplit : ¬ (table.bucketIndex id = table.front.length ∧ table.CanSplit)) :
    table.StepsShare id change := by
  have hfront := hwf.front_lt
  have hlt := Id.sharedBits_lt_width hid.symm
  rw [CanSplit] at hsplit
  -- Every id of the bucket shares the same bits: its place says so, or it is the last of all.
  have hself : ∀ {bucket : Bucket}, table.Fits (table.bucketIndex id) bucket →
      (bucket.restrict fun other => table.own.sharedBits other = table.own.sharedBits id) =
        bucket := by
    intro bucket hbucket
    refine Bucket.restrict_eq_self fun other hother => decide_eq_true ?_
    obtain ⟨hne, hindex⟩ := hbucket.covers other hother
    have hlt' := Id.sharedBits_lt_width hne.symm
    rw [bucketIndex, bucketIndex] at hindex
    rw [bucketIndex] at hsplit
    omega
  have hshare : table.share (table.own.sharedBits id) = table.bucketOf id :=
    (share_eq_restrict rfl).trans (hself (hwf.bucketOf id))
  refine ⟨?_, by rw [hshare], fun bits hbits hindex hne => ?_⟩
  · rw [hshare, hself hfits]
    exact Bucket.Alike.refl _
  · rw [bucketIndex] at hindex hsplit
    omega

/-- The split table takes the step in the bucket that the share stands for. -/
theorem Simulates.step_of_stepsShare (h : table.Simulates split) (hid : id ≠ table.own)
    (hclock : Bucket.Unclocked change) (hstep : table.StepsShare id change) (otherwise : α) :
    (table.putBucket id (change (table.bucketOf id)).1).Simulates
        (split.step id change otherwise).1 ∧
      (change (table.bucketOf id)).2 = (split.step id change otherwise).2 := by
  obtain ⟨position, hposition, hbits⟩ := position?_eq_some h hid
  obtain ⟨used, hshare⟩ := (h.alike position).exists_eq_touch
  obtain ⟨hclock, hanswer⟩ := hclock (table.share position) used
  rw [SplitTable.step, hposition]
  dsimp only
  -- The two buckets may have been used last at different times, which no step looks at.
  rw [hshare, ← hanswer, hbits, hstep.answer]
  rw [hbits] at hclock
  refine ⟨⟨h.own.trans (own_putBucket ..).symm, fun other => ?_⟩, rfl⟩
  rw [share_putBucket]
  by_cases hother : other = position
  · subst hother
    rw [if_pos (by rw [bucketIndex, hbits]), hbits, SplitTable.bucket_put_self]
    exact hstep.kept.trans hclock
  · have hne : (other : Nat) ≠ table.own.sharedBits id :=
      fun heq => hother (Fin.ext (heq.trans hbits.symm))
    have halike := h.alike other
    rw [SplitTable.bucket_put_of_ne _ hother]
    split
    · rename_i hindex
      exact (hstep.left other other.isLt hindex hne).trans halike
    · exact halike

/-- A step of the bucket for any id: the own id is not in the table, so a step for it may only
change when the bucket was used. -/
theorem Simulates.step (h : table.Simulates split) (hwf : table.WellFormed)
    (hclock : Bucket.Unclocked change)
    (hfits : table.Fits (table.bucketIndex id) (change (table.bucketOf id)).1)
    (hlocal : table.bucketIndex id = table.front.length → table.CanSplit →
      (table.bucketOf id).Idle → Bucket.LocalAt change id (table.bucketOf id))
    {otherwise : α}
    (hown : ¬ (table.bucketOf id).Mentions id →
      (table.bucketOf id).Alike (change (table.bucketOf id)).1 ∧
        (change (table.bucketOf id)).2 = otherwise) :
    (table.putBucket id (change (table.bucketOf id)).1).Simulates
        (split.step id change otherwise).1 ∧
      (change (table.bucketOf id)).2 = (split.step id change otherwise).2 := by
  by_cases hid : id = table.own
  · obtain ⟨halike, hanswer⟩ := hown fun hmention => ((hwf.bucketOf id).covers id hmention).1 hid
    have hnone : split.position? id = none := hid ▸ position?_own h
    rw [SplitTable.step, hnone]
    exact ⟨h.putBucket_alike halike, hanswer⟩
  · refine h.step_of_stepsShare hid hclock ?_ otherwise
    -- Only the last bucket has more than one share, and only while it can be split.
    by_cases hsplit : table.bucketIndex id = table.front.length ∧ table.CanSplit
    · refine stepsShare_of_localAt (hlocal hsplit.1 hsplit.2 ?_)
      exact (hwf.bucketOf id).idle hsplit.1 hsplit.2
    · exact stepsShare_of_not_canSplit hwf hid hfits hsplit

/-! ### Operations -/

theorem Simulates.update (h : table.Simulates split) (hwf : table.WellFormed) (contact : Contact)
    (now : Time) :
    (table.update contact now).1.Simulates
        (split.step contact.id (·.offer ⟨contact, now⟩) .ignored).1 ∧
      (table.update contact now).2 =
        (split.step contact.id (·.offer ⟨contact, now⟩) .ignored).2 := by
  -- The splits come first and change no share; then the contact is offered to its bucket.
  induction table using update_induction contact now with
  | ignored table hown hupdate =>
    have hnone : split.position? contact.id = none := hown ▸ position?_own h
    rw [hupdate, SplitTable.step, hnone]
    exact ⟨h, rfl⟩
  | split table hsplit hupdate ih =>
    rw [hupdate]
    exact ih (h.splitFor contact.id now) (hwf.splitFor hsplit.canSplit contact.id now)
  | settled table hown hsettled hupdate =>
    have hroom : table.bucketIndex contact.id = table.front.length → table.CanSplit →
        contact.id ∉ (table.bucketOf contact.id).nodeIds →
          (table.bucketOf contact.id).nodes.length < Bucket.capacity := fun hi hc hout =>
      Nat.not_le.mp fun hfull => hsettled ⟨hc, hi, hout, hfull⟩
    rw [hupdate]
    refine h.step_of_stepsShare hown (Bucket.unclocked_offer ⟨contact, now⟩) ?_ .ignored
    by_cases hsplit : table.bucketIndex contact.id = table.front.length ∧ table.CanSplit
    · refine stepsShare_of_localAt (Bucket.localAt_offer ?_ (hroom hsplit.1 hsplit.2))
      exact (hwf.bucketOf contact.id).idle hsplit.1 hsplit.2
    · exact stepsShare_of_not_canSplit hwf hown ((hwf.bucketOf contact.id).offer hown rfl hroom)
        hsplit

/-- **Simulation.** Both tables answer an operation alike, and stay alike. -/
theorem Simulates.perform (h : table.Simulates split) (hwf : table.WellFormed) (now : Time)
    (operation : Operation) :
    (table.perform now operation).1.Simulates (split.perform now operation).1 ∧
      (table.perform now operation).2 = (split.perform now operation).2 := by
  cases operation with
  | update contact =>
    obtain ⟨hsim, hanswer⟩ := h.update hwf contact now
    exact ⟨hsim, congrArg Answer.updated hanswer⟩
  | evict id =>
    have hout : ¬ (table.bucketOf id).Mentions id →
        (table.bucketOf id).Alike ((table.bucketOf id).evict id).1 ∧
          ((table.bucketOf id).evict id).2 = none := by
      intro hout
      rw [Bucket.evict_of_not_mem fun hmem => hout (.inl hmem),
        Bucket.settlePing_of_ne fun hping => hout (.inr (.inr hping))]
      exact ⟨Bucket.Alike.refl _, rfl⟩
    obtain ⟨hsim, hanswer⟩ := h.step hwf (Bucket.unclocked_evict id)
      ((hwf.bucketOf id).evict id) (fun _ _ hidle => Bucket.localAt_evict hidle id) hout
    exact ⟨hsim, congrArg Answer.evicted hanswer⟩
  | pingAnswered id =>
    refine h.step hwf (Bucket.unclocked_settlePing id) ((hwf.bucketOf id).settlePing id)
      (fun _ _ hidle => Bucket.localAt_settlePing hidle id) fun hout => ?_
    rw [Bucket.settlePing_of_ne fun hping => hout (.inr (.inr hping))]
    exact ⟨Bucket.Alike.refl _, rfl⟩
  | remove id =>
    refine h.step hwf (Bucket.unclocked_remove id) ((hwf.bucketOf id).remove id)
      (fun _ _ _ => Bucket.localAt_remove id _) fun hout => ?_
    rw [Bucket.remove, Bucket.dropId_eq_self fun hmem => hout (.inl hmem)]
    exact ⟨Bucket.Alike.refl _, rfl⟩
  | touch id =>
    exact h.step hwf (Bucket.unclocked_touch now) ((hwf.bucketOf id).touch now)
      (fun _ _ _ => Bucket.localAt_touch now id _) fun _ => ⟨Bucket.Alike.of_touch _ now, rfl⟩

theorem simulates_run (own : Id) (start : Time) (events : List Event) :
    (((new own start).run events).1.Simulates ((SplitTable.new own start).run events).1) ∧
      ((new own start).run events).2 = ((SplitTable.new own start).run events).2 := by
  have h := Operation.runWith_simulates RoutingTable.perform SplitTable.perform
    (fun table split => table.WellFormed ∧ table.Simulates split)
    (fun table split now operation h => ?_)
    ⟨wellFormed_new own start, simulates_new own start⟩ events
  · exact ⟨h.1.2, h.2⟩
  · obtain ⟨hwf, hsim⟩ := h
    obtain ⟨hsim, hanswer⟩ := hsim.perform hwf now operation
    exact ⟨⟨hwf.perform now operation, hsim⟩, hanswer⟩

/-! ### What the tables tell -/

/-- What two tables tell about their contacts is the same. -/
structure Agrees (table : RoutingTable) (split : SplitTable) : Prop where
  contains : ∀ id, table.contains id = split.contains id
  entries : table.entries.Perm split.entries
  size : table.size = split.size
  findClosest : ∀ target count, table.findClosest target count = split.findClosest target count
  findClosest? : ∀ target count, table.findClosest? target count = split.findClosest? target count

/-- The share of an id holds the id if the table does. -/
theorem contains_eq_holds_share (table : RoutingTable) (id : Id) :
    table.contains id = (table.share (table.own.sharedBits id)).holds id := by
  rw [share_eq_restrict rfl, RoutingTable.contains, Bool.eq_iff_iff, Bucket.holds_iff,
    Bucket.holds_iff]
  exact (Bucket.mem_nodeIds_restrict (decide_eq_true rfl)).symm

theorem WellFormed.contains_own (h : table.WellFormed) : table.contains table.own = false := by
  rw [Bool.eq_false_iff, RoutingTable.contains, Ne, Bucket.holds_iff]
  intro hmem
  exact ((h.bucketOf table.own).covers table.own (.inl hmem)).1 rfl

theorem Simulates.contains (h : table.Simulates split) (hwf : table.WellFormed) (id : Id) :
    table.contains id = split.contains id := by
  by_cases hid : id = table.own
  · rw [hid, hwf.contains_own, SplitTable.contains, position?_own h]
    rfl
  · obtain ⟨position, hposition, hbits⟩ := position?_eq_some h hid
    rw [contains_eq_holds_share, ← hbits, SplitTable.contains, hposition, Option.any_some,
      Bucket.holds, Bucket.holds, (h.alike position).nodes]

theorem getD_mem_buckets (table : RoutingTable) (index : Nat) :
    table.front.getD index table.last ∈ table.buckets := by
  rw [buckets, List.getD_eq_getElem?_getD]
  rcases Nat.lt_or_ge index table.front.length with hlt | hge
  · rw [List.getElem?_eq_getElem hlt]
    exact List.mem_append_left _ (List.getElem_mem hlt)
  · rw [List.getElem?_eq_none hge]
    exact List.mem_append_right _ (List.mem_singleton_self _)

/-- An entry of the table is an entry of the share for its id. -/
theorem WellFormed.mem_entries_iff (h : table.WellFormed) {entry : Entry} :
    entry ∈ table.entries ↔
      ∃ position : Fin Id.width, entry ∈ (table.share position).nodes := by
  constructor
  · intro hentry
    obtain ⟨index, hindex, hmem⟩ := mem_flatMap_nodes.mp hentry
    have hfits := h.fits index _ (List.getElem?_eq_getElem hindex)
    obtain ⟨hne, heq⟩ := hfits.covers entry.id (.inl (List.mem_map_of_mem hmem))
    have hbucket := table.buckets_bucketIndex entry.id
    rw [heq, List.getElem?_eq_getElem hindex] at hbucket
    refine ⟨⟨table.own.sharedBits entry.id, Id.sharedBits_lt_width hne.symm⟩, ?_⟩
    have hshare : table.share (table.own.sharedBits entry.id) =
        (table.bucketOf entry.id).restrict fun other =>
          table.own.sharedBits other = table.own.sharedBits entry.id := share_eq_restrict rfl
    dsimp only
    rw [hshare, Bucket.nodes_restrict, ← Option.some.inj hbucket]
    exact List.mem_filter.mpr ⟨hmem, decide_eq_true rfl⟩
  · rintro ⟨position, hmem⟩
    exact List.mem_flatMap.mpr
      ⟨_, table.getD_mem_buckets position, (List.mem_filter.mp hmem).1⟩

theorem mem_share_nodes {bits : Nat} {entry : Entry} (h : entry ∈ (table.share bits).nodes) :
    table.own.sharedBits entry.id = bits :=
  of_decide_eq_true (List.mem_filter.mp h).2

/-- A table lists no entry twice, and neither does a share. -/
theorem WellFormed.nodup_entries (h : table.WellFormed) : table.entries.Nodup :=
  (List.Nodup.of_map _ h.nodup_ids).of_map _

theorem WellFormed.nodup_share_nodes (h : table.WellFormed) (bits : Nat) :
    (table.share bits).nodes.Nodup := by
  obtain ⟨index, hindex⟩ := List.mem_iff_getElem?.mp (table.getD_mem_buckets bits)
  exact ((h.fits index _ hindex).sound.nodup_nodes.of_map _).filter _

theorem Simulates.entries_perm (h : table.Simulates split) (hwf : table.WellFormed) :
    table.entries.Perm split.entries := by
  have hnodes : ∀ position : Fin Id.width,
      (split.bucket position).nodes = (table.share position).nodes :=
    fun position => (h.alike position).nodes.symm
  rw [SplitTable.entries]
  simp only [hnodes]
  refine (List.perm_ext_iff_of_nodup hwf.nodup_entries ?_).mpr fun entry => ?_
  · refine List.nodup_flatMap.mpr ⟨fun position _ => hwf.nodup_share_nodes position, ?_⟩
    refine (List.nodup_finRange _).imp fun {i j} hne entry hi hj => hne (Fin.ext ?_)
    exact (mem_share_nodes hi).symm.trans (mem_share_nodes hj)
  · rw [hwf.mem_entries_iff, List.mem_flatMap]
    exact exists_congr fun position => (and_iff_right (List.mem_finRange position)).symm

theorem Simulates.agrees (h : table.Simulates split) (hwf : table.WellFormed) :
    table.Agrees split := by
  have hentries := h.entries_perm hwf
  have hclosest : ∀ target count,
      table.findClosest target count = split.findClosest target count := by
    intro target count
    have hperm : split.contacts.Perm table.contacts := (hentries.map Entry.contact).symm
    have hsorted : Contact.byDistance target split.contacts =
        Contact.byDistance target table.contacts :=
      Contact.eq_byDistance hwf.nodup_ids ((Contact.byDistance_perm ..).trans hperm)
        (Contact.pairwise_byDistance ..)
    rw [hwf.findClosest_eq, SplitTable.findClosest, hsorted]
  refine ⟨h.contains hwf, hentries, hentries.length_eq, hclosest, fun target count => ?_⟩
  rw [RoutingTable.findClosest?, SplitTable.findClosest?, hclosest]

/-! ### The result -/

/-- **Splitting is invisible.** The table answers every history as the table without splits does,
and agrees with it afterwards. Nor does a further update lose or double another contact. -/
theorem run_agrees_with_split_table (own : Id) (start : Time) (events : List Event) :
    let (table, answers) := (new own start).run events
    let (split, splitAnswers) := (SplitTable.new own start).run events
    answers = splitAnswers ∧ table.Agrees split ∧
      ∀ contact now,
        ((table.update contact now).1.contacts.filter (·.id ≠ contact.id)).Perm
            (table.contacts.filter (·.id ≠ contact.id)) ∧
          ((table.update contact now).1.contacts.map Contact.id).Nodup := by
  obtain ⟨hsim, hanswers⟩ := simulates_run own start events
  have hwf := wellFormed_run own start events
  refine ⟨hanswers, hsim.agrees hwf, fun contact now => ⟨?_, (hwf.update contact now).nodup_ids⟩⟩
  have hperm := filter_entries_update_perm ((new own start).run events).1 contact now
  rw [RoutingTable.contacts, RoutingTable.contacts, List.filter_map, List.filter_map]
  exact hperm.map Entry.contact

end RoutingTable

end Kademlia
