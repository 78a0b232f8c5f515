import Kademlia.Proofs.RoutingTable.Known

/-!
# Kademlia.Proofs.RoutingTable.Freshness

The order of the entries of a bucket, which nothing but their positions records. A full bucket has
its last contact pinged, for being the one that was not heard of for the longest time.

What is heard of goes to the front with the present instant, and all other operations leave entries
out. There is one exception. A replacement that moves up into the place of a contact that was given
up goes to the front as well, but keeps the instant at which it was heard of, and so it overtakes
contacts that were heard of since. `Entry.Precedes` is the order that is left, and
`RoutingTable.freshness_run` says that all buckets keep to it and that nobody but such a contact is
staler than the one that is pinged. `RoutingTable.promotion_overtakes` shows that the exception is
needed.
-/

namespace Kademlia

/-- What an entry before another has to be: it was heard of no earlier, or it has moved up since the
other was heard of. -/
def Entry.Precedes (moved : List (Time × Contact)) (a b : Entry) : Prop :=
  b.lastSeen ≤ a.lastSeen ∨ ∃ instant, (instant, a.contact) ∈ moved ∧ b.lastSeen ≤ instant

theorem Entry.precedes_refl (moved : List (Time × Contact)) (entry : Entry) :
    entry.Precedes moved entry := .inl (Nat.le_refl _)

/-! ### Buckets -/

namespace Bucket

variable {bucket next : Bucket} {entry : Entry} {id : Id} {now later : Time}
  {moved others : List (Time × Contact)}

/-- The order of the entries of a bucket, as far as contacts have moved up until an instant. -/
structure Ordered (now : Time) (moved : List (Time × Contact)) (bucket : Bucket) : Prop where
  nodes : bucket.nodes.Pairwise (Entry.Precedes moved)
  replacements : bucket.replacements.Pairwise fun a b => b.lastSeen ≤ a.lastSeen
  seen : ∀ entry ∈ bucket.known, entry.lastSeen ≤ now

theorem ordered_empty (start now : Time) (moved : List (Time × Contact)) :
    (empty start).Ordered now moved :=
  ⟨.nil, .nil, fun _ hentry => absurd hentry List.not_mem_nil⟩

namespace Ordered

theorem mono (h : bucket.Ordered now moved) (hle : now ≤ later) (hmoved : moved ⊆ others) :
    bucket.Ordered later others where
  nodes := h.nodes.imp fun hab =>
    hab.imp_right fun ⟨instant, hmem, hseen⟩ => ⟨instant, hmoved hmem, hseen⟩
  replacements := h.replacements
  seen := fun entry hentry => Nat.le_trans (h.seen entry hentry) hle

/-- Entries may be left out. -/
theorem of_sublist (h : bucket.Ordered now moved) (hnodes : next.nodes.Sublist bucket.nodes)
    (hrepl : next.replacements.Sublist bucket.replacements) : next.Ordered now moved where
  nodes := h.nodes.sublist hnodes
  replacements := h.replacements.sublist hrepl
  seen := fun entry hentry => h.seen entry ((hnodes.append hrepl).subset hentry)

/-- What was just heard of may stand before all others. -/
theorem offer (h : bucket.Ordered entry.lastSeen moved) :
    (bucket.offer entry).1.Ordered entry.lastSeen moved := by
  have hseen : ∀ other ∈ (bucket.offer entry).1.known, other.lastSeen ≤ entry.lastSeen := by
    intro other hother
    rcases eq_or_mem_known_of_offer hother with rfl | hother
    · exact Nat.le_refl _
    · exact h.seen other hother
  have hnodes : ∀ {entries : List Entry}, entries.Sublist bucket.nodes →
      (entry :: entries).Pairwise (Entry.Precedes moved) := by
    intro entries hsublist
    refine List.pairwise_cons.mpr ⟨fun other hother => ?_, h.nodes.sublist hsublist⟩
    exact .inl (h.seen other (List.mem_append_left _ (hsublist.subset hother)))
  rcases bucket.offer_cases entry with ⟨-, heq⟩ | ⟨-, -, heq⟩ | ⟨-, -, heq⟩ <;> rw [heq] at hseen ⊢
  · exact ⟨hnodes List.filter_sublist, h.replacements, hseen⟩
  · exact ⟨hnodes (.refl _), h.replacements.sublist List.filter_sublist, hseen⟩
  · refine ⟨h.nodes, List.Pairwise.sublist (List.take_sublist ..) ?_, hseen⟩
    refine List.pairwise_cons.mpr ⟨fun other hother => ?_,
      h.replacements.sublist List.filter_sublist⟩
    exact h.seen other (List.mem_append_right _ (mem_of_mem_dropId hother))

theorem settlePing (h : bucket.Ordered now moved) (id : Id) :
    (bucket.settlePing id).Ordered now moved := by
  refine h.of_sublist ?_ ?_
  · rw [nodes_settlePing]
  · rw [replacements_settlePing]

theorem remove (h : bucket.Ordered now moved) (id : Id) : (bucket.remove id).Ordered now moved :=
  h.of_sublist List.filter_sublist (.refl _)

/-- A replacement that moves up may stand before all others, for nobody was heard of since. -/
theorem promote (h : bucket.Ordered now moved)
    (hmoved : ∀ contact, bucket.promote.2 = some contact → (now, contact) ∈ moved) :
    bucket.promote.1.Ordered now moved := by
  cases hrepl : bucket.replacements with
  | nil =>
    rw [promote_of_nil hrepl]
    exact h
  | cons entry rest =>
    have hperm := bucket.known_promote_perm
    have hrest := h.replacements
    rw [promote_of_cons hrepl] at hmoved hperm ⊢
    rw [hrepl] at hrest
    refine ⟨List.pairwise_cons.mpr ⟨fun other hother => ?_, h.nodes⟩, hrest.of_cons,
      fun other hother => h.seen other (hperm.subset hother)⟩
    exact .inr ⟨now, hmoved _ rfl, h.seen other (List.mem_append_left _ hother)⟩

theorem evict (h : bucket.Ordered now moved)
    (hmoved : ∀ contact, (bucket.evict id).2 = some contact → (now, contact) ∈ moved) :
    (bucket.evict id).1.Ordered now moved := by
  rcases bucket.evict_cases id with ⟨-, heq⟩ | ⟨-, heq⟩ <;> rw [heq] at hmoved ⊢
  · exact ((h.settlePing id).remove id).promote hmoved
  · exact h.settlePing id

theorem restrict (h : bucket.Ordered now moved) (keep : Id → Bool) :
    (bucket.restrict keep).Ordered now moved :=
  h.of_sublist List.filter_sublist List.filter_sublist

end Ordered

end Bucket

/-! ### Tables -/

namespace RoutingTable

variable {table : RoutingTable} {bucket : Bucket} {id : Id} {contact suspect : Contact}
  {now later : Time} {moved others : List (Time × Contact)}

/-- All buckets are in order. -/
def Ordered (now : Time) (moved : List (Time × Contact)) (table : RoutingTable) : Prop :=
  ∀ bucket ∈ table.buckets, bucket.Ordered now moved

theorem ordered_new (own : Id) (start now : Time) (moved : List (Time × Contact)) :
    (new own start).Ordered now moved := by
  intro bucket hbucket
  obtain rfl : bucket = .empty start := List.mem_singleton.mp hbucket
  exact Bucket.ordered_empty start now moved

namespace Ordered

theorem mono (h : table.Ordered now moved) (hle : now ≤ later) (hmoved : moved ⊆ others) :
    table.Ordered later others := fun bucket hbucket => (h bucket hbucket).mono hle hmoved

theorem bucketOf (h : table.Ordered now moved) (id : Id) : (table.bucketOf id).Ordered now moved :=
  h _ (table.bucketOf_mem id)

theorem putBucket (h : table.Ordered now moved) (hbucket : bucket.Ordered now moved) :
    (table.putBucket id bucket).Ordered now moved := by
  intro other hother
  rcases mem_buckets_of_putBucket hother with rfl | hother
  · exact hbucket
  · exact h other hother

theorem touch (h : table.Ordered now moved) (id : Id) (used : Time) :
    (table.touch id used).Ordered now moved :=
  h.putBucket ((h.bucketOf id).of_sublist (.refl _) (.refl _))

theorem splitFor (h : table.Ordered now moved) (id : Id) (used : Time) :
    (table.splitFor id used).Ordered now moved := by
  have htouched := h.touch id used
  have hlast := htouched _ (List.mem_append_right _ (List.mem_singleton_self _))
  intro bucket hbucket
  rw [RoutingTable.splitFor, buckets_splitLast, List.mem_append, List.mem_cons,
    List.mem_singleton] at hbucket
  rcases hbucket with hbucket | rfl | rfl
  · exact htouched bucket (List.mem_append_left _ hbucket)
  · exact hlast.restrict _
  · exact hlast.restrict _

theorem update (h : table.Ordered now moved) (contact : Contact) :
    (table.update contact now).1.Ordered now moved := by
  induction table using update_induction contact now with
  | ignored table _ hupdate =>
    rw [hupdate]
    exact h
  | split table _ hupdate ih =>
    rw [hupdate]
    exact ih (h.splitFor contact.id now)
  | settled table _ _ hupdate =>
    rw [hupdate]
    have hbucket : (table.bucketOf contact.id).Ordered (Entry.mk contact now).lastSeen moved :=
      h.bucketOf contact.id
    exact h.putBucket hbucket.offer

end Ordered

/-! ### Histories -/

/-- The contact that moved up by an operation, and when. -/
def promotion? : Event × Answer → Option (Time × Contact)
  | ((now, _), .evicted (some contact)) => some (now, contact)
  | _ => none

/-- The contacts that moved up in a history into the place of others, and when. -/
def promotions (events : List Event) (answers : List Answer) : List (Time × Contact) :=
  (events.zip answers).filterMap promotion?

theorem promotions_cons (event : Event) (events : List Event) (answer : Answer)
    (answers : List Answer) : promotions (event :: events) (answer :: answers) =
      (promotion? (event, answer)).toList ++ promotions events answers := by
  rw [promotions, List.zip_cons_cons, List.filterMap_cons]
  cases promotion? (event, answer) <;> rfl

/-- Every operation keeps the order, and notes who moves up by it. -/
theorem Ordered.perform (h : table.Ordered now moved) (hle : now ≤ later)
    (operation : Operation) : (table.perform later operation).1.Ordered later
      (moved ++ (promotion? ((later, operation), (table.perform later operation).2)).toList) := by
  have hnoted : table.Ordered later (moved ++
      (promotion? ((later, operation), (table.perform later operation).2)).toList) :=
    h.mono hle (List.subset_append_left ..)
  cases operation with
  | update contact => exact hnoted.update contact
  | evict id =>
    refine hnoted.putBucket ((hnoted.bucketOf id).evict fun contact hpromoted => ?_)
    have hanswer : (table.perform later (.evict id)).2 = .evicted (some contact) :=
      congrArg Answer.evicted hpromoted
    rw [hanswer]
    exact List.mem_append_right _ (List.mem_singleton_self _)
  | pingAnswered id => exact hnoted.putBucket ((hnoted.bucketOf id).settlePing id)
  | remove id => exact hnoted.putBucket ((hnoted.bucketOf id).remove id)
  | touch id => exact hnoted.touch id later

/-- At non-decreasing times every history keeps the order. -/
theorem Ordered.run {events : List Event} (h : table.Ordered now moved)
    (htimes : (now :: events.map Prod.fst).Pairwise (· ≤ ·)) :
    ∃ last, last ∈ now :: events.map Prod.fst ∧
      (table.run events).1.Ordered last (moved ++ promotions events (table.run events).2) := by
  induction events generalizing table now moved with
  | nil =>
    refine ⟨now, List.mem_cons_self, ?_⟩
    simpa [RoutingTable.run, Operation.runWith, promotions] using h
  | cons event events ih =>
    obtain ⟨hfirst, hrest⟩ := List.pairwise_cons.mp htimes
    have hstep := h.perform (hfirst event.1 List.mem_cons_self) event.2
    obtain ⟨last, hlast, hrun⟩ := ih hstep hrest
    refine ⟨last, List.mem_cons_of_mem _ hlast, ?_⟩
    rw [List.append_assoc] at hrun
    rw [show (table.run (event :: events)).2 = (table.perform event.1 event.2).2 ::
      ((table.perform event.1 event.2).1.run events).2 from rfl, promotions_cons]
    exact hrun

/-- Only who has moved up since is staler than the contact that an update wants pinged. -/
theorem Ordered.precedes_suspect (h : table.Ordered now moved) (hwf : table.WellFormed)
    (hfull : (table.update contact now).2 = .full (some suspect)) :
    ∃ stalest ∈ ((table.update contact now).1.bucketOf suspect.id).nodes,
      stalest.contact = suspect ∧
        ∀ other ∈ ((table.update contact now).1.bucketOf suspect.id).nodes,
          other.Precedes moved stalest := by
  have hsuspect : (table.update contact now).2.suspect? = some suspect := by
    rw [hfull]
    rfl
  obtain ⟨stalest, hlast, rfl⟩ := Option.map_eq_some_iff.mp (getLast?_of_suspect hsuspect).2
  have hmem := List.mem_of_getLast? hlast
  -- The contact that is pinged and the one that was heard of have the same bucket.
  have hbucket := (hwf.update contact now).eq_bucketOf (bucketOf_mem _ contact.id)
    (.inl (List.mem_map_of_mem hmem))
  have hordered := ((h.update contact).bucketOf contact.id).nodes
  obtain ⟨front, hnodes⟩ := List.getLast?_eq_some_iff.mp hlast
  rw [hnodes, List.pairwise_append] at hordered
  have hid : stalest.contact.id = stalest.id := rfl
  rw [hid, ← hbucket]
  refine ⟨stalest, hmem, rfl, fun other hother => ?_⟩
  rw [hnodes, List.mem_append, List.mem_singleton] at hother
  rcases hother with hother | rfl
  · exact hordered.2.2 other hother stalest (List.mem_singleton_self _)
  · exact other.precedes_refl moved

/-- **Freshest first, but for those that moved up.** At non-decreasing times, replacements are in
the order in which they were heard of, the latest first, and so are contacts, except that one that
took the place of another may stand before those that were heard of since. So whenever an update
wants a contact pinged, no contact of its bucket was heard of earlier, unless that one has moved up
since the other was heard of. -/
theorem freshness_run (own : Id) (start : Time) (events : List Event)
    (htimes : (events.map Prod.fst).Pairwise (· ≤ ·)) :
    let ran := (new own start).run events
    let moved := promotions events ran.2
    (∀ bucket ∈ ran.1.buckets, bucket.nodes.Pairwise (Entry.Precedes moved) ∧
      bucket.replacements.Pairwise fun a b => b.lastSeen ≤ a.lastSeen) ∧
    ∀ contact now suspect, (∀ event ∈ events, event.1 ≤ now) →
      (ran.1.update contact now).2 = .full (some suspect) →
        ∃ stalest ∈ ((ran.1.update contact now).1.bucketOf suspect.id).nodes,
          stalest.contact = suspect ∧
            ∀ other ∈ ((ran.1.update contact now).1.bucketOf suspect.id).nodes,
              other.Precedes moved stalest := by
  intro ran moved
  have hstart : (0 :: events.map Prod.fst).Pairwise (· ≤ ·) :=
    List.pairwise_cons.mpr ⟨fun time _ => Nat.zero_le time, htimes⟩
  obtain ⟨last, hlast, hordered⟩ := (ordered_new own start 0 []).run hstart
  rw [List.nil_append] at hordered
  refine ⟨fun bucket hbucket => ?_, fun contact now suspect hnow hfull => ?_⟩
  · exact ⟨(hordered bucket hbucket).nodes, (hordered bucket hbucket).replacements⟩
  · have hle : last ≤ now := by
      rcases List.mem_cons.mp hlast with rfl | hlast
      · exact Nat.zero_le now
      · obtain ⟨event, hevent, rfl⟩ := List.mem_map.mp hlast
        exact hnow event hevent
    exact (hordered.mono hle (List.Subset.refl _)).precedes_suspect
      (wellFormed_run own start events) hfull

/-- A contact of the first bucket of a table around zero. -/
def farContact (number : Nat) : Contact :=
  ⟨⟨BitVec.ofNat _ (2 ^ 383 + number)⟩, ⟨⟨10, 0, 0, 2⟩, 4444⟩⟩

/-- A bucket is filled and another contact, number 20, has to wait. All contacts but the first are
heard of again, and the first is given up. -/
def overtaking : List Event :=
  (List.range 21).map (fun number => (0, .update (farContact number))) ++
    (List.range' 1 19).map (fun number => (10, .update (farContact number))) ++
    [(10, .evict (farContact 0).id)]

/-- Number 20 has moved up, so it may be staler than the contact that is pinged next. -/
theorem freshness_run_of_overtaking :
    let ran := (new .zero 0).run overtaking
    (overtaking.map Prod.fst).Pairwise (· ≤ ·) ∧ (∀ event ∈ overtaking, event.1 ≤ 10) ∧
      (ran.1.update (farContact 21) 10).2 = .full (some (farContact 1)) ∧
      ∃ stalest ∈ ((ran.1.update (farContact 21) 10).1.bucketOf (farContact 1).id).nodes,
        stalest.contact = farContact 1 ∧
          ∀ other ∈ ((ran.1.update (farContact 21) 10).1.bucketOf (farContact 1).id).nodes,
            other.Precedes (promotions overtaking ran.2) stalest := by
  intro ran
  have htimes : (overtaking.map Prod.fst).Pairwise (· ≤ ·) := by decide +kernel
  have hnow : ∀ event ∈ overtaking, event.1 ≤ 10 := by decide +kernel
  have hfull : (ran.1.update (farContact 21) 10).2 = .full (some (farContact 1)) := by
    decide +kernel
  exact ⟨htimes, hnow, hfull,
    (freshness_run .zero 0 overtaking htimes).2 (farContact 21) 10 (farContact 1) hnow hfull⟩

/-- And it is: the contact that is pinged next was heard of at the instant 10, number 20 of the same
bucket at the instant 0. -/
theorem promotion_overtakes :
    let table := ((new .zero 0).run overtaking).1
    let bucket := (table.update (farContact 21) 10).1.bucketOf (farContact 1).id
    (overtaking.map Prod.fst).Pairwise (· ≤ ·) ∧
      ¬ (table.bucketOf (farContact 1).id).nodes.Pairwise (fun a b => b.lastSeen ≤ a.lastSeen) ∧
      (table.update (farContact 21) 10).2 = .full (some (farContact 1)) ∧
      ⟨farContact 1, 10⟩ ∈ bucket.nodes ∧ ⟨farContact 20, 0⟩ ∈ bucket.nodes := by
  decide +kernel

end RoutingTable

end Kademlia
