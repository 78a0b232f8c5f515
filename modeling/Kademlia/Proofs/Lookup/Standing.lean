import Kademlia.Proofs.Lookup.Result
import Mathlib.Algebra.Ring.Nat

/-!
# Kademlia.Proofs.Lookup.Standing

Where the contacts stand that a query comes to. An id of the result has sent an answer, or it was
never handed out; and if the query is done, the latter are those that were too far away when the
last round was handed out, or that were heard of only afterwards (`Query.Overlooked`). A query is
done in the end because it hands out nobody twice and there are so many ids and no more.
-/

namespace Kademlia

/-- There are no more ids than numbers of as many bits. -/
theorem Id.length_le_of_nodup {ids : List Id} (h : ids.Nodup) : ids.length ≤ 2 ^ width := by
  have hnumbers : (ids.map toNat).Nodup := h.map fun _ _ => toNat_inj.mp
  have hrange : ids.map toNat ⊆ List.range (2 ^ width) := by
    intro number hnumber
    obtain ⟨id, -, rfl⟩ := List.mem_map.mp hnumber
    exact List.mem_range.mpr id.bits.isLt
  have hlength := (hnumbers.subperm hrange).length_le
  rwa [List.length_map, List.length_range] at hlength

namespace Query

variable {target : Id} {seeds : List Contact} {calls before after : List Call} {contact : Contact}

theorem target_run (query : Query) (calls : List Call) :
    (query.run calls).2.target = query.target := by
  rw [Query.target, known_run, Ranking.target_insertAll]
  rfl

/-- A query that was asked for more rounds than there are ids is done. -/
theorem isDone_of_lt_length
    (h : 2 ^ Id.width < ((new target seeds).run calls).1.length) :
    ((new target seeds).run calls).2.isDone = true := by
  refine (isDone_run_iff (new target seeds) calls).mpr (.inr ?_)
  by_contra hnone
  have hfull : ((new target seeds).run calls).1.filter (· ≠ []) =
      ((new target seeds).run calls).1 := by
    refine List.filter_eq_self.mpr fun round hround => decide_eq_true ?_
    rintro rfl
    exact hnone hround
  have hrounds := length_filter_ne_nil_le ((new target seeds).run calls).1
  have hids := Id.length_le_of_nodup ((sane_new target seeds).run calls).nodup
  rw [hfull] at hrounds
  rw [visited_run_new] at hids
  exact absurd h (Nat.not_lt.mpr (Nat.le_trans hrounds hids))

/-- An id that was never handed out, and that was not among the twenty closest that were heard of
before the last round that was not empty. -/
structure Overlooked (target : Id) (seeds : List Contact) (calls : List Call) (id : Id) : Prop where
  unasked : id ∉ handed ((new target seeds).run calls).1
  late : ∀ before after, calls = before ++ .nextRound :: after →
    let query := ((new target seeds).run before).2
    query.nextRound.1 ≠ [] → (∀ round ∈ (query.nextRound.2.run after).1, round = []) →
      id ∉ (Id.closestFirst target (observed seeds before)).take wanted

/-- Once the query is done, whoever was not handed out has been overlooked. -/
theorem overlooked_of_not_mem_handed {id : Id}
    (hdone : ((new target seeds).run calls).2.isDone = true)
    (hid : id ∉ handed ((new target seeds).run calls).1) : Overlooked target seeds calls id := by
  refine ⟨hid, ?_⟩
  rintro before after rfl query hround hrounds hclosest
  have hsane : query.Sane := (sane_new target seeds).run before
  have hascending : Id.Ascending query.nextRound.2.target query.known.ids := by
    simpa using hsane.ascending
  have howes := (hsane.owes hround).run hsane.nextRound hascending after hrounds
  have hlast : ((new target seeds).run (before ++ .nextRound :: after)).2 =
      (query.nextRound.2.run after).2 := by
    rw [run_append]
    rfl
  have hsettled : (query.nextRound.2.run after).2.phase ≠ .searching := by
    rw [hlast] at hdone
    simp_all [isDone]
  rw [← ids_known_run_new] at hclosest
  rw [← visited_run_new, hlast] at hid
  exact hid (howes.settled hsettled hclosest)

/-- **Where the contacts of the result stand**: an answer bore their id, or they were overlooked. -/
theorem standing_of_mem_closest (hdone : ((new target seeds).run calls).2.isDone = true)
    (h : contact ∈ ((new target seeds).run calls).2.closest) :
    (∃ sender ∈ senders calls, sender.id = contact.id) ∨
      Overlooked target seeds calls contact.id := by
  have hkept := List.of_mem_filter (List.mem_of_mem_take h)
  by_cases hvisited : contact.id ∈ handed ((new target seeds).run calls).1
  · rw [← visited_run_new] at hvisited
    have hresponded : contact.id ∈ ((new target seeds).run calls).2.responders.ids := by
      simpa [isVisited, hvisited, hasResponded_iff] using hkept
    rw [ids_responders_run_new, Id.mem_closestFirst] at hresponded
    exact .inl (List.mem_map.mp hresponded)
  · exact .inr (overlooked_of_not_mem_handed hdone hvisited)

end Query

end Kademlia
