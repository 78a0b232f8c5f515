import Kademlia.Proofs.Lookup.Calls
import Mathlib.Data.List.Perm.Subperm

/-!
# Kademlia.Proofs.Lookup.Rounds

How a query proceeds, whatever it is told and whenever rounds are asked for: it makes progress,
hands out nobody twice, and comes to an end. `Query.Proceeds` lists what that means, and
`Query.proceeds_run` says that every query does.

Two invariants carry the proof. `Query.Sane` says that who was handed out is known, and was handed
out once. `Query.Owes` is about the ids that are known when a round is handed out: if no further
round is, the closest of them have all been handed out in the end. While the query searches, they
may still be displaced by closer ids that answers report; but the ids that were reported since have
not been handed out, so a query that finds nobody left among the closest finds none of them there.
-/

namespace Kademlia

namespace Query

variable {query : Query} {target : Id} {seeds : List Contact} {calls before after : List Call}
  {first : List Id}

/-! ### The end of a query -/

theorem nextRound_of_phase_ne (h : query.phase ≠ .searching) :
    query.nextRound = ([], { query with phase := .done }) := by
  rcases query.nextRound_cases with ⟨hphase, -, -⟩ | ⟨-, heq⟩
  · exact absurd hphase h
  · exact heq

/-- A query is done when it hands out nobody. -/
theorem isDone_nextRound_iff (query : Query) :
    query.nextRound.2.isDone = true ↔ query.nextRound.1 = [] := by
  rcases query.nextRound_cases with ⟨-, hne, heq⟩ | ⟨-, heq⟩
  · rw [heq]
    simp only [isDone, visit, hne, iff_false]
    split <;> simp
  · simp [heq, isDone]

theorem isDone_run_iff (query : Query) (calls : List Call) :
    (query.run calls).2.isDone = true ↔ query.isDone = true ∨ [] ∈ (query.run calls).1 := by
  induction calls generalizing query with
  | nil => simp
  | cons call calls ih =>
    cases call with
    | nextRound =>
      have hdone : query.isDone = true → query.nextRound.1 = [] := by
        intro h
        rw [nextRound_of_phase_ne]
        simp_all [isDone]
      simp only [run_nextRound, ih, isDone_nextRound_iff, List.mem_cons, eq_comm (a := [])]
      tauto
    | addResponse answer => exact ih (query.addResponse answer.sender answer.named)

/-- A query that does not search any more hands out nobody. -/
theorem eq_nil_of_phase_ne (h : query.phase ≠ .searching) (calls : List Call) :
    ∀ round ∈ (query.run calls).1, round = [] := by
  induction calls generalizing query with
  | nil => simp
  | cons call calls ih =>
    cases call with
    | nextRound =>
      rw [run_nextRound, nextRound_of_phase_ne h]
      exact List.forall_mem_cons.mpr ⟨rfl, ih (by simp)⟩
    | addResponse answer =>
      rw [run_addResponse]
      exact ih h

/-- Answers alone hand out nobody and leave the search where it is. -/
theorem run_map_addResponse (query : Query) (given : List Answer) :
    (query.run (given.map .addResponse)).1 = [] ∧
      (query.run (given.map .addResponse)).2.phase = query.phase ∧
      (query.run (given.map .addResponse)).2.bestBefore = query.bestBefore := by
  induction given generalizing query with
  | nil => exact ⟨rfl, rfl, rfl⟩
  | cons answer given ih => exact ih (query.addResponse answer.sender answer.named)

/-! ### Who was handed out -/

/-- The known ids are ranked, and who was handed out is known and was handed out once. -/
structure Sane (query : Query) : Prop where
  ascending : Id.Ascending query.target query.known.ids
  nodup : query.visited.Nodup
  known : query.visited ⊆ query.known.ids

theorem sane_new (target : Id) (seeds : List Contact) : (new target seeds).Sane where
  ascending := by
    have haim : (new target seeds).target = target := target_run_new target seeds []
    rw [haim]
    exact Ranking.ascending_ids.mpr (Ranking.sorted_ofList target seeds)
  nodup := List.nodup_nil
  known := List.nil_subset _

namespace Sane

theorem addResponse (h : query.Sane) (sender : Contact) (named : List Contact) :
    (query.addResponse sender named).Sane := by
  refine ⟨?_, h.nodup, fun id hid => ?_⟩
  · rw [target_addResponse, known_addResponse]
    exact Ranking.ascending_ids.mpr
      (Ranking.sorted_insertAll query.known _ (Ranking.ascending_ids.mp h.ascending))
  · rw [known_addResponse, Ranking.mem_ids_insertAll]
    exact .inl (h.known hid)

theorem nextRound (h : query.Sane) : query.nextRound.2.Sane := by
  have hfront := query.candidates_prefix.sublist
  have hsublist : (query.candidates.map Contact.id).Sublist query.known.ids :=
    (hfront.trans List.filter_sublist).map _
  refine ⟨?_, ?_, ?_⟩
  · rw [target_nextRound, known_nextRound]
    exact h.ascending
  · rw [visited_nextRound]
    rcases query.nextRound_cases with ⟨-, -, heq⟩ | ⟨-, heq⟩ <;> rw [heq]
    · refine List.nodup_append'.mpr ⟨h.nodup, h.ascending.nodup.sublist hsublist, ?_⟩
      intro id hvisited hid
      obtain ⟨contact, hcontact, rfl⟩ := List.mem_map.mp hid
      have hout := List.of_mem_filter (hfront.subset hcontact)
      simp [isVisited, hvisited] at hout
    · simpa using h.nodup
  · rw [visited_nextRound, known_nextRound]
    rcases query.nextRound_cases with ⟨-, -, heq⟩ | ⟨-, heq⟩ <;> rw [heq]
    · exact List.append_subset.mpr ⟨h.known, hsublist.subset⟩
    · simpa using h.known

theorem run (h : query.Sane) (calls : List Call) : (query.run calls).2.Sane := by
  induction calls generalizing query with
  | nil => exact h
  | cons call calls ih =>
    cases call with
    | nextRound => exact ih h.nextRound
    | addResponse answer => exact ih (h.addResponse answer.sender answer.named)

end Sane

/-! ### What is owed to those that were known -/

/-- As long as the query searches, it hands out nobody but ids of `first` and does not forget them;
afterwards the closest of them have been handed out. -/
structure Owes (first : List Id) (query : Query) : Prop where
  searching : query.phase = .searching → first ⊆ query.known.ids ∧ query.visited ⊆ first
  settled : query.phase ≠ .searching → first.take wanted ⊆ query.visited

/-- Whoever is known when a round is handed out is owed. -/
theorem Sane.owes (h : query.Sane) (hround : query.nextRound.1 ≠ []) :
    query.nextRound.2.Owes query.known.ids := by
  have hnext := h.nextRound
  rcases query.nextRound_cases with ⟨-, -, heq⟩ | ⟨-, heq⟩
  · rw [heq] at hnext ⊢
    refine ⟨fun _ => ⟨List.Subset.refl _, hnext.known⟩, fun hphase id hid => ?_⟩
    have hconverged : query.hasConverged = true := by
      simp only [visit] at hphase
      split at hphase
      · assumption
      · exact absurd rfl hphase
    rw [Ranking.ids, ← List.map_take] at hid
    obtain ⟨contact, hcontact, rfl⟩ := List.mem_map.mp hid
    rw [visit, List.mem_append]
    by_cases hvisited : contact.id ∈ query.visited
    · exact .inl hvisited
    · refine .inr (List.mem_map_of_mem ?_)
      rw [candidates, if_pos hconverged, List.mem_filter]
      exact ⟨hcontact, by simpa [isVisited] using hvisited⟩
  · rw [heq] at hround
    exact absurd rfl hround

namespace Owes

theorem addResponse (h : query.Owes first) (sender : Contact) (named : List Contact) :
    (query.addResponse sender named).Owes first where
  searching := by
    intro hphase
    obtain ⟨hfirst, hvisited⟩ := h.searching hphase
    refine ⟨fun id hid => ?_, hvisited⟩
    rw [known_addResponse, Ranking.mem_ids_insertAll]
    exact .inl (hfirst hid)
  settled := h.settled

/-- Whoever has displaced one of them has not been handed out, so a query that is left without
candidates has not let any of them be displaced. -/
theorem nextRound (h : query.Owes first) (hsane : query.Sane)
    (hascending : Id.Ascending query.target first) (hround : query.nextRound.1 = []) :
    query.nextRound.2.Owes first := by
  have hdone : query.nextRound.2.phase = .done := by
    simpa [isDone] using (isDone_nextRound_iff query).mpr hround
  refine ⟨fun hphase => absurd (hdone.symm.trans hphase) (by simp), fun _ => ?_⟩
  rw [visited_nextRound, hround, List.map_nil, List.append_nil]
  by_cases hphase : query.phase = .searching
  · obtain ⟨hfirst, hvisited⟩ := h.searching hphase
    have hnone : query.candidates = [] := by
      rcases query.nextRound_cases with ⟨-, hne, heq⟩ | ⟨hnone, -⟩
      · rw [heq] at hround
        exact absurd hround hne
      · exact hnone hphase
    have htaken : query.known.ids.take wanted ⊆ query.visited := fun id hid =>
      mem_visited_of_candidates_eq_nil hnone hid
    have hclosest :=
      hascending.take_subset hsane.ascending hfirst (List.Subset.trans htaken hvisited)
    exact List.Subset.trans hclosest htaken
  · exact h.settled hphase

theorem run (h : query.Owes first) (hsane : query.Sane)
    (hascending : Id.Ascending query.target first) (calls : List Call)
    (hrounds : ∀ round ∈ (query.run calls).1, round = []) : (query.run calls).2.Owes first := by
  induction calls generalizing query with
  | nil => exact h
  | cons call calls ih =>
    cases call with
    | nextRound =>
      obtain ⟨hround, hrest⟩ := List.forall_mem_cons.mp hrounds
      have hascending' : Id.Ascending query.nextRound.2.target first := by simpa using hascending
      exact ih (h.nextRound hsane hascending hround) hsane.nextRound hascending' hrest
    | addResponse answer =>
      have hascending' :
          Id.Ascending (query.addResponse answer.sender answer.named).target first := by
        simpa using hascending
      exact ih (h.addResponse answer.sender answer.named)
        (hsane.addResponse answer.sender answer.named) hascending' hrounds

end Owes

/-! ### Single rounds -/

/-- A round of more than three is the last. -/
theorem length_nextRound_le (query : Query) (calls : List Call) :
    query.nextRound.1.length ≤ lookupWidth ∨
      query.nextRound.1.length ≤ wanted ∧
        ∀ round ∈ (query.nextRound.2.run calls).1, round = [] := by
  rcases query.nextRound_cases with ⟨-, -, heq⟩ | ⟨-, heq⟩ <;> rw [heq]
  · refine query.length_candidates_le.imp_right fun ⟨hconverged, hlength⟩ => ⟨hlength, ?_⟩
    exact eq_nil_of_phase_ne (by simp [visit, hconverged]) calls
  · exact .inl (Nat.zero_le _)

theorem ids_nextRound_prefix (query : Query) :
    query.nextRound.1.map Contact.id <+: query.known.ids.filter (· ∉ query.visited) := by
  rw [Ranking.ids, ← map_id_filter_unvisited]
  rcases query.nextRound_cases with ⟨-, -, heq⟩ | ⟨-, heq⟩ <;> rw [heq]
  · exact query.candidates_prefix.map _
  · exact List.nil_prefix

theorem nextRound_ne_nil (hphase : query.phase = .searching) (hvisited : query.visited = [])
    (hknown : query.known.ids ≠ []) : query.nextRound.1 ≠ [] := by
  rcases query.nextRound_cases with ⟨-, hne, heq⟩ | ⟨hnone, -⟩
  · rwa [heq]
  · obtain ⟨id, rest, hids⟩ := List.exists_cons_of_ne_nil hknown
    have hid : id ∈ query.known.ids.take wanted := by simp [hids, wanted, Bucket.capacity]
    have hmem := mem_visited_of_candidates_eq_nil (hnone hphase) hid
    exact absurd hmem (hvisited ▸ List.not_mem_nil)

theorem best?_eq_head? (query : Query) : query.best? = query.known.ids.head? := by
  rw [best?, Ranking.best?, Ranking.ids, List.head?_map]

theorem isSome_best?_of_candidates_ne_nil (h : query.candidates ≠ []) :
    query.best?.isSome = true := by
  obtain ⟨contact, rest, hcandidates⟩ := List.exists_cons_of_ne_nil h
  have hmem : contact ∈ query.known.contacts := List.mem_of_mem_filter
    (query.candidates_prefix.subset (hcandidates ▸ List.mem_cons_self))
  rw [best?, Option.isSome_map, Ranking.best?, List.isSome_head?]
  exact List.ne_nil_of_mem hmem

/-- If the answers to a round bring nobody closer, the next round is the last. -/
theorem eq_nil_of_best?_eq (query : Query) (given : List Answer)
    (hbest : (query.nextRound.2.run (given.map .addResponse)).2.best? = query.best?)
    (calls : List Call) :
    ∀ round ∈ ((query.nextRound.2.run (given.map .addResponse)).2.nextRound.2.run calls).1,
      round = [] := by
  obtain ⟨-, hphase, hbefore⟩ := run_map_addResponse query.nextRound.2 given
  generalize (query.nextRound.2.run (given.map .addResponse)).2 = answered at hbest hphase hbefore ⊢
  refine eq_nil_of_phase_ne ?_ calls
  rcases query.nextRound_cases with ⟨-, hne, heq⟩ | ⟨-, heq⟩ <;> rw [heq] at hphase hbefore
  · have hsome := isSome_best?_of_candidates_ne_nil hne
    have hconverged : answered.hasConverged = true := by
      rw [hasConverged, hbefore, hbest]
      simp [visit, hsome]
    rcases answered.nextRound_cases with ⟨-, -, heq⟩ | ⟨-, heq⟩ <;> rw [heq]
    · simp [visit, hconverged]
    · simp
  · rw [nextRound_of_phase_ne (by simp [hphase])]
    simp

/-! ### All rounds -/

theorem length_filter_ne_nil_le (rounds : List (List Contact)) :
    (rounds.filter (· ≠ [])).length ≤ (handed rounds).length := by
  induction rounds with
  | nil => simp
  | cons round rounds ih =>
    cases round with
    | nil => simpa using ih
    | cons contact rest =>
      simp only [ne_eq, reduceCtorEq, not_false_eq_true, decide_true, List.filter_cons_of_pos,
        List.length_cons, handed_cons, List.map_cons, List.length_append, List.length_map] at ih ⊢
      omega

/-- How a query for a target, that starts from the seeds, proceeds with the calls. -/
structure Proceeds (target : Id) (seeds : List Contact) (calls : List Call) : Prop where
  /-- Nobody is handed out twice. -/
  once : (handed ((new target seeds).run calls).1).Nodup
  /-- A round consists of the closest that were heard of and not handed out yet. -/
  closest : ∀ before after, calls = before ++ .nextRound :: after →
    ((new target seeds).run before).2.nextRound.1.map Contact.id <+:
      (Id.closestFirst target (observed seeds before)).filter
        (· ∉ handed ((new target seeds).run before).1)
  /-- A round is of three at most, and the last one of twenty at most. -/
  width : ∀ before after, calls = before ++ .nextRound :: after →
    let query := ((new target seeds).run before).2
    query.nextRound.1.length ≤ lookupWidth ∨
      query.nextRound.1.length ≤ wanted ∧ ∀ round ∈ (query.nextRound.2.run after).1, round = []
  /-- The first round is not empty if anybody was heard of. -/
  starts : ∀ (given : List Answer) after, calls = given.map .addResponse ++ .nextRound :: after →
    observed seeds (given.map .addResponse) ≠ [] →
      ((new target seeds).run (given.map .addResponse)).2.nextRound.1 ≠ []
  /-- If the answers to a round leave the closest id that was heard of what it was before the round,
  one more round is not empty at most. -/
  settles : ∀ before (given : List Answer) after,
    calls = before ++ .nextRound :: (given.map .addResponse ++ .nextRound :: after) →
    let query := ((new target seeds).run before).2
    (Id.closestFirst target (observed seeds before)).head? =
        (Id.closestFirst target
          (observed seeds (before ++ .nextRound :: given.map .addResponse))).head? →
      ∀ round ∈ ((query.nextRound.2.run (given.map .addResponse)).2.nextRound.2.run after).1,
        round = []
  /-- No more rounds are not empty than ids were heard of. -/
  bounded : (((new target seeds).run calls).1.filter (· ≠ [])).length ≤
    (observed seeds calls).dedup.length
  /-- Asked for more rounds than that, the query is done. -/
  exhausted : (observed seeds calls).dedup.length < ((new target seeds).run calls).1.length →
    ((new target seeds).run calls).2.isDone = true
  /-- It is done when it has handed out an empty round. -/
  done_iff : ((new target seeds).run calls).2.isDone = true ↔ [] ∈ ((new target seeds).run calls).1
  /-- It stays done, and hands out nobody from then on. -/
  stays : ∀ before after, calls = before ++ after →
    ((new target seeds).run before).2.isDone = true →
      ((new target seeds).run calls).2.isDone = true ∧
        ∀ round ∈ (((new target seeds).run before).2.run after).1, round = []
  /-- When it is done, the closest that were heard of before the last round that was not empty have
  been handed out. -/
  covers : ∀ before after, calls = before ++ .nextRound :: after →
    let query := ((new target seeds).run before).2
    query.nextRound.1 ≠ [] → (∀ round ∈ (query.nextRound.2.run after).1, round = []) →
      ((new target seeds).run calls).2.isDone = true →
        (Id.closestFirst target (observed seeds before)).take wanted ⊆
          handed ((new target seeds).run calls).1

/-- The ids handed out are some of those that were heard of. -/
theorem length_handed_le (target : Id) (seeds : List Contact) (calls : List Call) :
    (handed ((new target seeds).run calls).1).length ≤ (observed seeds calls).dedup.length := by
  have hsane := (sane_new target seeds).run calls
  have hsubset := hsane.known
  rw [ids_known_run_new] at hsubset
  rw [← visited_run_new]
  refine (hsane.nodup.subperm fun id hid => ?_).length_le
  exact List.mem_dedup.mpr (Id.mem_closestFirst.mp (hsubset hid))

/-- **A lookup makes progress, never repeats and ends**, whoever answers what and whenever rounds
are asked for. -/
theorem proceeds_run (target : Id) (seeds : List Contact) (calls : List Call) :
    Proceeds target seeds calls := by
  have hbounded := Nat.le_trans (length_filter_ne_nil_le ((new target seeds).run calls).1)
    (length_handed_le target seeds calls)
  have hdone : ((new target seeds).run calls).2.isDone = true ↔
      [] ∈ ((new target seeds).run calls).1 := by
    rw [isDone_run_iff]
    simp [new, isDone]
  refine ⟨?_, ?_, ?_, ?_, ?_, hbounded, ?_, hdone, ?_, ?_⟩
  · rw [← visited_run_new]
    exact ((sane_new target seeds).run calls).nodup
  · intro before after _
    rw [← ids_known_run_new, ← visited_run_new]
    exact ids_nextRound_prefix _
  · intro before after _
    exact length_nextRound_le _ after
  · intro given after _ hobserved
    obtain ⟨hrounds, hphase, -⟩ := run_map_addResponse (new target seeds) given
    refine nextRound_ne_nil hphase ?_ ?_
    · rw [visited_run_new, hrounds]
      rfl
    · rw [ids_known_run_new]
      obtain ⟨id, hid⟩ := List.exists_mem_of_ne_nil _ hobserved
      exact List.ne_nil_of_mem (Id.mem_closestFirst.mpr hid)
  · intro before given after _ query hhead
    refine query.eq_nil_of_best?_eq given ?_ after
    have hanswered : (query.nextRound.2.run (given.map .addResponse)).2 =
        ((new target seeds).run (before ++ .nextRound :: given.map .addResponse)).2 := by
      rw [run_append]
      rfl
    rw [hanswered, best?_eq_head?, best?_eq_head?, ids_known_run_new, ids_known_run_new, hhead]
  · intro hlength
    by_contra hnot
    have hall : ((new target seeds).run calls).1.filter (· ≠ []) =
        ((new target seeds).run calls).1 := by
      refine List.filter_eq_self.mpr fun round hround => decide_eq_true ?_
      rintro rfl
      exact hnot (hdone.mpr hround)
    rw [hall] at hbounded
    omega
  · intro before after hcalls hbefore
    subst hcalls
    rw [run_append]
    refine ⟨(isDone_run_iff _ after).mpr (.inl hbefore), eq_nil_of_phase_ne ?_ after⟩
    simp_all [isDone]
  · intro before after hcalls query hround hrounds hend
    subst hcalls
    have hsane : query.Sane := (sane_new target seeds).run before
    have hascending : Id.Ascending query.nextRound.2.target query.known.ids := by
      simpa using hsane.ascending
    have howes := (hsane.owes hround).run hsane.nextRound hascending after hrounds
    have hlast : ((new target seeds).run (before ++ .nextRound :: after)).2 =
        (query.nextRound.2.run after).2 := by
      rw [run_append]
      rfl
    rw [← ids_known_run_new, ← visited_run_new, hlast]
    refine howes.settled ?_
    rw [hlast] at hend
    simp_all [isDone]

end Query

end Kademlia
