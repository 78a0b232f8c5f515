import Kademlia.Proofs.Lookup.Rounds

/-!
# Kademlia.Proofs.Lookup.Result

What a query comes to: the closest ids that it heard of, without those that it handed out and that
never answered, each with the address it was reported with first. `Query.Concludes` says so of the
calls as they were made, and that the answers of one round may come in any order; every query
concludes so (`Query.concludes_run`).

All decisions of a query are made on ids. Queries that differ in nothing but addresses are
`Query.Alike`, and they hand out the same ids and stay alike. What a query knows after given calls
is the ids of all reports, whatever their order, so answers in another order leave alike queries.
-/

namespace Kademlia

namespace Query

variable {query other : Query} {target : Id} {seeds : List Contact}
  {calls others : List Call} {given given' : List Answer}

/-! ### Decisions on ids -/

/-- Queries that differ in nothing but addresses. -/
structure Alike (query other : Query) : Prop where
  target : query.target = other.target
  known : query.known.ids = other.known.ids
  responders : query.responders.ids = other.responders.ids
  visited : query.visited = other.visited
  bestBefore : query.bestBefore = other.bestBefore
  phase : query.phase = other.phase

theorem hasCloserUnvisited_eq (query : Query) :
    query.hasCloserUnvisited =
      match query.responders.ids[wanted - 1]? with
      | none => true
      | some kth =>
        (query.known.ids.takeWhile fun id =>
          query.target.distance id < query.target.distance kth).any (· ∉ query.visited) := by
  rw [hasCloserUnvisited, Ranking.ids, List.getElem?_map]
  cases query.responders.contacts[wanted - 1]? with
  | none => rfl
  | some kth =>
    simp [Ranking.ids, List.takeWhile_map, List.any_map, Function.comp_def, isVisited]

theorem ids_candidates (query : Query) :
    query.candidates.map Contact.id =
      if query.hasConverged then (query.known.ids.take wanted).filter (· ∉ query.visited)
      else (query.known.ids.filter (· ∉ query.visited)).take lookupWidth := by
  rw [candidates]
  split
  · rw [map_id_filter_unvisited, List.map_take, Ranking.ids]
  · rw [List.map_take, map_id_filter_unvisited, Ranking.ids]

theorem hasResponded_iff (query : Query) (contact : Contact) :
    query.hasResponded contact = true ↔ contact.id ∈ query.responders.ids := by
  simp [hasResponded, Ranking.contains, Ranking.ids]

theorem ids_closest (query : Query) :
    query.closest.map Contact.id =
      (query.known.ids.filter
        (· ∉ query.visited.filter (· ∉ query.responders.ids))).take wanted := by
  have hkept : ∀ contact ∈ query.known.contacts,
      (!query.isVisited contact || query.hasResponded contact) =
        decide (contact.id ∉ query.visited.filter (· ∉ query.responders.ids)) := by
    intro contact _
    rw [Bool.eq_iff_iff, Bool.or_eq_true, hasResponded_iff]
    by_cases hvisited : contact.id ∈ query.visited <;> simp [isVisited, hvisited]
  have hids : query.known.ids = query.known.contacts.map Contact.id := rfl
  rw [closest, List.filter_congr hkept, List.map_take, hids, List.filter_map]
  rfl

namespace Alike

theorem hasConverged (h : query.Alike other) : query.hasConverged = other.hasConverged := by
  simp only [Query.hasConverged, hasCloserUnvisited_eq, best?_eq_head?, h.target, h.known,
    h.responders, h.visited, h.bestBefore]

theorem ids_candidates (h : query.Alike other) :
    query.candidates.map Contact.id = other.candidates.map Contact.id := by
  rw [Query.ids_candidates, Query.ids_candidates, h.hasConverged, h.known, h.visited]

theorem ids_closest (h : query.Alike other) :
    query.closest.map Contact.id = other.closest.map Contact.id := by
  rw [Query.ids_closest, Query.ids_closest, h.known, h.responders, h.visited]

/-- Alike queries hand out the same ids, and are alike after that. -/
theorem nextRound (h : query.Alike other) :
    query.nextRound.1.map Contact.id = other.nextRound.1.map Contact.id ∧
      query.nextRound.2.Alike other.nextRound.2 := by
  have hnil : query.candidates = [] ↔ other.candidates = [] := by
    rw [← List.map_eq_nil_iff, h.ids_candidates, List.map_eq_nil_iff]
  rcases query.nextRound_cases with ⟨hphase, hne, heq⟩ | ⟨hnone, heq⟩ <;>
    rcases other.nextRound_cases with ⟨hphase', hne', heq'⟩ | ⟨hnone', heq'⟩ <;> rw [heq, heq']
  · refine ⟨h.ids_candidates, h.target, h.known, h.responders, ?_, ?_, ?_⟩
    · simp only [visit, h.visited, h.ids_candidates]
    · simp only [visit, best?_eq_head?, h.known]
    · simp only [visit, h.hasConverged]
  · exact absurd (hnil.mpr (hnone' (h.phase ▸ hphase))) hne
  · exact absurd (hnil.mp (hnone (h.phase ▸ hphase'))) hne'
  · exact ⟨rfl, h.target, h.known, h.responders, h.visited, h.bestBefore, rfl⟩

end Alike

/-! ### Answers in another order -/

/-- The same calls, but for the order of the answers between two rounds. -/
inductive Reordered : List Call → List Call → Prop where
  | nil : Reordered [] []
  | round {calls others : List Call} : Reordered calls others →
      Reordered (calls ++ [.nextRound]) (others ++ [.nextRound])
  | answering {calls others : List Call} {given given' : List Answer} : Reordered calls others →
      given.Perm given' →
      Reordered (calls ++ given.map .addResponse) (others ++ given'.map .addResponse)

namespace Reordered

theorem answers_perm (h : Reordered calls others) : (answers calls).Perm (answers others) := by
  induction h with
  | nil => exact List.Perm.refl _
  | round _ ih => simpa using ih
  | answering _ hgiven ih => simpa using ih.append hgiven

theorem reported_perm (seeds : List Contact) (h : Reordered calls others) :
    (reported seeds calls).Perm (reported seeds others) :=
  (h.answers_perm.flatMap_right _).append_left seeds

/-- The same ids are handed out, and the queries are alike in the end. -/
theorem run (target : Id) (seeds : List Contact) (h : Reordered calls others) :
    ((new target seeds).run calls).1.map (·.map Contact.id) =
        ((new target seeds).run others).1.map (·.map Contact.id) ∧
      ((new target seeds).run calls).2.Alike ((new target seeds).run others).2 := by
  induction h with
  | nil => exact ⟨rfl, rfl, rfl, rfl, rfl, rfl, rfl⟩
  | round _ ih =>
    obtain ⟨hrounds, halike⟩ := ih
    obtain ⟨hround, hnext⟩ := halike.nextRound
    rw [run_append, run_append]
    exact ⟨by simp [hrounds, hround], hnext⟩
  | @answering calls others given given' h hgiven ih =>
    obtain ⟨hrounds, halike⟩ := ih
    have hall := h.answering hgiven
    obtain ⟨hnone, hphase, hbest⟩ := run_map_addResponse ((new target seeds).run calls).2 given
    obtain ⟨hnone', hphase', hbest'⟩ :=
      run_map_addResponse ((new target seeds).run others).2 given'
    have hrounds' : ((new target seeds).run (calls ++ given.map .addResponse)).1.map
        (·.map Contact.id) =
        ((new target seeds).run (others ++ given'.map .addResponse)).1.map (·.map Contact.id) := by
      rw [run_append, run_append, hnone, hnone']
      simpa using hrounds
    refine ⟨hrounds', ?_, ?_, ?_, ?_, ?_, ?_⟩
    · rw [target_run_new, target_run_new]
    · rw [ids_known_run_new, ids_known_run_new]
      exact Id.closestFirst_congr target fun _ => ((hall.reported_perm seeds).map _).mem_iff
    · rw [ids_responders_run_new, ids_responders_run_new]
      exact Id.closestFirst_congr target fun _ => ((hall.answers_perm.map _).map _).mem_iff
    · rw [visited_run_new, visited_run_new, handed, handed, List.map_flatten, List.map_flatten,
        hrounds']
    · rw [run_append, run_append]
      exact hbest.trans (halike.bestBefore.trans hbest'.symm)
    · rw [run_append, run_append]
      exact hphase.trans (halike.phase.trans hphase'.symm)

end Reordered

/-! ### The result -/

/-- The ids that were handed out and never answered. -/
def unanswered (target : Id) (seeds : List Contact) (calls : List Call) : List Id :=
  (handed ((new target seeds).run calls).1).filter (· ∉ (senders calls).map Contact.id)

/-- What a query for a target, that starts from the seeds, comes to with the calls. -/
structure Concludes (target : Id) (seeds : List Contact) (calls : List Call) : Prop where
  /-- The result is the closest of the ids heard of, without those that never answered. -/
  closest : ((new target seeds).run calls).2.closest.map Contact.id =
    (Id.closestFirst target
      ((observed seeds calls).filter (· ∉ unanswered target seeds calls))).take wanted
  /-- They are in strictly ascending distance to the target. -/
  ascending : Id.Ascending target (((new target seeds).run calls).2.closest.map Contact.id)
  /-- Each comes with the address that it was reported with first. -/
  first : ∀ contact ∈ ((new target seeds).run calls).2.closest,
    (reported seeds calls).find? (·.id = contact.id) = some contact
  /-- The order of the answers of a round does not count for the ids that are handed out. -/
  rounds : ∀ others, Reordered calls others →
    ((new target seeds).run calls).1.map (·.map Contact.id) =
      ((new target seeds).run others).1.map (·.map Contact.id)
  /-- Nor does it for the ids of the result. -/
  ids : ∀ others, Reordered calls others →
    ((new target seeds).run calls).2.closest.map Contact.id =
      ((new target seeds).run others).2.closest.map Contact.id
  /-- Nor for an address, unless its id was reported with several. -/
  addresses : ∀ others, Reordered calls others →
    ∀ contact ∈ ((new target seeds).run calls).2.closest,
      contact ∈ ((new target seeds).run others).2.closest ∨
        ∃ other ∈ reported seeds calls, other.id = contact.id ∧ other.address ≠ contact.address

theorem ids_closest_run_new (target : Id) (seeds : List Contact) (calls : List Call) :
    ((new target seeds).run calls).2.closest.map Contact.id =
      (Id.closestFirst target
        ((observed seeds calls).filter (· ∉ unanswered target seeds calls))).take wanted := by
  have hunanswered : ((new target seeds).run calls).2.visited.filter
      (· ∉ ((new target seeds).run calls).2.responders.ids) = unanswered target seeds calls := by
    rw [visited_run_new, unanswered, ids_responders_run_new]
    exact List.filter_congr fun id _ => by simp only [Id.mem_closestFirst]
  rw [ids_closest, hunanswered, ids_known_run_new, Id.filter_closestFirst]

/-- A contact of the result is the first that was reported with its id. -/
theorem find?_of_mem_closest {contact : Contact}
    (h : contact ∈ ((new target seeds).run calls).2.closest) :
    (reported seeds calls).find? (·.id = contact.id) = some contact := by
  have hknown := List.mem_of_mem_filter (List.mem_of_mem_take h)
  rw [known_run_new] at hknown
  exact Ranking.find?_of_mem_ofList hknown

/-- **The result of a lookup** is the twenty closest ids that it heard of and that did not fail to
answer, whoever answers what and in whatever order. -/
theorem concludes_run (target : Id) (seeds : List Contact) (calls : List Call) :
    Concludes target seeds calls := by
  refine ⟨ids_closest_run_new target seeds calls, ?_, fun _ => find?_of_mem_closest,
    fun others h => (h.run target seeds).1, fun others h => (h.run target seeds).2.ids_closest, ?_⟩
  · rw [ids_closest_run_new]
    exact (Id.ascending_closestFirst _ _).take
  · intro others h contact hcontact
    have hids := (h.run target seeds).2.ids_closest
    have hid : contact.id ∈ ((new target seeds).run others).2.closest.map Contact.id :=
      hids ▸ List.mem_map_of_mem hcontact
    obtain ⟨other, hother, hsame⟩ := List.mem_map.mp hid
    have hreported : other ∈ reported seeds calls :=
      (h.reported_perm seeds).mem_iff.mpr (List.mem_of_find?_eq_some (find?_of_mem_closest hother))
    by_cases haddress : other.address = contact.address
    · have heq : other = contact := by
        cases other; cases contact; simp_all
      exact .inl (heq ▸ hother)
    · exact .inr ⟨other, hreported, hsame, haddress⟩

end Query

end Kademlia
