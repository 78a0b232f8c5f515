import Kademlia.Lookup.Query
import Kademlia.Proofs.Ranking

/-!
# Kademlia.Proofs.Lookup.Calls

What may be asked of a query, in any order, and what it hands out (`Query.run`). Rounds may be asked
for at any time, and answers may come from anybody, asked or not.

Three fields of a query are plain records of the calls made so far, and each has a lemma that says
of what: `known_run` (all contacts reported), `responders_run` (all that sent an answer) and
`visited_run` (all ids handed out). `nextRound_cases` is the inversion of the one call that decides
anything.
-/

namespace Kademlia

namespace Query

/-- An answer: who sent it, and the contacts that it names. -/
structure Answer where
  sender : Contact
  named : List Contact

/-- The contacts that an answer reports, in the order in which they are taken in. -/
def Answer.contacts (answer : Answer) : List Contact := answer.named ++ [answer.sender]

/-- What may be asked of a query. -/
inductive Call where
  | nextRound
  | addResponse (answer : Answer)

/-- The answer that comes with a call, if any. -/
def Call.answer? : Call → Option Answer
  | nextRound => none
  | addResponse answer => some answer

/-- The answers among calls. -/
def answers (calls : List Call) : List Answer := calls.filterMap Call.answer?

/-- Makes one call after the other, and collects the rounds that are handed out. -/
def run : Query → List Call → List (List Contact) × Query
  | query, [] => ([], query)
  | query, .nextRound :: calls =>
    let (rounds, last) := query.nextRound.2.run calls
    (query.nextRound.1 :: rounds, last)
  | query, .addResponse answer :: calls =>
    (query.addResponse answer.sender answer.named).run calls

/-- The ids handed out in rounds. -/
def handed (rounds : List (List Contact)) : List Id := rounds.flatten.map Contact.id

/-- The contacts that a query hears of: those it starts from, and those that answers report. -/
def reported (seeds : List Contact) (calls : List Call) : List Contact :=
  seeds ++ (answers calls).flatMap Answer.contacts

/-- The ids that a query hears of. -/
def observed (seeds : List Contact) (calls : List Call) : List Id :=
  (reported seeds calls).map Contact.id

/-- The contacts that sent answers. -/
def senders (calls : List Call) : List Contact := (answers calls).map Answer.sender

variable {query : Query} {target : Id} {seeds : List Contact} {calls before after : List Call}

/-! ### Runs -/

@[simp] theorem run_nil (query : Query) : query.run [] = ([], query) := rfl

@[simp] theorem run_nextRound (query : Query) (calls : List Call) :
    query.run (.nextRound :: calls) =
      (query.nextRound.1 :: (query.nextRound.2.run calls).1, (query.nextRound.2.run calls).2) := rfl

@[simp] theorem run_addResponse (query : Query) (answer : Answer) (calls : List Call) :
    query.run (.addResponse answer :: calls) =
      (query.addResponse answer.sender answer.named).run calls := rfl

theorem run_append (query : Query) (before after : List Call) :
    query.run (before ++ after) =
      ((query.run before).1 ++ ((query.run before).2.run after).1,
        ((query.run before).2.run after).2) := by
  induction before generalizing query with
  | nil => rfl
  | cons call before ih => cases call <;> simp [ih]

@[simp] theorem answers_nil : answers [] = [] := rfl

@[simp] theorem answers_append (before after : List Call) :
    answers (before ++ after) = answers before ++ answers after := List.filterMap_append

@[simp] theorem answers_nextRound (calls : List Call) :
    answers (.nextRound :: calls) = answers calls := rfl

@[simp] theorem answers_addResponse (answer : Answer) (calls : List Call) :
    answers (.addResponse answer :: calls) = answer :: answers calls := rfl

@[simp] theorem answers_map_addResponse (given : List Answer) :
    answers (given.map .addResponse) = given := by
  induction given with
  | nil => rfl
  | cons answer given ih => simp [ih]

@[simp] theorem handed_cons (round : List Contact) (rounds : List (List Contact)) :
    handed (round :: rounds) = round.map Contact.id ++ handed rounds := by
  simp [handed]

@[simp] theorem handed_append (rounds others : List (List Contact)) :
    handed (rounds ++ others) = handed rounds ++ handed others := by
  simp [handed]

/-! ### Answers -/

@[simp] theorem known_addResponse (query : Query) (sender : Contact) (named : List Contact) :
    (query.addResponse sender named).known = query.known.insertAll (named ++ [sender]) := by
  rw [Ranking.insertAll_append]
  rfl

@[simp] theorem target_addResponse (query : Query) (sender : Contact) (named : List Contact) :
    (query.addResponse sender named).target = query.target := by
  simp [Query.target]

/-! ### The next round -/

/-- Either the query is searching and hands out its candidates, or it is done with and there is
nobody to hand out. -/
theorem nextRound_cases (query : Query) :
    (query.phase = .searching ∧ query.candidates ≠ [] ∧
      query.nextRound = (query.candidates, query.visit query.candidates)) ∨
    ((query.phase = .searching → query.candidates = []) ∧
      query.nextRound = ([], { query with phase := .done })) := by
  rw [nextRound]
  cases hphase : query.phase with
  | searching =>
    cases hround : query.candidates with
    | nil => exact .inr ⟨fun _ => rfl, rfl⟩
    | cons contact rest => exact .inl ⟨rfl, List.cons_ne_nil _ _, rfl⟩
  | lastRound => exact .inr ⟨fun h => absurd h (by simp), rfl⟩
  | done => exact .inr ⟨fun h => absurd h (by simp), rfl⟩

/-- Handing out a round changes nothing about who is known. -/
@[simp] theorem known_nextRound (query : Query) : query.nextRound.2.known = query.known := by
  rcases query.nextRound_cases with ⟨-, -, heq⟩ | ⟨-, heq⟩
  · rw [heq]; rfl
  · rw [heq]

@[simp] theorem target_nextRound (query : Query) : query.nextRound.2.target = query.target := by
  simp [Query.target]

@[simp] theorem responders_nextRound (query : Query) :
    query.nextRound.2.responders = query.responders := by
  rcases query.nextRound_cases with ⟨-, -, heq⟩ | ⟨-, heq⟩
  · rw [heq]; rfl
  · rw [heq]

@[simp] theorem visited_nextRound (query : Query) :
    query.nextRound.2.visited = query.visited ++ query.nextRound.1.map Contact.id := by
  rcases query.nextRound_cases with ⟨-, -, heq⟩ | ⟨-, heq⟩ <;> rw [heq]
  · rfl
  · simp

/-- To have been asked is a matter of the id. -/
theorem map_id_filter_unvisited (query : Query) (contacts : List Contact) :
    (contacts.filter (!query.isVisited ·)).map Contact.id =
      (contacts.map Contact.id).filter (· ∉ query.visited) := by
  rw [List.filter_map]
  simp [Function.comp_def, isVisited]

/-- Who is handed out is the closest of those that were not. -/
theorem candidates_prefix (query : Query) :
    query.candidates <+: query.known.contacts.filter (!query.isVisited ·) := by
  rw [candidates]
  split
  · exact (List.take_prefix wanted query.known.contacts).filter _
  · exact List.take_prefix ..

theorem length_candidates_le (query : Query) :
    query.candidates.length ≤ lookupWidth ∨
      query.hasConverged = true ∧ query.candidates.length ≤ wanted := by
  rw [candidates]
  split
  · rename_i hconverged
    exact .inr ⟨hconverged, Nat.le_trans (List.length_filter_le ..) (List.length_take_le ..)⟩
  · exact .inl (List.length_take_le ..)

/-- Where nobody is left to hand out, the closest have been. -/
theorem mem_visited_of_candidates_eq_nil (h : query.candidates = []) {id : Id}
    (hid : id ∈ query.known.ids.take wanted) : id ∈ query.visited := by
  rw [Ranking.ids, ← List.map_take] at hid
  obtain ⟨contact, hcontact, rfl⟩ := List.mem_map.mp hid
  by_contra hout
  have hunvisited : (!query.isVisited contact) = true := by simpa [isVisited] using hout
  rw [candidates] at h
  split at h
  · exact List.not_mem_nil (h ▸ List.mem_filter.mpr ⟨hcontact, hunvisited⟩)
  · have hnone := (List.take_eq_nil_iff.mp h).resolve_left (by decide)
    exact List.not_mem_nil (hnone ▸ List.mem_filter.mpr ⟨List.mem_of_mem_take hcontact, hunvisited⟩)

/-! ### What a query records -/

/-- All contacts reported are known. -/
theorem known_run (query : Query) (calls : List Call) :
    (query.run calls).2.known =
      query.known.insertAll ((answers calls).flatMap Answer.contacts) := by
  induction calls generalizing query with
  | nil => rfl
  | cons call calls ih =>
    cases call with
    | nextRound => simp [ih]
    | addResponse answer =>
      rw [run_addResponse, ih, known_addResponse, answers_addResponse, List.flatMap_cons,
        Ranking.insertAll_append _ answer.contacts, Answer.contacts]

theorem known_run_new (target : Id) (seeds : List Contact) (calls : List Call) :
    ((new target seeds).run calls).2.known = .ofList target (reported seeds calls) := by
  rw [known_run, reported, Ranking.ofList, Ranking.insertAll_append]
  rfl

/-- All that sent an answer have responded. -/
theorem responders_run (query : Query) (calls : List Call) :
    (query.run calls).2.responders = query.responders.insertAll (senders calls) := by
  induction calls generalizing query with
  | nil => rfl
  | cons call calls ih =>
    cases call with
    | nextRound => simp [ih, senders]
    | addResponse answer => simp [ih, senders, addResponse, Ranking.insertAll]

/-- All ids handed out are visited. -/
theorem visited_run (query : Query) (calls : List Call) :
    (query.run calls).2.visited = query.visited ++ handed (query.run calls).1 := by
  induction calls generalizing query with
  | nil => simp [handed]
  | cons call calls ih =>
    cases call with
    | nextRound => simp [ih]
    | addResponse answer => simp [ih, addResponse]

theorem visited_run_new (target : Id) (seeds : List Contact) (calls : List Call) :
    ((new target seeds).run calls).2.visited = handed ((new target seeds).run calls).1 :=
  visited_run (new target seeds) calls

theorem target_run_new (target : Id) (seeds : List Contact) (calls : List Call) :
    ((new target seeds).run calls).2.target = target := by
  rw [Query.target, known_run_new, Ranking.target_ofList]

/-- The known ids are those heard of, the closest first. -/
theorem ids_known_run_new (target : Id) (seeds : List Contact) (calls : List Call) :
    ((new target seeds).run calls).2.known.ids = Id.closestFirst target (observed seeds calls) := by
  rw [known_run_new, Ranking.ids_ofList]
  rfl

/-- The ids that have responded are those that sent answers, the closest first. -/
theorem ids_responders_run_new (target : Id) (seeds : List Contact) (calls : List Call) :
    ((new target seeds).run calls).2.responders.ids =
      Id.closestFirst target ((senders calls).map Contact.id) := by
  rw [responders_run, ← Ranking.ids_ofList]
  rfl

end Query

end Kademlia
