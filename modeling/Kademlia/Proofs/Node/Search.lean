import Kademlia.Proofs.Lookup.Standing
import Kademlia.Proofs.Node.Arrival
import Kademlia.Proofs.Node.Ending
import Kademlia.Proofs.Node.LookupResult

/-!
# Kademlia.Proofs.Node.Search

The course of a lookup. It sends requests to the contacts that its query hands out and feeds the
query with the answers that it hears, round by round (`Query.Conducted`), until the query is done or
an answer names publishers of the target (`Finding.Of`). So what is known of queries is known
of lookups, whatever the peers answer.

Two results come from it. `Node.lookupNode_responders` says which contacts a search for nodes may
return: those that have answered, and those that it has overlooked. `Node.findValue_result` says
when a search for publishers stops: at the first answer under the key, even if that names nobody.
-/

namespace Kademlia

theorem Contact.eq_of_id_of_address {contact other : Contact} (hid : contact.id = other.id)
    (haddress : contact.address = other.address) : contact = other := by
  cases contact
  cases other
  simp_all

/-! ### Answers -/

/-- What an outcome tells a query: who answered, and which contacts he names. The node's own id is
not a contact. -/
def Outcome.answer? (own : Id) : Outcome → Option Query.Answer
  | .failed _ => none
  | .replied ⟨sender, .nodes contacts⟩ => some ⟨sender, contacts.filter (·.id ≠ own)⟩
  | .replied ⟨sender, _⟩ => some ⟨sender, []⟩

/-- The last outcome names the publishers of a key, and none does before. -/
def Outcome.Tell (key : Id) (heard : List Outcome) (publishers : List Contact) : Prop :=
  ∃ before last, heard = before ++ [last] ∧
    (∀ outcome ∈ before, outcome.publishersOf? key = none) ∧
    last.publishersOf? key = some publishers

theorem Outcome.Tell.append {key : Id} {heard more : List Outcome} {publishers : List Contact}
    (hnone : ∀ outcome ∈ heard, outcome.publishersOf? key = none) (h : Tell key more publishers) :
    Tell key (heard ++ more) publishers := by
  obtain ⟨before, last, rfl, hbefore, hlast⟩ := h
  refine ⟨heard ++ before, last, (List.append_assoc ..).symm, ?_, hlast⟩
  exact List.forall_mem_append.mpr ⟨hnone, hbefore⟩

theorem Outcome.Tell.exists_mem {key : Id} {heard : List Outcome} {publishers : List Contact}
    (h : Tell key heard publishers) :
    ∃ outcome ∈ heard, outcome.publishersOf? key = some publishers := by
  obtain ⟨before, last, rfl, -, hlast⟩ := h
  exact ⟨last, List.mem_append_right _ (List.mem_singleton_self _), hlast⟩

theorem Outcome.exists_of_mem_answers {own : Id} {heard : List Outcome} {answer : Query.Answer}
    (h : answer ∈ heard.filterMap (answer? own)) :
    ∃ reply, .replied reply ∈ heard ∧ reply.sender = answer.sender := by
  obtain ⟨outcome, houtcome, hanswer⟩ := List.mem_filterMap.mp h
  match outcome, hanswer with
  | .replied ⟨sender, .nodes contacts⟩, hanswer
  | .replied ⟨sender, .values key publishers⟩, hanswer
  | .replied ⟨sender, .success marker⟩, hanswer =>
    exact ⟨_, houtcome, congrArg Query.Answer.sender (Option.some.inj hanswer)⟩

namespace Query

variable {query : Query} {own : Id} {request : Request}
  {asked : List (Endpoint × Request)} {heard : List Outcome}

/-- Publishers of the target end a lookup, and any other outcome tells its query what there is to
tell. -/
theorem takeIn_eq (query : Query) (own : Id) (outcome : Outcome) :
    query.takeIn own outcome =
      match outcome.publishersOf? query.target with
      | some publishers => .found publishers
      | none => .goOn (query.run ((outcome.answer? own).toList.map .addResponse)).2 := by
  match outcome with
  | .failed error => rfl
  | .replied ⟨sender, .nodes contacts⟩ => rfl
  | .replied ⟨sender, .success marker⟩ => rfl
  | .replied ⟨sender, .values key publishers⟩ =>
    by_cases hkey : key = query.target
    · simp [takeIn, Outcome.publishersOf?, hkey]
    · simp [takeIn, Outcome.publishersOf?, hkey, Outcome.answer?]

/-- What a step of a lookup comes to with the outcomes heard. -/
def Step.Of (own : Id) (query : Query) (heard : List Outcome) : Step → Prop
  | .goOn next => (∀ outcome ∈ heard, outcome.publishersOf? query.target = none) ∧
    next = (query.run ((heard.filterMap (Outcome.answer? own)).map .addResponse)).2
  | .found publishers => Outcome.Tell query.target heard publishers

/-- The requests are sent to the contacts that the query hands out, and the outcomes tell it what it
is told. -/
structure Conducted (own : Id) (request : Request) (query : Query) (calls : List Call)
    (asked : List (Endpoint × Request)) (heard : List Outcome) : Prop where
  asked : asked = (query.run calls).1.flatten.map fun contact => (contact.address, request)
  answers : answers calls = heard.filterMap (Outcome.answer? own)

theorem conducted_nil (own : Id) (request : Request) (query : Query) :
    query.Conducted own request [] [] [] :=
  ⟨rfl, rfl⟩

/-- A round is handed out, and answers are taken in before the next. -/
theorem run_round (query : Query) (given : List Answer) (calls : List Call) :
    query.run (.nextRound :: (given.map .addResponse ++ calls)) =
      (query.nextRound.1 :: ((query.nextRound.2.run (given.map .addResponse)).2.run calls).1,
        ((query.nextRound.2.run (given.map .addResponse)).2.run calls).2) := by
  rw [run_nextRound, run_append, (run_map_addResponse query.nextRound.2 given).1]
  rfl

theorem Conducted.round {calls : List Call} {more : List Outcome}
    (h : (query.nextRound.2.run
      ((heard.filterMap (Outcome.answer? own)).map .addResponse)).2.Conducted own request calls
        asked more) :
    query.Conducted own request
      (.nextRound :: ((heard.filterMap (Outcome.answer? own)).map .addResponse ++ calls))
      (query.nextRound.1.map (fun contact => (contact.address, request)) ++ asked)
      (heard ++ more) where
  asked := by rw [run_round, List.flatten_cons, List.map_append, h.asked]
  answers := by
    rw [answers_nextRound, answers_append, answers_map_addResponse, h.answers,
      List.filterMap_append]

end Query

/-- What a lookup of at most so many rounds comes to with the outcomes heard. -/
def Finding.Of (own : Id) (request : Request) (query : Query) (rounds : Nat)
    (asked : List (Endpoint × Request)) (heard : List Outcome) : Finding → Prop
  | .nodes contacts => ∃ calls, query.Conducted own request calls asked heard ∧
    (∀ outcome ∈ heard, outcome.publishersOf? query.target = none) ∧
    contacts = (query.run calls).2.closest ∧
    ((query.run calls).2.isDone = true ∨ rounds ≤ (query.run calls).1.length)
  | .values publishers => Outcome.Tell query.target heard publishers

namespace Node

open Dialogue

variable {own target : Id} {request : Request} {query : Query} {sees : Node → Time → Prop}
  {asked : List (Endpoint × Request)} {heard : List Outcome}

/-! ### Rounds -/

theorem ends_gatherRound {handles : List Handle} {step : Query.Step}
    (h : (gatherRound own handles query).Ends sees asked heard step) :
    asked = [] ∧ step.Of own query heard := by
  induction handles generalizing query asked heard with
  | nil =>
    obtain ⟨rfl, rfl, rfl⟩ := h.of_pure
    exact ⟨rfl, List.forall_mem_nil _, rfl⟩
  | cons handle rest ih =>
    obtain ⟨first, others, rfl, htaken⟩ := h.of_outcome
    rw [query.takeIn_eq] at htaken
    cases hfirst : first.publishersOf? query.target with
    | some publishers =>
      rw [hfirst] at htaken
      obtain ⟨rfl, rfl, rfl⟩ := htaken.of_pure
      exact ⟨rfl, [], first, rfl, List.forall_mem_nil _, hfirst⟩
    | none =>
      rw [hfirst] at htaken
      obtain ⟨rfl, hstep⟩ := ih htaken
      have hnone : ∀ outcome ∈ [first], outcome.publishersOf? query.target = none := by
        simpa using hfirst
      refine ⟨rfl, ?_⟩
      cases step with
      | found publishers =>
        rw [Query.Step.Of, Query.target_run] at hstep
        exact hstep.append hnone
      | goOn next =>
        obtain ⟨hothers, rfl⟩ := hstep
        rw [Query.target_run] at hothers
        refine ⟨List.forall_mem_cons.mpr ⟨hfirst, hothers⟩, ?_⟩
        cases hanswer : first.answer? own with
        | none => simp [hanswer]
        | some answer => simp [hanswer]

theorem runRounds_succ (own : Id) (request : Request) (rounds : Nat) (query : Query) :
    runRounds own request (rounds + 1) query =
      if query.isDone then pure (.nodes query.closest)
      else (do
        let handles ← sendAll request (query.nextRound.1.map Contact.address)
        match ← gatherRound own handles query.nextRound.2 with
        | .goOn next => runRounds own request rounds next
        | .found publishers => pure (.values publishers)) := rfl

/-- **A lookup follows its query**, round by round. -/
theorem ends_runRounds {rounds : Nat} {finding : Finding}
    (h : (runRounds own request rounds query).Ends sees asked heard finding) :
    finding.Of own request query rounds asked heard := by
  induction rounds generalizing query asked heard with
  | zero =>
    obtain ⟨rfl, rfl, rfl⟩ := h.of_pure
    exact ⟨[], query.conducted_nil own request, List.forall_mem_nil _, rfl, .inr (Nat.le_refl _)⟩
  | succ rounds ih =>
    rw [runRounds_succ] at h
    split at h
    · rename_i hdone
      obtain ⟨rfl, rfl, rfl⟩ := h.of_pure
      exact ⟨[], query.conducted_nil own request, List.forall_mem_nil _, rfl, .inl hdone⟩
    obtain ⟨handles, _, _, _, _, rfl, rfl, hsent, hrest⟩ := h.of_bind
    obtain ⟨step, _, gathered, later, others, rfl, rfl, hgathered, hlast⟩ := hrest.of_bind
    obtain ⟨rfl, rfl⟩ := hsent.of_sendAll
    obtain ⟨rfl, hstep⟩ := ends_gatherRound hgathered
    rw [List.nil_append, List.nil_append, List.map_map]
    cases step with
    | found publishers =>
      obtain ⟨rfl, rfl, rfl⟩ := hlast.of_pure
      rw [Query.Step.Of, Query.target_nextRound] at hstep
      rw [List.append_nil, List.append_nil]
      exact hstep
    | goOn next =>
      obtain ⟨hnone, rfl⟩ := hstep
      have hfinding := ih hlast
      rw [Query.target_nextRound] at hnone
      cases finding with
      | values publishers =>
        rw [Finding.Of, Query.target_run, Query.target_nextRound] at hfinding
        exact hfinding.append hnone
      | nodes contacts =>
        obtain ⟨calls, hconducted, hothers, rfl, hend⟩ := hfinding
        rw [Query.target_run, Query.target_nextRound] at hothers
        refine ⟨_, hconducted.round, List.forall_mem_append.mpr ⟨hnone, hothers⟩, ?_, ?_⟩
        · rw [Query.run_round]
        · rw [Query.run_round]
          exact hend.imp_right Nat.succ_le_succ

/-! ### Lookups -/

theorem lt_maxRounds : 2 ^ Id.width < maxRounds := by
  rw [maxRounds, Nat.one_shiftLeft]
  exact Nat.lt_add_of_pos_right (by decide)

/-- A lookup that came to its end: the calls of its query, which started from the seeds, no answer
under the target, and nobody left to ask. -/
structure Searched (own target : Id) (request : Request) (sees : Node → Time → Prop)
    (asked : List (Endpoint × Request)) (heard : List Outcome) (seeds : List Contact)
    (calls : List Query.Call) : Prop extends
    (Query.new target seeds).Conducted own request calls asked heard where
  starts : ∃ node now, sees node now ∧ (node.seed target now).1 = .new target seeds
  unpublished : ∀ outcome ∈ heard, outcome.publishersOf? target = none
  done : ((Query.new target seeds).run calls).2.isDone = true

/-- What a lookup comes to with the outcomes heard. -/
def Found (own target : Id) (request : Request) (sees : Node → Time → Prop)
    (asked : List (Endpoint × Request)) (heard : List Outcome) : Finding → Prop
  | .nodes contacts => ∃ seeds calls, Searched own target request sees asked heard seeds calls ∧
    contacts = ((Query.new target seeds).run calls).2.closest
  | .values publishers => Outcome.Tell target heard publishers

theorem ends_lookup (hown : ∀ node now, sees node now → node.id = own) {finding : Finding}
    (h : (lookup target request).Ends sees asked heard finding) :
    Found own target request sees asked heard finding := by
  unfold lookup at h
  have hrounds := lt_maxRounds
  -- The number is too big to be looked into.
  generalize maxRounds = rounds at h hrounds
  obtain ⟨node, now, hsees, hlook⟩ := h.of_look
  obtain ⟨later, instant, hlater, hrun⟩ := hlook.of_does
  rw [hown node now hsees] at hrun
  have haim : (later.seed target instant).1.target = target := Ranking.target_ofList ..
  have hfinding : finding.Of own request (later.seed target instant).1 rounds asked heard :=
    ends_runRounds hrun
  cases finding with
  | values publishers =>
    rw [Finding.Of, haim] at hfinding
    exact hfinding
  | nodes contacts =>
    obtain ⟨calls, hconducted, hnone, hcontacts, hend⟩ := hfinding
    rw [haim] at hnone
    refine ⟨_, calls, ⟨hconducted, ⟨later, instant, hlater, rfl⟩, hnone, ?_⟩, hcontacts⟩
    rcases hend with hdone | hlength
    · exact hdone
    · exact Query.isDone_of_lt_length (Nat.lt_of_lt_of_le hrounds hlength)

/-! ### Lives -/

/-- An activity that has ended saw the node at moments of its life, and its id never changed. -/
theorem ends_of_life {α : Type} {dialogue : Dialogue α} (config : Config)
    (address : Endpoint) (draws : Draws) (now : Time) (beats : List Attended.Beat) {value : α}
    (hresult : ((Attended.start (.start config address draws now) dialogue).run
      beats).dialogue.result? = some value) :
    let begun := Attended.start (.start config address draws now) dialogue
    (∀ node instant, begun.Saw beats node instant →
        node.id = (new config address draws now).id) ∧
      dialogue.Ends (begun.Saw beats) (begun.run beats).asked (begun.run beats).heard value := by
  intro begun
  refine ⟨?_, Attended.ends_of_result hresult⟩
  rintro node instant ⟨before, -, rfl, -⟩
  exact (poised_run dialogue config address draws now before).id

/-! ### The search for nodes -/

/-- Why a search for nodes returns a contact. -/
inductive Vouched {α : Type} (begun : Attended α) (beats : List Attended.Beat) (target : Id)
    (seeds : List Contact) (calls : List Query.Call) (contact : Contact) : Prop where
  /-- It has answered. -/
  | answered {reply : Reply} (harrived : begun.Arrived beats reply)
    (hsender : reply.sender = contact)
  /-- An answer bore its id, but came from another address. -/
  | elsewhere {reply : Reply} (harrived : begun.Arrived beats reply)
    (hid : reply.sender.id = contact.id) (haddress : reply.sender.address ≠ contact.address)
  /-- It was not asked. -/
  | overlooked (h : Query.Overlooked target seeds calls contact.id)

/-- A contact that a lookup comes to has answered, or was overlooked. -/
theorem vouched_of_searched {α : Type} {begun : Attended α} {beats : List Attended.Beat}
    {seeds : List Contact} {calls : List Query.Call} {contact : Contact}
    (h : Searched own target request sees asked heard seeds calls)
    (harrived : ∀ reply, .replied reply ∈ heard → begun.Arrived beats reply)
    (hcontact : contact ∈ ((Query.new target seeds).run calls).2.closest) :
    Vouched begun beats target seeds calls contact := by
  rcases Query.standing_of_mem_closest h.done hcontact with ⟨sender, hsender, hid⟩ | hoverlooked
  · obtain ⟨answer, hanswer, rfl⟩ := List.mem_map.mp hsender
    rw [h.answers] at hanswer
    obtain ⟨reply, hreply, hsame⟩ := Outcome.exists_of_mem_answers hanswer
    rw [← hsame] at hid
    by_cases haddress : reply.sender.address = contact.address
    · exact .answered (harrived reply hreply) (Contact.eq_of_id_of_address hid haddress)
    · exact .elsewhere (harrived reply hreply) hid haddress
  · exact .overlooked hoverlooked

/-- **Whom a search for nodes returns**, in every life of a node and whatever any peer answers, as
long as no answer names publishers of the target: the closest contacts that its query has heard of,
each with the address that was reported first, less those that were asked and did not answer. Each
of them has answered from this address or, under the same id, from another, or it was overlooked. -/
theorem lookupNode_responders (config : Config) (address : Endpoint) (draws : Draws) (now : Time)
    (target : Id) (beats : List Attended.Beat) {contacts : List Contact}
    (hresult : ((Attended.start (.start config address draws now) (lookupNode target)).run
      beats).dialogue.result? = some contacts)
    (hnone : ∀ outcome ∈ ((Attended.start (.start config address draws now)
      (lookupNode target)).run beats).heard, outcome.publishersOf? target = none) :
    let begun := Attended.start (.start config address draws now) (lookupNode target)
    ∃ seeds calls,
      Searched (new config address draws now).id target (.findNode target) (begun.Saw beats)
        (begun.run beats).asked (begun.run beats).heard seeds calls ∧
      contacts = ((Query.new target seeds).run calls).2.closest ∧
      ∀ contact ∈ contacts,
        (Query.reported seeds calls).find? (·.id = contact.id) = some contact ∧
          Vouched begun beats target seeds calls contact := by
  intro begun
  obtain ⟨hown, hends⟩ := ends_of_life config address draws now beats hresult
  obtain ⟨finding, asked, heard, _, _, hasked, hheard, hlookup, hlast⟩ := hends.of_bind
  have hfound := ends_lookup hown hlookup
  cases finding with
  | values publishers =>
    obtain ⟨outcome, houtcome, hpublishers⟩ := hfound.exists_mem
    have hmem : outcome ∈ (begun.run beats).heard := hheard ▸ List.mem_append_left _ houtcome
    exact absurd (hpublishers.symm.trans (hnone outcome hmem)) (by simp)
  | nodes found =>
    obtain ⟨rfl, rfl, rfl⟩ := hlast.of_pure
    rw [List.append_nil] at hasked hheard
    obtain ⟨seeds, calls, hsearched, rfl⟩ := hfound
    refine ⟨seeds, calls, ?_, rfl, fun contact hcontact => ?_⟩
    · rw [hasked, hheard]
      exact hsearched
    refine ⟨Query.find?_of_mem_closest hcontact, ?_⟩
    refine vouched_of_searched hsearched (fun reply hreply => ?_) hcontact
    refine Attended.arrived_of_heard (awaitsOwn_lookupNode target _) config address draws now ?_
    rw [hheard]
    exact hreply

/-- The life of a node whose peer names two others. The first of them is silent, and the second
answers under the first one's id and names a third. -/
def strayBeats : List Attended.Beat :=
  let silent : Contact := ⟨⟨3⟩, ⟨⟨10, 0, 0, 9⟩, 4444⟩⟩
  let stray : Contact := ⟨⟨16⟩, ⟨⟨10, 0, 0, 3⟩, 4444⟩⟩
  let third : Contact := ⟨⟨64⟩, ⟨⟨10, 0, 0, 4⟩, 4444⟩⟩
  searchBeats (.nodes [silent, stray]) ++
    [.proceed true, .proceed true,
     .other (.happens (.receive
       (Message.encode ⟨.ofNat 3, silent.id, .response (.nodes [third])⟩) stray.address
       fun _ => false)),
     .giveUp, .proceed true]

theorem lookupNode_responders_of_stray :
    let begun := Attended.start (.start { id := some .zero } ⟨⟨10, 0, 0, 1⟩, 4444⟩ (.ofLists [] [])
      0) (lookupNode ⟨1⟩)
    ∃ seeds calls,
      Searched .zero ⟨1⟩ (.findNode ⟨1⟩) (begun.Saw strayBeats) (begun.run strayBeats).asked
        (begun.run strayBeats).heard seeds calls ∧
      ∀ contact ∈ ((Query.new ⟨1⟩ seeds).run calls).2.closest,
        Vouched begun strayBeats ⟨1⟩ seeds calls contact := by
  intro begun
  obtain ⟨contacts, hresult⟩ : ∃ contacts,
      (begun.run strayBeats).dialogue.result? = some contacts :=
    Option.isSome_iff_exists.mp (by decide +kernel)
  have hnone : ∀ outcome ∈ (begun.run strayBeats).heard, outcome.publishersOf? ⟨1⟩ = none := by
    decide +kernel
  obtain ⟨seeds, calls, hsearched, rfl, hvouched⟩ := lookupNode_responders { id := some .zero }
    ⟨⟨10, 0, 0, 1⟩, 4444⟩ (.ofLists [] []) 0 ⟨1⟩ strayBeats hresult hnone
  exact ⟨seeds, calls, hsearched, fun contact hcontact => (hvouched contact hcontact).2⟩

/-- Of the three contacts that are returned here only the first has answered: the second comes with
the address of a silent node, under whose id another answers, and nobody has asked the third. -/
theorem lookupNode_returns_unasked :
    let peer : Contact := ⟨⟨1⟩, ⟨⟨10, 0, 0, 2⟩, 4444⟩⟩
    let silent : Contact := ⟨⟨3⟩, ⟨⟨10, 0, 0, 9⟩, 4444⟩⟩
    let third : Contact := ⟨⟨64⟩, ⟨⟨10, 0, 0, 4⟩, 4444⟩⟩
    let state := (Attended.start (.start { id := some .zero } ⟨⟨10, 0, 0, 1⟩, 4444⟩ (.ofLists [] [])
      0) (lookupNode ⟨1⟩)).run strayBeats
    state.dialogue.result? = some [peer, silent, third] ∧
      (∀ reply, .replied reply ∈ state.heard → reply.sender ≠ silent ∧ reply.sender.id ≠ third.id) ∧
      ∀ item ∈ state.asked, item.1 ≠ third.address := by
  intro peer silent third state
  have hheard : state.heard =
      [.replied ⟨peer, .nodes [silent, ⟨⟨16⟩, ⟨⟨10, 0, 0, 3⟩, 4444⟩⟩]⟩, .failed .timeout,
       .replied ⟨⟨silent.id, ⟨⟨10, 0, 0, 3⟩, 4444⟩⟩, .nodes [third]⟩] := by
    decide +kernel
  refine ⟨by decide +kernel, fun reply hreply => ?_, by decide +kernel⟩
  simp only [hheard, List.mem_cons, Outcome.replied.injEq, reduceCtorEq, List.not_mem_nil, or_false,
    false_or] at hreply
  rcases hreply with rfl | rfl <;> decide +kernel

/-! ### The search for publishers -/

/-- What a search for the publishers of a key returns. -/
inductive Retrieved (begun : Attended (List Contact)) (beats : List Attended.Beat) (own key : Id)
    (publishers : List Contact) : Prop where
  /-- The node remembers them itself, and nobody is asked. -/
  | remembered (hremembered : ∃ node now, begun.Saw beats node now ∧
      node.records.get key now = publishers) (hne : publishers ≠ [])
    (hasked : (begun.run beats).asked = []) (hheard : (begun.run beats).heard = [])
  /-- The node remembers none, and the first answer under the key names them, if there are any. -/
  | told (hforgotten : ∃ node now, begun.Saw beats node now ∧ node.records.get key now = [])
    (htold : Outcome.Tell key (begun.run beats).heard publishers)
  /-- The node remembers none, no answer is under the key, and nobody is left to ask. -/
  | exhausted (hforgotten : ∃ node now, begun.Saw beats node now ∧ node.records.get key now = [])
    (hnil : publishers = [])
    (hsearched : ∃ seeds calls, Searched own key (.findValue key) (begun.Saw beats)
      (begun.run beats).asked (begun.run beats).heard seeds calls)

/-- **What a search for publishers returns**, in every life of a node and whatever any peer answers.
If the node remembers none itself, the list is empty in two cases: the query has run to its end and
no answer that was heard names publishers of the key, or the first answer under the key names
nobody. Answers with publishers of other keys do not end the search. -/
theorem findValue_result (config : Config) (address : Endpoint) (draws : Draws) (now : Time)
    (key : Id) (beats : List Attended.Beat) {publishers : List Contact}
    (hresult : ((Attended.start (.start config address draws now) (findValue key)).run
      beats).dialogue.result? = some publishers) :
    Retrieved (.start (.start config address draws now) (findValue key)) beats
      (new config address draws now).id key publishers := by
  obtain ⟨hown, hends⟩ := ends_of_life config address draws now beats hresult
  obtain ⟨node, instant, hsaw, hlooked⟩ := hends.of_look
  cases hget : node.records.get key instant with
  | cons publisher others =>
    rw [hget] at hlooked
    obtain ⟨hasked, hheard, rfl⟩ := hlooked.of_pure
    exact .remembered ⟨node, instant, hsaw, hget⟩ (List.cons_ne_nil _ _) hasked hheard
  | nil =>
    rw [hget] at hlooked
    obtain ⟨finding, asked, heard, _, _, hasked, hheard, hlookup, hlast⟩ := hlooked.of_bind
    have hfound := ends_lookup hown hlookup
    cases finding with
    | values named =>
      obtain ⟨rfl, rfl, rfl⟩ := hlast.of_pure
      rw [List.append_nil] at hheard
      refine .told ⟨node, instant, hsaw, hget⟩ ?_
      rw [hheard]
      exact hfound
    | nodes contacts =>
      obtain ⟨rfl, rfl, rfl⟩ := hlast.of_pure
      rw [List.append_nil] at hasked hheard
      obtain ⟨seeds, calls, hsearched, -⟩ := hfound
      refine .exhausted ⟨node, instant, hsaw, hget⟩ rfl ⟨seeds, calls, ?_⟩
      rw [hasked, hheard]
      exact hsearched

/-- The life of a node that has met two peers and searches for the publishers of the key 1, up to
the outcome of its first request. Both peers answer: the first that there are none, and the second
with a publisher. -/
def retrievalBeats : List Attended.Beat :=
  let near : Contact := ⟨⟨1⟩, ⟨⟨10, 0, 0, 2⟩, 4444⟩⟩
  let far : Contact := ⟨⟨2⟩, ⟨⟨10, 0, 0, 3⟩, 4444⟩⟩
  let publisher : Contact := ⟨⟨7⟩, ⟨⟨10, 0, 0, 9⟩, 3333⟩⟩
  let answer (token : Nat) (peer : Contact) (named : List Contact) : Attended.Beat :=
    .other (.happens (.receive
      (Message.encode ⟨.ofNat token, peer.id, .response (.values ⟨1⟩ named)⟩) peer.address
      fun _ => false))
  [.other (.happens (.addContact near fun _ => false)),
   .other (.happens (.addContact far fun _ => false)),
   .proceed true, .proceed true, .proceed true, .proceed true, .proceed true,
   answer 1 near [], answer 2 far [publisher], .proceed true]

theorem findValue_result_of_empty :
    let begun := Attended.start (.start { id := some .zero } ⟨⟨10, 0, 0, 1⟩, 4444⟩ (.ofLists [] [])
      0) (findValue ⟨1⟩)
    (begun.run retrievalBeats).dialogue.result? = some [] ∧
      Retrieved begun retrievalBeats .zero ⟨1⟩ [] := by
  intro begun
  have hresult : (begun.run retrievalBeats).dialogue.result? = some [] := by decide +kernel
  exact ⟨hresult, findValue_result { id := some .zero } ⟨⟨10, 0, 0, 1⟩, 4444⟩ (.ofLists [] []) 0 ⟨1⟩
    retrievalBeats hresult⟩

/-- An answer that names nobody under the key ends the search, although the query is not done and
another peer that was asked has answered with a publisher. -/
theorem findValue_returns_nobody :
    let near : Contact := ⟨⟨1⟩, ⟨⟨10, 0, 0, 2⟩, 4444⟩⟩
    let far : Contact := ⟨⟨2⟩, ⟨⟨10, 0, 0, 3⟩, 4444⟩⟩
    let publisher : Contact := ⟨⟨7⟩, ⟨⟨10, 0, 0, 9⟩, 3333⟩⟩
    let state := (Attended.start (.start { id := some .zero } ⟨⟨10, 0, 0, 1⟩, 4444⟩ (.ofLists [] [])
      0) (findValue ⟨1⟩)).run retrievalBeats
    state.dialogue.result? = some [] ∧
      state.heard = [.replied ⟨near, .values ⟨1⟩ []⟩] ∧
      state.course.node.ledger.settled.map Prod.snd = [.replied ⟨far, .values ⟨1⟩ [publisher]⟩] ∧
      ((Query.new ⟨1⟩ [near, far]).run [.nextRound, .addResponse ⟨near, []⟩]).2.isDone = false := by
  exact ⟨by decide +kernel, by decide +kernel, by decide +kernel, by decide +kernel⟩

end Node

end Kademlia
