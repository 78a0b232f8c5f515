import Kademlia.Proofs.Lookup.Calls
import Kademlia.Proofs.Node.Attendance
import Kademlia.Proofs.Node.Traffic
import Kademlia.Proofs.RoutingTable.Closest

/-!
# Kademlia.Proofs.Node.LookupResult

What a lookup ends with, whatever the peers answer and whenever. Whatever they name goes through the
ranking of the query, and the node's own id is kept out of it at each way in: the table does not
hold it, named contacts are filtered, and answers that bear it are not heeded (`Query.Proper`). So
the contacts that the query itself comes to are a `Shortlist`.

There is one way past the ranking: an answer that names publishers of the target ends the lookup
with its list as it stands. `lookupNode` hands such a list out as if it were the closest contacts,
although a search for nodes asks for no publishers; `Node.lookupNode_result` says exactly when this
happens.
-/

namespace Kademlia

/-- The publishers of a key that an outcome names. -/
def Outcome.publishersOf? (key : Id) : Outcome → Option (List Contact)
  | .replied ⟨_, .values named publishers⟩ => if named = key then some publishers else none
  | _ => none

/-- The outcome is not an answer of the node with the id. -/
def Outcome.Foreign (own : Id) (outcome : Outcome) : Prop :=
  ∀ reply, outcome = .replied reply → reply.sender.id ≠ own

/-- Contacts as a lookup is to return them. -/
structure Shortlist (own target : Id) (contacts : List Contact) : Prop where
  length : contacts.length ≤ Query.wanted
  sorted : Ranking.Sorted target contacts
  foreign : ∀ contact ∈ contacts, contact.id ≠ own

theorem findSome?_append_of_none {α β : Type} {f : α → Option β} {items : List α}
    (h : items.findSome? f = none) (more : List α) :
    (items ++ more).findSome? f = more.findSome? f := by
  rw [List.findSome?_append, h, Option.none_or]

/-! ### Queries -/

namespace Query

variable {query : Query} {own target : Id} {outcome : Outcome}

/-- The query is for the target, and its ranking is as rankings are and without the own id. -/
structure Proper (own target : Id) (query : Query) : Prop where
  aim : query.target = target
  sorted : Ranking.Sorted target query.known.contacts
  foreign : ∀ contact ∈ query.known.contacts, contact.id ≠ own

theorem proper_new {seeds : List Contact} (h : ∀ contact ∈ seeds, contact.id ≠ own) :
    (new target seeds).Proper own target where
  aim := Ranking.target_ofList ..
  sorted := Ranking.sorted_ofList ..
  foreign := Ranking.forall_mem_insertAll (List.forall_mem_nil _) h

theorem Proper.of_known {next : Query} (h : query.Proper own target)
    (hknown : next.known = query.known) : next.Proper own target where
  aim := (congrArg Ranking.target hknown).trans h.aim
  sorted := hknown ▸ h.sorted
  foreign := hknown ▸ h.foreign

theorem Proper.nextRound (h : query.Proper own target) :
    query.nextRound.2.Proper own target :=
  h.of_known query.known_nextRound

theorem Proper.addResponse (h : query.Proper own target) {sender : Contact}
    (hsender : sender.id ≠ own) {named : List Contact}
    (hnamed : ∀ contact ∈ named, contact.id ≠ own) :
    (query.addResponse sender named).Proper own target := by
  obtain rfl : query.known.target = target := h.aim
  refine ⟨query.target_addResponse sender named, ?_, ?_⟩
  · rw [known_addResponse]
    exact Ranking.sorted_insertAll query.known (named ++ [sender]) h.sorted
  · exact Ranking.forall_mem_insert (Ranking.forall_mem_insertAll h.foreign hnamed) hsender

/-- The contacts that a query comes to. -/
theorem Proper.shortlist (h : query.Proper own target) : Shortlist own target query.closest where
  length := List.length_take_le ..
  sorted := (h.sorted.filter _).take
  foreign := fun contact hmem =>
    h.foreign contact (List.mem_of_mem_filter (List.mem_of_mem_take hmem))

/-- What the outcomes heard so far mean for a step of a lookup. -/
def Step.Meets (own target : Id) (heard : List Outcome) : Step → Prop
  | .goOn query =>
    heard.findSome? (Outcome.publishersOf? target) = none ∧ query.Proper own target
  | .found publishers =>
    heard.findSome? (Outcome.publishersOf? target) = some publishers

/-- Outcomes that name no publishers may come before. -/
theorem Step.Meets.append {heard more : List Outcome} {step : Step}
    (hnone : heard.findSome? (Outcome.publishersOf? target) = none)
    (h : step.Meets own target more) : step.Meets own target (heard ++ more) := by
  have hsame := findSome?_append_of_none hnone more
  cases step with
  | goOn query => exact ⟨hsame.trans h.1, h.2⟩
  | found publishers => exact hsame.trans h

/-- Publishers of the target end a lookup, and anything else leaves it proper. -/
theorem Proper.takeIn (h : query.Proper own target) (houtcome : outcome.Foreign own) :
    (query.takeIn own outcome).Meets own target [outcome] := by
  have hnil : ∀ contact ∈ ([] : List Contact), contact.id ≠ own := List.forall_mem_nil _
  match outcome, houtcome with
  | .failed error, _ => exact ⟨rfl, h⟩
  | .replied ⟨sender, .success marker⟩, houtcome =>
    exact ⟨rfl, h.addResponse (houtcome _ rfl) hnil⟩
  | .replied ⟨sender, .nodes contacts⟩, houtcome =>
    refine ⟨rfl, h.addResponse (houtcome _ rfl) fun contact hmem => ?_⟩
    simpa using List.of_mem_filter hmem
  | .replied ⟨sender, .values key publishers⟩, houtcome =>
    by_cases hkey : key = target
    · simp [Query.takeIn, Step.Meets, Outcome.publishersOf?, h.aim, hkey]
    · simp [Query.takeIn, Step.Meets, Outcome.publishersOf?, h.aim, hkey,
        h.addResponse (houtcome _ rfl) hnil]

end Query

/-! ### Lookups -/

/-- What the outcomes that a lookup has heard mean for its finding. -/
def Finding.Meets (own target : Id) (heard : List Outcome) : Finding → Prop
  | .nodes contacts =>
    heard.findSome? (Outcome.publishersOf? target) = none ∧ Shortlist own target contacts
  | .values publishers =>
    heard.findSome? (Outcome.publishersOf? target) = some publishers

theorem Finding.Meets.append {own target : Id} {heard more : List Outcome} {finding : Finding}
    (hnone : heard.findSome? (Outcome.publishersOf? target) = none)
    (h : finding.Meets own target more) : finding.Meets own target (heard ++ more) := by
  have hsame := findSome?_append_of_none hnone more
  cases finding with
  | nodes contacts => exact ⟨hsame.trans h.1, h.2⟩
  | values publishers => exact hsame.trans h

namespace Node

open Dialogue

/-- A node with the id, whose table and answers keep the id out. -/
structure Poised (own : Id) (node : Node) : Prop where
  id : node.id = own
  centre : node.table.own = own
  wellFormed : node.table.WellFormed
  settled : ∀ item ∈ node.ledger.settled, item.2.Foreign own

/-- A contract on which a lookup with the request can rely. -/
structure Backs (own : Id) (asked : Request) (contract : Contract) : Prop where
  sees : ∀ node, contract.sees node → node.Poised own
  hears : ∀ outcome, contract.hears outcome → outcome.Foreign own
  asks : ∀ destination, contract.asks destination asked

variable {own target : Id} {asked : Request} {contract : Contract} {query : Query} {node : Node}

theorem foreign_timeout (own : Id) : (Outcome.failed .timeout).Foreign own := by
  intro reply heq
  exact absurd heq (by simp)

theorem poised_new (config : Config) (address : Endpoint) (draws : Draws) (now : Time) :
    (new config address draws now).Poised (new config address draws now).id where
  id := rfl
  centre := rfl
  wellFormed := RoutingTable.wellFormed_new _ _
  settled := List.forall_mem_nil _

theorem Poised.turns {now : Time} {next : Node} (h : node.Poised own)
    (hturn : node.Turns now next) : next.Poised own := by
  have hsame := hturn.sameNode
  refine ⟨hsame.id.trans h.id, hsame.table.own.trans h.centre,
    hsame.table.wellFormed h.wellFormed, ?_⟩
  obtain ⟨opened, heard, hdealt, hforeign⟩ := hturn.dealt
  intro item hitem
  rcases hdealt.settled item hitem with hitem | htimeout | ⟨_, -, -, message, source, hmem, hanswer⟩
  · exact h.settled item hitem
  · rw [htimeout]
    exact foreign_timeout own
  · intro reply heq
    have hsender : message.sender ≠ own := h.id ▸ hforeign _ hmem
    have houtcome := hanswer.outcome
    rw [heq, Ledger.outcomeOf?] at houtcome
    split at houtcome <;> simp at houtcome
    rwa [← houtcome]

/-- A node is poised throughout its life, whatever activity is attended to. -/
theorem poised_run {α : Type} (dialogue : Dialogue α) (config : Config) (address : Endpoint)
    (draws : Draws) (now : Time) (beats : List Attended.Beat) :
    ((Attended.start (.start config address draws now) dialogue).run beats).course.node.Poised
      (new config address draws now).id :=
  Attended.run_keeps (Poised _) (fun _ _ _ hturn h => h.turns hturn)
    (poised_new config address draws now) beats

/-- What a poised node hands out is not an answer of its own. -/
theorem Poised.foreign_poll (h : node.Poised own) {handle : Handle} {outcome : Outcome}
    (hpoll : (node.poll handle).2 = some outcome) : outcome.Foreign own := by
  rcases Ledger.settled_of_poll hpoll with hsettled | rfl
  · exact h.settled _ hsettled
  · exact foreign_timeout own

/-- A lookup starts with contacts other than the node. -/
theorem Poised.seed (h : node.Poised own) (target : Id) (now : Time) :
    (node.seed target now).1.Proper own target := by
  refine Query.proper_new fun contact hmem => ?_
  have hwf := h.wellFormed.touch target now
  have hown : (node.table.touch target now).own = own :=
    (RoutingTable.own_putBucket ..).trans h.centre
  rw [hwf.findClosest_eq] at hmem
  rw [← hown]
  exact hwf.ne_own ((Contact.byDistance_perm ..).subset (List.mem_of_mem_take hmem))

theorem ensures_gatherRound (h : Backs own asked contract) (handles : List Handle)
    (hquery : query.Proper own target) :
    (gatherRound own handles query).Ensures contract fun heard step =>
      step.Meets own target heard := by
  induction handles generalizing query with
  | nil => exact ensures_pure ⟨rfl, hquery⟩
  | cons handle rest ih =>
    refine Ensures.bind (ensures_outcome fun outcome hhears => ?_)
    have hstep := hquery.takeIn (h.hears outcome hhears)
    cases htaken : query.takeIn own outcome with
    | found publishers =>
      rw [htaken] at hstep
      exact ensures_pure hstep
    | goOn next =>
      rw [htaken] at hstep
      obtain ⟨hnone, hnext⟩ := hstep
      exact (ih hnext).mono fun heard step hmeets => hmeets.append hnone

theorem ensures_runRounds (h : Backs own asked contract) (rounds : Nat)
    (hquery : query.Proper own target) :
    (runRounds own asked rounds query).Ensures contract fun heard finding =>
      finding.Meets own target heard := by
  induction rounds generalizing query with
  | zero => exact ensures_pure ⟨rfl, hquery.shortlist⟩
  | succ rounds ih =>
    rw [runRounds]
    split
    · exact ensures_pure ⟨rfl, hquery.shortlist⟩
    refine Ensures.bind (ensures_sendAll (fun destination _ => h.asks destination) ?_)
    intro handles
    refine Ensures.bind ((ensures_gatherRound h handles hquery.nextRound).mono ?_)
    intro heard step hstep
    cases step with
    | found publishers =>
      refine ensures_pure ?_
      show (heard ++ []).findSome? _ = some publishers
      rw [List.append_nil]
      exact hstep
    | goOn next =>
      obtain ⟨hnone, hnext⟩ := hstep
      refine (ih hnext).mono fun more finding hmeets => ?_
      show finding.Meets own target (heard ++ more)
      exact hmeets.append hnone

/-- **Whatever the peers answer**, a lookup comes to a shortlist, unless an answer names publishers
of the target. -/
theorem ensures_lookup (h : Backs own asked contract) (target : Id) :
    (lookup target asked).Ensures contract fun heard finding =>
      finding.Meets own target heard := by
  unfold lookup
  -- The number is too big to be looked into, and nothing here depends on it.
  generalize maxRounds = rounds
  refine Ensures.bind (ensures_look fun node now hsees => ?_)
  rw [(h.sees node hsees).id]
  refine Ensures.bind (ensures_does fun node now hsees => ?_)
  exact ensures_runRounds h rounds ((h.sees node hsees).seed target now)

/-! ### The search for nodes -/

/-- What a lookup relies on; it may send what it likes. -/
def lookupContract (own : Id) : Contract := ⟨Poised own, Outcome.Foreign own, fun _ _ => True⟩

theorem backs_lookupContract (own : Id) (asked : Request) :
    Backs own asked (lookupContract own) :=
  ⟨fun _ h => h, fun _ h => h, fun _ => trivial⟩

/-- The contacts that a search for nodes returns, by the outcomes that it has heard. -/
inductive Returns (own target : Id) (heard : List Outcome) (contacts : List Contact) : Prop where
  | searched (hnone : heard.findSome? (Outcome.publishersOf? target) = none)
      (hcontacts : Shortlist own target contacts)
  /-- The first publishers of the target that were named. -/
  | told (hsome : heard.findSome? (Outcome.publishersOf? target) = some contacts)

theorem ensures_lookupNode (own target : Id) :
    (lookupNode target).Ensures (lookupContract own) (Returns own target) := by
  have hlookup := ensures_lookup (backs_lookupContract own (.findNode target)) target
  unfold lookupNode
  refine Ensures.bind (hlookup.mono fun heard finding hmeets => ?_)
  cases finding with
  | nodes contacts =>
    refine ensures_pure ?_
    rw [List.append_nil]
    exact .searched hmeets.1 hmeets.2
  | values publishers =>
    refine ensures_pure ?_
    rw [List.append_nil]
    exact .told hmeets

/-- **What a search for nodes returns**, in every life of a node and whatever any peer answers: at
most twenty contacts in strictly ascending distance to the target and without the node itself, if
no answer that it has heard names publishers of the target; otherwise the publishers that the first
such answer names, whoever and in whatever order they are. -/
theorem lookupNode_result (config : Config) (address : Endpoint) (draws : Draws) (now : Time)
    (target : Id) (beats : List Attended.Beat) {contacts : List Contact}
    (hresult : ((Attended.start (.start config address draws now) (lookupNode target)).run
      beats).dialogue.result? = some contacts) :
    Returns (new config address draws now).id target
      ((Attended.start (.start config address draws now) (lookupNode target)).run beats).heard
      contacts := by
  have hpoised := poised_run (lookupNode target) config address draws now
  have hstart := Attended.honours_start
    (ensures_lookupNode (new config address draws now).id target) (.start config address draws now)
  have hrun := Attended.honours_run hstart beats (fun before _ => hpoised before)
    (fun before _ handle outcome hpoll => (hpoised before).foreign_poll hpoll) (foreign_timeout _)
  exact hrun.of_result hresult

/-- The life of a node that has met a peer and searches for nodes, up to the outcome of its first
request, which the peer answers. -/
def searchBeats (answer : Response) : List Attended.Beat :=
  let peer : Contact := ⟨⟨1⟩, ⟨⟨10, 0, 0, 2⟩, 4444⟩⟩
  [.other (.happens (.addContact peer fun _ => false)), .proceed true, .proceed true, .proceed true,
   .other (.happens (.receive (Message.encode ⟨.ofNat 1, peer.id, .response answer⟩) peer.address
      fun _ => false)),
   .proceed true]

/-- A peer names the searching node itself and a stranger, who does not answer. -/
theorem lookupNode_result_of_nodes :
    let stranger : Contact := ⟨⟨3⟩, ⟨⟨10, 0, 0, 3⟩, 4444⟩⟩
    let beats := searchBeats (.nodes [⟨.zero, ⟨⟨10, 0, 0, 1⟩, 4444⟩⟩, stranger]) ++
      [.proceed true, .giveUp]
    let state := (Attended.start (.start { id := some .zero } ⟨⟨10, 0, 0, 1⟩, 4444⟩ (.ofLists [] [])
      0) (lookupNode ⟨2⟩)).run beats
    state.dialogue.result? = some [⟨⟨1⟩, ⟨⟨10, 0, 0, 2⟩, 4444⟩⟩] ∧
      Returns .zero ⟨2⟩ state.heard [⟨⟨1⟩, ⟨⟨10, 0, 0, 2⟩, 4444⟩⟩] := by
  refine ⟨by decide +kernel, ?_⟩
  exact lookupNode_result { id := some .zero } ⟨⟨10, 0, 0, 1⟩, 4444⟩ (.ofLists [] []) 0 ⟨2⟩ _
    (by decide +kernel)

/-- A peer that answers the search for nodes with publishers has them returned: here out of order,
one of them twice, and among them the searching node itself. -/
theorem lookupNode_returns_publishers :
    let publisher : Nat → Contact := fun n => ⟨⟨BitVec.ofNat _ n⟩, ⟨⟨10, 0, 0, 9⟩, 3333⟩⟩
    let named := [publisher 7, publisher 0, publisher 7]
    let state := (Attended.start (.start { id := some .zero } ⟨⟨10, 0, 0, 1⟩, 4444⟩ (.ofLists [] [])
      0) (lookupNode ⟨2⟩)).run (searchBeats (.values ⟨2⟩ named))
    state.dialogue.result? = some named ∧ ¬ Ranking.Sorted ⟨2⟩ named ∧
      ¬ ∀ contact ∈ named, contact.id ≠ .zero := by
  refine ⟨by decide +kernel, ?_, ?_⟩
  · unfold Ranking.Sorted
    decide +kernel
  · decide +kernel

end Node

end Kademlia
