import Kademlia.Proofs.Message.RoundTrip
import Kademlia.Proofs.Node.Acceptance
import Kademlia.Proofs.RoutingTable.Known

/-!
# Kademlia.Proofs.Node.Provenance

Where the contacts in a node's table come from. The contacts that a node heard from in its life are
the senders of the packets that it accepted, each at the address that the packet came from
(`Course.acceptances`). One of them enters the table at a time, in place of what was known of its
id, and nothing else brings in anybody (`Course.known_undergo`). So throughout a life the table
knows of each id what was heard of it last (`Course.find?_acceptances`); contacts that others
merely name, in answer to a lookup for instance, do not enter it.
-/

namespace Kademlia

open RoutingTable (WellFormed)

namespace Node

variable {node next : Node} {now : Time} {entry : Entry} {contact : Contact}

/-! ### Who is forgotten -/

theorem known_refused_subset (node : Node) (out : Outgoing) :
    (node.refused out).table.known ⊆ node.table.known := by
  cases out with
  | probe contact opened => exact node.table.known_evict_subset contact.id
  | _ => exact List.Subset.refl _

theorem known_afterSending_subset (lost : Outgoing → Bool) (result : Node × List Outgoing) :
    (afterSending lost result).table.known ⊆ result.1.table.known := by
  refine List.foldlRecOn (motive := fun next : Node => next.table.known ⊆ result.1.table.known)
    result.2 _ (List.Subset.refl _) fun node h out _ => ?_
  split
  · exact List.Subset.trans (node.known_refused_subset out) h
  · exact h

theorem known_startProbe_subset (node : Node) (contact : Contact) (now : Time) :
    (node.startProbe contact now).1.table.known ⊆ node.table.known := by
  rw [startProbe]
  split
  · rename_i hstart
    obtain ⟨-, -, -, -, draws, rfl⟩ := startRequest_eq_ok hstart
    exact List.Subset.refl _
  · exact node.table.known_evict_subset contact.id

theorem known_reviewProbe_subset (node : Node) (probe : Probe) :
    (node.reviewProbe probe).table.known ⊆ node.table.known := by
  cases hpoll : (node.ledger.poll probe.handle).2 with
  | none =>
    rw [reviewProbe_of_none hpoll]
    exact List.Subset.refl _
  | some outcome =>
    rw [reviewProbe_of_some hpoll, concludeProbe]
    split
    · exact node.table.known_pingAnswered_subset probe.contact.id
    · exact node.table.known_evict_subset probe.contact.id

theorem known_foldl_reviewProbe_subset (probes : List Probe) (node : Node) :
    (probes.foldl reviewProbe node).table.known ⊆ node.table.known :=
  List.foldlRecOn (motive := fun next : Node => next.table.known ⊆ node.table.known) probes
    reviewProbe (List.Subset.refl _)
    fun reviewed h probe _ => List.Subset.trans (reviewed.known_reviewProbe_subset probe) h

theorem known_tick_subset (node : Node) (now : Time) (lost : Outgoing → Bool) :
    (afterSending lost (node.tick now)).table.known ⊆ node.table.known := by
  rw [afterSending_tick]
  exact known_foldl_reviewProbe_subset _ _

theorem OwnStep.known_subset (h : node.OwnStep now next) : next.table.known ⊆ node.table.known := by
  cases h with
  | touch target => exact node.table.known_touch_subset target now
  | _ => exact List.Subset.refl _

/-! ### Who is noted -/

theorem eq_or_mem_known_of_addContact (hwf : node.table.WellFormed)
    (hown : contact.id ≠ node.table.own) (lost : Outgoing → Bool)
    (h : entry ∈ (afterSending lost (node.addContact contact now)).table.known) :
    entry.contact = contact ∨ entry ∈ node.table.known ∧ entry.id ≠ contact.id := by
  have hupdated : entry ∈ (node.table.update contact now).1.known := by
    have h := known_afterSending_subset lost _ h
    cases hsuspect : (node.table.update contact now).2.suspect? with
    | none => rwa [addContact_of_no_suspect hsuspect] at h
    | some suspect =>
      rw [addContact_of_suspect hsuspect] at h
      exact known_startProbe_subset _ _ _ h
  exact (hwf.eq_or_mem_known_of_update hown hupdated).imp_left (congrArg Entry.contact)

end Node

namespace Course

variable {course : Course} {entry : Entry} {contact : Contact} {incidents : List Incident}

/-- The sender of the packet that a node accepts, and where the packet came from. -/
def acceptance? (course : Course) : Incident → Option Contact
  | .happens (.receive packet source _) =>
    (course.node.accepted? packet source).map fun message => ⟨message.sender, source⟩
  | _ => none

/-- The senders of all packets that are accepted in a life, most recent first. -/
def acceptances (course : Course) : List Incident → List Contact
  | [] => []
  | incident :: incidents =>
    (course.undergo incident).acceptances incidents ++ (course.acceptance? incident).toList

theorem table_request (node : Node) (now : Time) (destination : Endpoint) (asked : Request)
    (sent : Bool) : (request node now destination asked sent).1.table = node.table := by
  rw [request]
  cases hstart : node.startRequest destination asked now with
  | error error => rfl
  | ok result =>
    obtain ⟨next, opened⟩ := result
    obtain ⟨-, -, -, -, draws, rfl⟩ := Node.startRequest_eq_ok hstart
    cases sent <;> rfl

theorem known_advance_subset {α : Type} (dialogue : Dialogue α) (node : Node) (now : Time)
    (sent : Bool) :
    (advance node now sent dialogue).1.table.known ⊆ node.table.known := by
  cases dialogue with
  | done value => exact List.Subset.refl _
  | step deed next => exact (deed.ownStep node now).known_subset
  | request destination asked next =>
    rw [advance, table_request]
    exact List.Subset.refl _
  | await handle next =>
    rw [advance]
    rcases hpoll : node.poll handle with ⟨polled, outcome | outcome⟩
    · exact List.Subset.refl _
    · have htable : node.table = polled.table := congrArg (·.1.table) hpoll
      rw [htable]
      exact List.Subset.refl _

/-- **What an incident makes a node know** is the sender of the packet that it accepts, in place of
what was known of the same id. -/
theorem known_undergo (h : course.Sturdy) {incident : Incident}
    (hadd : ∀ contact lost, incident ≠ .happens (.addContact contact lost))
    (hentry : entry ∈ (course.undergo incident).node.table.known) :
    match course.acceptance? incident with
    | none => entry ∈ course.node.table.known
    | some contact => entry.contact = contact ∨
        entry ∈ course.node.table.known ∧ entry.id ≠ contact.id := by
  cases incident with
  | shutdown => exact hentry
  | happens happening =>
    cases happening with
    | receive packet source lost =>
      rw [acceptance?]
      rw [Course.undergo, perform] at hentry
      cases haccepted : course.node.accepted? packet source with
      | none =>
        rw [Node.receive_of_not_accepted haccepted] at hentry
        exact hentry
      | some message =>
        have hne : message.sender ≠ course.node.table.own := by
          rw [h.own]
          exact (Node.accepted?_eq_some_iff.mp haccepted).2.1
        obtain ⟨records, ledger, -, hreceive⟩ :=
          Node.exists_afterSending_of_accepted h.orderly haccepted course.now lost
        rw [hreceive] at hentry
        exact @Node.eq_or_mem_known_of_addContact { course.node with records, ledger } _ _ _
          h.wellFormed hne lost hentry
    | addContact contact lost => exact absurd rfl (hadd contact lost)
    | tick lost => exact Node.known_tick_subset _ _ _ hentry
    | proceed index sent =>
      rw [Course.undergo, perform] at hentry
      cases hget : course.activities[index]? with
      | none =>
        rw [hget] at hentry
        exact hentry
      | some dialogue =>
        rw [hget] at hentry
        exact known_advance_subset dialogue _ _ _ hentry
    | giveUp index =>
      rw [Course.undergo, perform] at hentry
      split at hentry <;> exact hentry
    | _ => exact hentry

/-- What is known of an id is what was heard of it last. -/
theorem find?_acceptances (h : course.Sturdy) {before : List Contact}
    (hbefore : ∀ entry ∈ course.node.table.known,
      before.find? (·.id = entry.id) = some entry.contact)
    (hadd : ∀ contact lost, .happens (.addContact contact lost) ∉ incidents) :
    ∀ entry ∈ (course.live incidents).node.table.known,
      (course.acceptances incidents ++ before).find? (·.id = entry.id) = some entry.contact := by
  induction incidents generalizing course before with
  | nil => exact hbefore
  | cons incident incidents ih =>
    rw [acceptances, List.append_assoc]
    refine ih (h.undergo incident) (fun entry hentry => ?_)
      fun contact lost hmem => hadd contact lost (List.mem_cons_of_mem _ hmem)
    have hcases := known_undergo h
      (fun contact lost heq => hadd contact lost (heq ▸ List.mem_cons_self)) hentry
    cases haccepted : course.acceptance? incident with
    | none =>
      rw [haccepted] at hcases
      exact hbefore entry hcases
    | some contact =>
      rw [haccepted] at hcases
      rw [Option.toList_some, List.singleton_append]
      rcases hcases with rfl | ⟨hentry, hne⟩
      · exact List.find?_cons_of_pos (decide_eq_true rfl)
      · rw [List.find?_cons_of_neg (by simpa using hne.symm)]
        exact hbefore entry hentry

/-- The contact is the sender and the source of a packet that was accepted, and no packet of its id
was accepted later. -/
def HeardLast (course : Course) (incidents : List Incident) (contact : Contact) : Prop :=
  ∃ early packet source lost late message,
    incidents = early ++ .happens (.receive packet source lost) :: late ∧
      (course.live early).node.accepted? packet source = some message ∧
      contact = ⟨message.sender, source⟩ ∧
      ∀ later ∈ (course.live (early ++ [.happens (.receive packet source lost)])).acceptances late,
        later.id ≠ contact.id

theorem heardLast_of_find?_acceptances
    (h : (course.acceptances incidents).find? (·.id = contact.id) = some contact) :
    course.HeardLast incidents contact := by
  induction incidents generalizing course with
  | nil => exact absurd h (by simp [acceptances])
  | cons incident incidents ih =>
    rw [acceptances, List.find?_append] at h
    cases hlater : ((course.undergo incident).acceptances incidents).find? (·.id = contact.id) with
    | some later =>
      rw [hlater, Option.some_or] at h
      obtain ⟨early, packet, source, lost, late, message, rfl, haccepted, heq, hlast⟩ :=
        ih (hlater.trans h)
      exact ⟨incident :: early, packet, source, lost, late, message, rfl, haccepted, heq, hlast⟩
    | none =>
      rw [hlater, Option.none_or] at h
      have hmem := Option.mem_toList.mp (List.mem_of_find?_eq_some h)
      cases incident with
      | shutdown => exact absurd hmem (by simp [acceptance?])
      | happens happening =>
        cases happening with
        | receive packet source lost =>
          obtain ⟨message, haccepted, rfl⟩ := Option.map_eq_some_iff.mp hmem
          refine ⟨[], packet, source, lost, incidents, message, rfl, haccepted, rfl, ?_⟩
          intro later hmem heq
          exact List.find?_eq_none.mp hlater later hmem (decide_eq_true heq)
        | _ => exact absurd hmem (by simp [acceptance?])

end Course

namespace Node

/-- **Where contacts come from.** In a life in which no caller adds contacts, all that a node's
buckets hold, in their places or waiting for one, are senders of packets that the node accepted, at
the addresses that these came from last. None of them is the node itself. -/
theorem known_of_accepted (config : Config) (address : Endpoint) (draws : Draws) (start : Time)
    {incidents : List Incident}
    (hadd : ∀ contact lost, .happens (.addContact contact lost) ∉ incidents) :
    let begun := Course.start config address draws start
    let node := (begun.live incidents).node
    ∀ bucket ∈ node.table.buckets, ∀ entry ∈ bucket.nodes ++ bucket.replacements,
      entry.id ≠ node.id ∧ begun.HeardLast incidents entry.contact := by
  intro begun node bucket hbucket entry hentry
  have hsturdy : begun.Sturdy := Course.sturdy_start config address draws start
  have hknown : entry ∈ node.table.known :=
    RoutingTable.mem_known_iff.mpr ⟨bucket, hbucket, hentry⟩
  have hnone : ∀ entry ∈ begun.node.table.known,
      ([] : List Contact).find? (·.id = entry.id) = some entry.contact := List.forall_mem_nil _
  have hfind := Course.find?_acceptances hsturdy hnone hadd entry hknown
  rw [List.append_nil] at hfind
  have hlast := hsturdy.live incidents
  refine ⟨?_, Course.heardLast_of_find?_acceptances hfind⟩
  rw [← hlast.own]
  exact hlast.wellFormed.id_ne_own hknown

/-- The life of a node that asks the node 2 for contacts and is told of the node 6, is then pinged
by the node 2 from another address, and gets an answer of the node 2 that it does not wait for. -/
def namingIncidents : List Incident :=
  let told : Bytes :=
    Message.encode ⟨.ofNat 1, ⟨2⟩, .response (.nodes [⟨⟨6⟩, ⟨⟨10, 0, 0, 6⟩, 4444⟩⟩])⟩
  let pinged : Bytes := Message.encode ⟨.ofNat 9, ⟨2⟩, .request .ping⟩
  [.happens (.begin (.request ⟨⟨10, 0, 0, 2⟩, 4444⟩ (.findNode ⟨6⟩) true)),
   .happens (.proceed 0 true),
   .happens (.receive told ⟨⟨10, 0, 0, 2⟩, 4444⟩ fun _ => false),
   .happens (.receive pinged ⟨⟨10, 9, 9, 9⟩, 4444⟩ fun _ => false),
   .happens (.receive told ⟨⟨10, 0, 0, 8⟩, 4444⟩ fun _ => false)]

theorem known_of_accepted_of_named :
    let begun := Course.start { id := some .zero } ⟨⟨10, 0, 0, 1⟩, 4444⟩ (.ofLists [] []) 0
    let node := (begun.live namingIncidents).node
    (∀ contact lost, .happens (.addContact contact lost) ∉ namingIncidents) ∧
      node.table.known.map Entry.contact = [⟨⟨2⟩, ⟨⟨10, 9, 9, 9⟩, 4444⟩⟩] ∧
      (⟨2⟩ : Id) ≠ node.id ∧
      begun.HeardLast namingIncidents ⟨⟨2⟩, ⟨⟨10, 9, 9, 9⟩, 4444⟩⟩ := by
  intro begun node
  have hadd : ∀ contact lost, .happens (.addContact contact lost) ∉ namingIncidents := by
    simp [namingIncidents]
  have hheld : ∃ bucket ∈ node.table.buckets,
      (⟨⟨⟨2⟩, ⟨⟨10, 9, 9, 9⟩, 4444⟩⟩, 0⟩ : Entry) ∈ bucket.nodes ++ bucket.replacements := by
    decide +kernel
  obtain ⟨bucket, hbucket, hentry⟩ := hheld
  exact ⟨hadd, by decide +kernel, known_of_accepted { id := some .zero } ⟨⟨10, 0, 0, 1⟩, 4444⟩
    (.ofLists [] []) 0 hadd bucket hbucket _ hentry⟩

end Node

end Kademlia
