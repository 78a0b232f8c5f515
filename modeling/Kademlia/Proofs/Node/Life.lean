import Mathlib.Logic.Relation
import Kademlia.Proofs.Node.Probing
import Kademlia.Proofs.RoutingTable.History

/-!
# Kademlia.Proofs.Node.Life

The life of a node: its course (`Happening`), and that it may be shut down at any moment of it
(`Incident`). Callers may go on asking things of a node that was shut down.

Most of what happens to a node is care for its contacts and its requests. `Node.Tended` says what
that leaves as it is: who the node is, its settings and its records. The table becomes what tables
become by what is asked of them (`RoutingTable.Becomes`), so what every operation on a table keeps,
the whole life of a node keeps. `Node.Turns.sameNode` is the sum of it.
-/

namespace Kademlia

/-! ### Tables -/

namespace RoutingTable

/-- One table comes from another by operations on it. -/
def Becomes : RoutingTable → RoutingTable → Prop :=
  Relation.ReflTransGen fun table next => ∃ now operation, (table.perform now operation).1 = next

variable {table next : RoutingTable}

theorem becomes_perform (table : RoutingTable) (now : Time) (operation : Operation) :
    table.Becomes (table.perform now operation).1 :=
  .single ⟨now, operation, rfl⟩

theorem Becomes.own (h : table.Becomes next) : next.own = table.own := by
  induction h with
  | refl => rfl
  | tail _ hstep ih =>
    obtain ⟨now, operation, rfl⟩ := hstep
    rw [own_perform, ih]

theorem Becomes.wellFormed (h : table.Becomes next) (hwf : table.WellFormed) :
    next.WellFormed := by
  induction h with
  | refl => exact hwf
  | tail _ hstep ih =>
    obtain ⟨now, operation, rfl⟩ := hstep
    exact ih.perform now operation

/-- A table does not hold its own id. -/
theorem WellFormed.ne_own (h : table.WellFormed) {contact : Contact}
    (hmem : contact ∈ table.contacts) : contact.id ≠ table.own := by
  obtain ⟨entry, hentry, rfl⟩ := List.mem_map.mp hmem
  obtain ⟨bucket, hbucket, hentry⟩ := List.mem_flatMap.mp hentry
  obtain ⟨index, hindex⟩ := List.getElem?_of_mem hbucket
  exact ((h.fits index bucket hindex).covers entry.id (.inl (List.mem_map_of_mem hentry))).1

end RoutingTable

namespace Node

variable {node next other : Node} {now : Time}

/-! ### Two states of one node -/

/-- Two states of one node, the second later. -/
structure SameNode (node next : Node) : Prop where
  id : next.id = node.id
  address : next.address = node.address
  config : next.config = node.config
  table : node.table.Becomes next.table

/-- The node may have cared for its contacts and requests; nothing else has happened to it. -/
structure Tended (node next : Node) : Prop extends SameNode node next where
  records : next.records = node.records

@[refl] theorem SameNode.refl (node : Node) : node.SameNode node := ⟨rfl, rfl, rfl, .refl⟩

theorem SameNode.trans (h : node.SameNode next) (hnext : next.SameNode other) :
    node.SameNode other :=
  ⟨hnext.id.trans h.id, hnext.address.trans h.address, hnext.config.trans h.config,
    h.table.trans hnext.table⟩

@[refl] theorem Tended.refl (node : Node) : node.Tended node := ⟨.refl node, rfl⟩

theorem Tended.trans (h : node.Tended next) (hnext : next.Tended other) : node.Tended other :=
  ⟨h.toSameNode.trans hnext.toSameNode, hnext.records.trans h.records⟩

/-- Requests, probes and draws are part of the care. -/
theorem tended_with (node : Node) (ledger : Ledger) (probes : List Probe) (draws : Draws) :
    node.Tended { node with ledger, probes, draws } :=
  ⟨⟨rfl, rfl, rfl, .refl⟩, rfl⟩

theorem tended_perform (node : Node) (now : Time) (operation : RoutingTable.Operation) :
    node.Tended { node with table := (node.table.perform now operation).1 } :=
  ⟨⟨rfl, rfl, rfl, node.table.becomes_perform now operation⟩, rfl⟩

theorem sameNode_records (node : Node) (records : RecordStore) :
    node.SameNode { node with records } :=
  ⟨rfl, rfl, rfl, .refl⟩

/-! ### Contacts and requests -/

theorem tended_evict (node : Node) (id : Id) : node.Tended (node.evict id) :=
  node.tended_perform default (.evict id)

theorem tended_refused (node : Node) (out : Outgoing) : node.Tended (node.refused out) := by
  cases out with
  | answer datagram => exact .refl node
  | retry datagram => exact .refl node
  | probe contact opened => exact (node.tended_with ..).trans (tended_evict _ contact.id)

theorem tended_afterSending (lost : Outgoing → Bool) (result : Node × List Outgoing) :
    result.1.Tended (afterSending lost result) := by
  refine List.foldlRecOn result.2 _ (.refl result.1) fun node h out _ => ?_
  split
  · exact h.trans (node.tended_refused out)
  · exact h

theorem tended_startRequest {destination : Endpoint} {asked : Request} {opened : OpenedRequest}
    (h : node.startRequest destination asked now = .ok (next, opened)) : node.Tended next := by
  obtain ⟨-, -, -, -, draws, rfl⟩ := startRequest_eq_ok h
  exact node.tended_with ..

theorem tended_startProbe (node : Node) (contact : Contact) (now : Time) :
    node.Tended (node.startProbe contact now).1 := by
  rw [startProbe]
  cases hstart : node.startRequest contact.address .ping now with
  | error error => exact node.tended_evict contact.id
  | ok result => exact (tended_startRequest hstart).trans (result.1.tended_with ..)

theorem tended_addContact (node : Node) (contact : Contact) (now : Time) :
    node.Tended (node.addContact contact now).1 := by
  have hupdate := node.tended_perform now (.update contact)
  cases hsuspect : (node.table.update contact now).2.suspect? with
  | none =>
    rw [addContact_of_no_suspect hsuspect]
    exact hupdate
  | some suspect =>
    rw [addContact_of_suspect hsuspect]
    exact hupdate.trans (tended_startProbe ..)

theorem tended_concludeProbe (node : Node) (contact : Contact) (outcome : Outcome) :
    node.Tended (node.concludeProbe contact outcome) := by
  rw [concludeProbe]
  split
  · exact node.tended_perform default (.pingAnswered contact.id)
  · exact node.tended_evict contact.id

theorem tended_reviewProbe (node : Node) (probe : Probe) :
    node.Tended (node.reviewProbe probe) := by
  cases hpoll : (node.ledger.poll probe.handle).2 with
  | none =>
    rw [reviewProbe_of_none hpoll]
    exact node.tended_with ..
  | some outcome =>
    rw [reviewProbe_of_some hpoll]
    exact (node.tended_with ..).trans (tended_concludeProbe ..)

theorem tended_tick (node : Node) (now : Time) (lost : Outgoing → Bool) :
    node.Tended (afterSending lost (node.tick now)) := by
  rw [afterSending_tick]
  exact List.foldlRecOn node.probes reviewProbe (node.tended_with ..)
    fun reviewed h probe _ => h.trans (reviewed.tended_reviewProbe probe)

/-! ### Turns -/

/-- All that happens to a node in its life. -/
inductive Turns (now : Time) (node : Node) : Node → Prop where
  | moves {next : Node} (h : node.Moves now next) : Turns now node next
  | shutdown : Turns now node node.shutdown

theorem OwnStep.sameNode (h : node.OwnStep now next) : node.SameNode next := by
  cases h with
  | look => exact .refl node
  | touch target => exact (node.tended_perform now (.touch target)).toSameNode
  | publish key => exact node.sameNode_records _
  | sweep => exact node.sameNode_records _
  | draw upkeep => exact (node.tended_with ..).toSameNode

theorem Moves.sameNode (h : node.Moves now next) : node.SameNode next := by
  cases h with
  | rest => exact .refl node
  | receive packet source lost =>
    generalize hreceived : afterSending lost (node.receive packet source now) = next
    have hcases := hreceived ▸ received_receive node packet source now lost
    cases hcases with
    | ignored => exact .refl node
    | request message records =>
      have hnoted := (tended_addContact { node with records } ⟨message.sender, source⟩ now).trans
        (tended_afterSending lost _)
      exact (node.sameNode_records records).trans hnoted.toSameNode
    | @answer message ledger hresolve =>
      have hnoted := (tended_addContact { node with ledger } ⟨message.sender, source⟩ now).trans
        (tended_afterSending lost _)
      exact ((node.tended_with ..).trans hnoted).toSameNode
  | addContact contact lost =>
    exact ((node.tended_addContact contact now).trans (tended_afterSending lost _)).toSameNode
  | tick lost => exact (node.tended_tick now lost).toSameNode
  | own hstep => exact hstep.sameNode
  | opened hstart => exact (tended_startRequest hstart).toSameNode
  | withdrawn hstart => exact ((tended_startRequest hstart).trans (tended_with ..)).toSameNode
  | polled handle => exact (node.tended_with ..).toSameNode

/-- **A node stays who it is**, and its table is what became of the table it began with. -/
theorem Turns.sameNode (h : node.Turns now next) : node.SameNode next := by
  cases h with
  | moves hmove => exact hmove.sameNode
  | shutdown => exact (node.tended_with ..).toSameNode

end Node

/-! ### Lives -/

/-- What may happen next in the life of a node. -/
inductive Incident where
  | happens (happening : Happening)
  | shutdown

namespace Course

/-- Something happens. -/
def undergo (course : Course) : Incident → Course
  | .happens happening => course.perform happening
  | .shutdown => { course with node := course.node.shutdown }

/-- One thing happens after the other. -/
def live (course : Course) (incidents : List Incident) : Course := incidents.foldl undergo course

theorem turns_undergo (course : Course) (incident : Incident) :
    course.node.Turns course.now (course.undergo incident).node := by
  cases incident with
  | happens happening => exact .moves (course.moves_perform happening)
  | shutdown => exact .shutdown

/-- What all turns of a node keep holds throughout its life. -/
theorem live_keeps (Keeps : Node → Prop)
    (hturn : ∀ now node next, Node.Turns now node next → Keeps node → Keeps next) {course : Course}
    (hstart : Keeps course.node) (incidents : List Incident) :
    Keeps (course.live incidents).node := by
  induction incidents generalizing course with
  | nil => exact hstart
  | cons incident incidents ih =>
    exact ih (hturn _ _ _ (course.turns_undergo incident) hstart)

end Course

end Kademlia
