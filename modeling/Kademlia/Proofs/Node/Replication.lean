import Kademlia.Proofs.Message.RoundTrip
import Kademlia.Proofs.Node.LookupResult
import Kademlia.Proofs.RecordStore.History

/-!
# Kademlia.Proofs.Node.Replication

What is left of a record that a node passes on to another. Upkeep asks other nodes to store what the
node remembers about a key; such a request carries the id and the port of the publisher, and whoever
serves it takes the publisher to be reached at the address that the request came from. So the other
node remembers the right id and the right port, and the address of the node that passed the record
on (`Node.replicated_contact`).

The proof follows a record through four functions. On the side of the sender it is a contract: a
store request is owed to a record that the node held when it looked (`Node.upkeepContract`). The
packet tells the request (`Message.decode_encode`), and the receiver holds just one record of the
publisher once it has served it (`RecordStore.ofPublisher_insert`).
-/

namespace Kademlia

namespace Node

open Dialogue

variable {own key publisher : Id} {port : UInt16} {seen : Node → Prop} {beats : List Attended.Beat}

/-! ### The receiver -/

/-- A node that gets a store request of another remembers the publisher at the address that the
request came from. -/
theorem ofPublisher_receive_store {receiver sender : Node} (h : sender.id ≠ receiver.id)
    (transaction : TransactionId) (key publisher : Id) (port : UInt16) (source : Endpoint)
    (now : Time) (lost : Outgoing → Bool) :
    (afterSending lost (receiver.receive (sender.packet transaction
        (.request (.store key publisher port))) source now)).records.ofPublisher key publisher =
      [⟨⟨publisher, ⟨source.ip, port⟩⟩, now, now + receiver.records.expire⟩] := by
  have hheeded : receiver.heeded? (sender.packet transaction
      (.request (.store key publisher port))) =
        some ⟨transaction, sender.id, .request (.store key publisher port)⟩ :=
    heeded?_eq_some.mpr ⟨Message.decode_encode _, h⟩
  rw [records_receive, served?, hheeded]
  exact receiver.records.ofPublisher_insert key ⟨publisher, ⟨source.ip, port⟩⟩ now

/-! ### The sender -/

/-- A publisher of a key with its port, as a node that was seen remembers it. -/
def Remembered (seen : Node → Prop) (key publisher : Id) (port : UInt16) : Prop :=
  ∃ node, seen node ∧ ∃ record ∈ node.records.of key,
    record.publisher.id = publisher ∧ record.publisher.address.port = port

/-- What upkeep owes: where it asks for another publisher to be stored, the node remembered it. -/
def upkeepContract (own : Id) (seen : Node → Prop) : Contract where
  sees node := node.Poised own ∧ seen node
  hears := Outcome.Foreign own
  asks _ asked := ∀ key publisher port, asked = .store key publisher port →
    publisher = own ∨ Remembered seen key publisher port

/-- Requests other than stores owe nothing. -/
theorem backs_upkeepContract (own : Id) (seen : Node → Prop) (target : Id) :
    Backs own (.findNode target) (upkeepContract own seen) where
  sees := fun _ => And.left
  hears := fun _ h => h
  asks := fun _ _ _ _ heq => absurd heq (by simp)

theorem ensures_quiet_lookupNode (own : Id) (seen : Node → Prop) (target : Id) :
    (lookupNode target).Ensures (upkeepContract own seen) fun _ _ => True := by
  have hlookup := ensures_lookup (backs_upkeepContract own seen target) target
  unfold lookupNode
  refine Ensures.bind (hlookup.mono fun heard finding _ => ?_)
  cases finding <;> exact ensures_pure trivial

theorem ensures_storeAt {publisher : Contact}
    (h : publisher.id = own ∨ Remembered seen key publisher.id publisher.address.port)
    (contacts : List Contact) :
    (storeAt contacts key publisher).Ensures (upkeepContract own seen) fun _ _ => True := by
  unfold storeAt
  refine Ensures.bind (ensures_sendAll (fun destination _ => ?_) fun handles => ?_)
  · intro askedKey askedPublisher askedPort heq
    obtain ⟨rfl, rfl, rfl⟩ := Request.store.inj heq
    exact h
  · refine Ensures.bind (ensures_outcomes fun outcomes _ => ?_)
    exact ensures_pure trivial

theorem ensures_join (own : Id) (seen : Node → Prop) (resolve : Resolver) :
    (join resolve).Ensures (upkeepContract own seen) fun _ _ => True := by
  unfold join
  refine Ensures.bind (ensures_look fun node now _ => ?_)
  refine Ensures.bind (ensures_sendAll (fun destination _ => ?_) fun handles => ?_)
  · intro askedKey askedPublisher askedPort heq
    exact absurd heq (by simp)
  · refine Ensures.bind (ensures_outcomes fun outcomes _ => ?_)
    refine Ensures.bind ((ensures_quiet_lookupNode own seen node.id).mono fun _ _ _ => ?_)
    exact ensures_pure trivial

theorem ensures_announce (own : Id) (seen : Node → Prop) (key : Id) :
    (announce key).Ensures (upkeepContract own seen) fun _ _ => True := by
  unfold announce
  refine Ensures.bind (ensures_does fun node now hsees => ?_)
  refine Ensures.bind ((ensures_quiet_lookupNode own seen key).mono fun _ contacts _ => ?_)
  exact ensures_storeAt (.inl hsees.1.id) contacts

/-- The publishers that are passed on are remembered. -/
theorem remembered_otherPublishers {node : Node} (hseen : seen node) {contact : Contact}
    (hmem : contact ∈ node.otherPublishers key) :
    Remembered seen key contact.id contact.address.port := by
  obtain ⟨record, hrecord, rfl⟩ := List.mem_map.mp (List.mem_of_mem_filter hmem)
  exact ⟨node, hseen, record, hrecord, rfl, rfl⟩

theorem ensures_replicate (own : Id) (seen : Node → Prop) (key : Id) :
    (replicate key).Ensures (upkeepContract own seen) fun _ _ => True := by
  unfold replicate
  refine Ensures.bind (ensures_look fun node now hsees => ?_)
  have hpublishers : ∀ contact ∈ node.otherPublishers key,
      Remembered seen key contact.id contact.address.port :=
    fun contact => remembered_otherPublishers hsees.2
  cases hothers : node.otherPublishers key with
  | nil => exact ensures_pure trivial
  | cons publisher publishers =>
    rw [hothers] at hpublishers
    refine Ensures.bind ((ensures_quiet_lookupNode own seen key).mono fun _ contacts _ => ?_)
    refine ensures_each fun contact hmem => ?_
    refine Ensures.bind ((ensures_storeAt (.inr (hpublishers contact hmem)) contacts).mono ?_)
    exact fun _ _ _ => ensures_pure trivial

theorem ensures_perform (own : Id) (seen : Node → Prop) (resolve : Resolver) (duties : Duties) :
    (perform resolve duties).Ensures (upkeepContract own seen) fun _ _ => True := by
  have hrest : (do
      each (fun target => do let _ ← lookupNode target) duties.refresh
      each replicate duties.replicate
      each (fun key => do let _ ← announce key) duties.republish).Ensures
        (upkeepContract own seen) fun _ _ => True := by
    refine Ensures.bind ((ensures_each fun target _ => ?_).mono fun _ _ _ => ?_)
    · refine Ensures.bind ((ensures_quiet_lookupNode own seen target).mono fun _ _ _ => ?_)
      exact ensures_pure trivial
    refine Ensures.bind ((ensures_each fun key _ => ensures_replicate own seen key).mono ?_)
    intro _ _ _
    refine ensures_each fun key _ => ?_
    exact Ensures.bind ((ensures_announce own seen key).mono fun _ _ _ => ensures_pure trivial)
  unfold perform
  refine Ensures.bind (ensures_look fun node now _ => ?_)
  dsimp only
  split
  · exact Ensures.bind ((ensures_join own seen resolve).mono fun _ _ _ => hrest)
  · exact hrest

theorem ensures_maintain (own : Id) (seen : Node → Prop) (upkeep : Upkeep) (resolve : Resolver) :
    (maintain upkeep resolve).Ensures (upkeepContract own seen) fun _ _ => True := by
  unfold maintain
  refine Ensures.bind (ensures_does fun node now _ => ?_)
  refine Ensures.bind (ensures_does fun node now _ => ?_)
  refine Ensures.bind ((ensures_perform own seen resolve _).mono fun _ _ _ => ?_)
  exact ensures_pure trivial

/-! ### Both -/

/-- The life of a node in which an upkeep is attended to. -/
def tend (config : Config) (address : Endpoint) (draws : Draws) (now : Time) (upkeep : Upkeep)
    (resolve : Resolver) (beats : List Attended.Beat) : Attended Upkeep :=
  (Attended.start (.start config address draws now) (maintain upkeep resolve)).run beats

/-- **A record that is passed on** keeps the id and the port of its publisher and gets the address
of the node that passes it on: whenever an upkeep asks a node to store another publisher, it has
seen a record of that publisher, and any node that gets the request has exactly one record of the
publisher afterwards. -/
theorem replicated_contact (config : Config) (address : Endpoint) (draws : Draws) (now : Time)
    (upkeep : Upkeep) (resolve : Resolver) (beats : List Attended.Beat) {destination : Endpoint}
    (hasked : (destination, Request.store key publisher port) ∈
      (tend config address draws now upkeep resolve beats).asked)
    (hother : publisher ≠ (new config address draws now).id) :
    ∃ record : Record,
      (∃ before, before <+: beats ∧
        record ∈ (tend config address draws now upkeep resolve before).course.node.records.of key) ∧
      record.publisher.id = publisher ∧ record.publisher.address.port = port ∧
      ∀ (receiver : Node) (transaction : TransactionId) (source : Endpoint) (arrival : Time)
        (lost : Outgoing → Bool), receiver.id ≠ (new config address draws now).id →
        (afterSending lost (receiver.receive
          ((tend config address draws now upkeep resolve beats).course.node.packet transaction
            (.request (.store key publisher port))) source arrival)).records.ofPublisher
              key publisher =
          [⟨⟨record.publisher.id, ⟨source.ip, record.publisher.address.port⟩⟩, arrival,
            arrival + receiver.records.expire⟩] := by
  have hpoised := poised_run (maintain upkeep resolve) config address draws now
  have hstart := Attended.honours_start (ensures_maintain (new config address draws now).id
    (fun node => ∃ before, before <+: beats ∧
      node = (tend config address draws now upkeep resolve before).course.node) upkeep resolve)
    (.start config address draws now)
  have hrun := Attended.honours_run hstart beats
    (fun before hbefore => ⟨hpoised before, before, hbefore, rfl⟩)
    (fun before _ handle outcome hpoll => (hpoised before).foreign_poll hpoll) (foreign_timeout _)
  obtain hown | ⟨_, ⟨before, hbefore, rfl⟩, record, hrecord, rfl, rfl⟩ :=
    hrun.asked _ hasked _ _ _ rfl
  · exact absurd hown hother
  refine ⟨record, ⟨before, hbefore, hrecord⟩, rfl, rfl, ?_⟩
  intro receiver transaction source arrival lost hreceiver
  refine ofPublisher_receive_store ?_ transaction key _ _ source arrival lost
  rw [tend, (hpoised beats).id]
  exact hreceiver.symm

/-- A record is passed on: a node stores, under the key 1, the publisher 2 at 10.9.9.9 and port
3333, and knows the node 1 at 10.0.0.2 too. An hour later it asks both for the contacts closest to
the key; the node 1 answers, the publisher does not. -/
def replicationBeats : List Attended.Beat :=
  let publisher : Contact := ⟨⟨2⟩, ⟨⟨10, 9, 9, 9⟩, 4444⟩⟩
  let other : Contact := ⟨⟨1⟩, ⟨⟨10, 0, 0, 2⟩, 4444⟩⟩
  let stored := Message.encode ⟨.ofNat 7, publisher.id, .request (.store ⟨1⟩ publisher.id 3333)⟩
  let answered := Message.encode ⟨.ofNat 1, other.id, .response (.nodes [])⟩
  [.other (.happens (.receive stored publisher.address fun _ => false)),
   .other (.happens (.addContact other fun _ => false)), .other (.happens (.pass 3600000)),
   .proceed true, .proceed true, .proceed true, .proceed true, .proceed true, .proceed true,
   .proceed true, .proceed true,
   .other (.happens (.receive answered other.address fun _ => false)),
   .proceed true, .giveUp, .proceed true]

/-- The node with the zero id at 10.0.0.1 passes the record on. -/
def replicationExample : Attended Upkeep :=
  tend { id := some .zero } ⟨⟨10, 0, 0, 1⟩, 4444⟩ (.ofLists [] []) 0 (.new { refresh := 7200000 } 0)
    .literal replicationBeats

theorem replicated_contact_of_example :
    (⟨⟨10, 0, 0, 2⟩, 4444⟩, Request.store ⟨1⟩ ⟨2⟩ 3333) ∈ replicationExample.asked ∧
      ∃ record : Record, record.publisher.id = ⟨2⟩ ∧ record.publisher.address.port = 3333 ∧
        ∀ (receiver : Node) (transaction : TransactionId) (source : Endpoint) (arrival : Time)
          (lost : Outgoing → Bool), receiver.id ≠ .zero →
          (afterSending lost (receiver.receive (replicationExample.course.node.packet transaction
            (.request (.store ⟨1⟩ ⟨2⟩ 3333))) source arrival)).records.ofPublisher ⟨1⟩ ⟨2⟩ =
            [⟨⟨record.publisher.id, ⟨source.ip, record.publisher.address.port⟩⟩, arrival,
              arrival + receiver.records.expire⟩] := by
  have hasked : (⟨⟨10, 0, 0, 2⟩, 4444⟩, Request.store ⟨1⟩ ⟨2⟩ 3333) ∈ replicationExample.asked := by
    decide +kernel
  have hown : (new { id := some .zero } ⟨⟨10, 0, 0, 1⟩, 4444⟩ (.ofLists [] []) 0).id = .zero := by
    decide +kernel
  have hother :
      (⟨2⟩ : Id) ≠ (new { id := some .zero } ⟨⟨10, 0, 0, 1⟩, 4444⟩ (.ofLists [] []) 0).id := by
    rw [hown]
    decide +kernel
  obtain ⟨record, -, hid, hport, hreceivers⟩ := replicated_contact { id := some .zero }
    ⟨⟨10, 0, 0, 1⟩, 4444⟩ (.ofLists [] []) 0 (.new { refresh := 7200000 } 0) .literal
    replicationBeats hasked hother
  rw [hown] at hreceivers
  refine ⟨hasked, record, hid, hport, ?_⟩
  rw [replicationExample]
  exact hreceivers

/-- The node 1 takes the publisher to be reached at 10.0.0.1, where the request comes from, and not
at 10.9.9.9 as in the record that was passed on. -/
theorem replicated_address_ne :
    let sender := replicationExample.course.node
    let receiver := new { id := some ⟨1⟩ } ⟨⟨10, 0, 0, 2⟩, 4444⟩ (.ofLists [] []) 0
    let request := sender.packet (.ofNat 3) (.request (.store ⟨1⟩ ⟨2⟩ 3333))
    (receiver.address, Request.store ⟨1⟩ ⟨2⟩ 3333) ∈ replicationExample.asked ∧
      (sender.records.ofPublisher ⟨1⟩ ⟨2⟩).map Record.publisher =
        [⟨⟨2⟩, ⟨⟨10, 9, 9, 9⟩, 3333⟩⟩] ∧
      ((receiver.receive request sender.address 3600000).1.records.ofPublisher ⟨1⟩ ⟨2⟩).map
        Record.publisher = [⟨⟨2⟩, ⟨⟨10, 0, 0, 1⟩, 3333⟩⟩] := by
  decide +kernel

end Node

end Kademlia
