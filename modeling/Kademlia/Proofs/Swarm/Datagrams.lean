import Kademlia.Proofs.Message.Size
import Kademlia.Proofs.Node.Publishers
import Kademlia.Proofs.Swarm.Member

/-!
# Kademlia.Proofs.Swarm.Datagrams

Everything that a node sends can be received in full. A node answers with as many contacts as a
bucket has room for and as many publishers as are remembered of a key (`Node.modest_of_serve`), and
it asks and asks again for what can be served (`Course.Speaks`). So the bodies of its packets are
those whose length `Message.length_encode_le` bounds, throughout its life
(`Course.hands_fit`). Left out is what a caller has the node ask that cannot be served at all:
its text may be of any length.
-/

namespace Kademlia

/-! ### Answers -/

namespace Node

variable {node : Node} {source : Endpoint} {asked : Request} {now : Time}

theorem length_closestContacts_le (node : Node) (target : Id) :
    (node.closestContacts target).length ≤ Bucket.capacity := by
  rw [closestContacts, RoutingTable.findClosest]
  exact List.length_take_le ..

theorem length_publishers_le {key : Id}
    (h : (node.records.of key).length ≤ RecordStore.maxPublishers) (now : Time) :
    (node.publishers key now).length ≤ RecordStore.maxPublishers := by
  calc (node.publishers key now).length
    _ ≤ (node.records.get key now).length := List.length_filter_le ..
    _ = ((node.records.of key).filter (now < ·.expiresAt)).length := List.length_map _
    _ ≤ (node.records.of key).length := List.length_filter_le ..
    _ ≤ RecordStore.maxPublishers := h

/-- The lists in an answer are no longer than what the node keeps. -/
theorem modest_of_serve (h : ∀ key, (node.records.of key).length ≤ RecordStore.maxPublishers)
    {body : Body} (hbody : (node.serve source asked now).2 = some body) : body.Modest := by
  cases asked with
  | ping =>
    obtain rfl := Option.some.inj hbody
    exact .pong
  | store key publisher port =>
    obtain rfl := Option.some.inj hbody
    exact .stored
  | findNode target =>
    obtain rfl := Option.some.inj hbody
    exact .nodes (node.length_closestContacts_le target)
  | findValue key =>
    obtain rfl := Option.some.inj hbody
    have hpublishers := length_publishers_le (h key) now
    rw [findValueResponse]
    cases hlist : node.publishers key now with
    | nil => exact .nodes (node.length_closestContacts_le key)
    | cons publisher publishers =>
      rw [hlist] at hpublishers
      exact .values hpublishers
  | invalid method defect =>
    cases defect with
    | emptyKey =>
      obtain rfl := Option.some.inj hbody
      exact .emptyKey
    | _ => exact absurd hbody (by simp [serve])

end Node

/-! ### Requests -/

/-- The request that a caller hands in with an activity that begins. -/
def Incident.request? : Incident → Option Request
  | .happens (.begin activity) => activity.request?
  | _ => none

namespace Course

variable {course : Course} {allowed : Request → Prop} {incident : Incident}

/-- All that a node asks, has asked without an answer, or is going to ask is allowed. -/
structure Speaks (course : Course) (allowed : Request → Prop) : Prop where
  activities : course.Conforms allowed
  unanswered : ∀ opened ∈ course.node.ledger.unanswered, ∃ asked, allowed asked ∧
    opened.datagram.packet = course.node.packet opened.transaction (.request asked)

theorem speaks_start (config : Config) (address : Endpoint) (draws : Draws) (now : Time)
    (allowed : Request → Prop) : (start config address draws now).Speaks allowed where
  activities := List.forall_mem_nil _
  unanswered := List.forall_mem_nil _

/-- The node's own pings are allowed as all that can be served, and activities ask for what is
allowed. -/
theorem Speaks.allowed_of_mem_asks (h : course.Speaks allowed)
    (hservable : ∀ asked : Request, asked.Servable → allowed asked)
    {item : OpenedRequest × Request} (hitem : item ∈ course.asks incident) : allowed item.2 := by
  cases incident with
  | shutdown => exact absurd hitem List.not_mem_nil
  | happens happening =>
    cases happening with
    | receive packet source lost =>
      obtain ⟨opened, -, rfl⟩ := List.mem_map.mp hitem
      exact hservable .ping trivial
    | addContact contact lost =>
      obtain ⟨opened, -, rfl⟩ := List.mem_map.mp hitem
      exact hservable .ping trivial
    | proceed index sent =>
      obtain ⟨opened, asked⟩ := item
      obtain ⟨destination, next, rest, hget, -⟩ := starts?_eq_some (Option.mem_toList.mp hitem)
      exact (h.activities _ (List.mem_of_getElem? hget)).1
    | _ => exact absurd hitem List.not_mem_nil

theorem Speaks.undergo (h : course.Speaks allowed)
    (hservable : ∀ asked : Request, asked.Servable → allowed asked)
    (hrequest : ∀ asked, incident.request? = some asked → allowed asked) :
    (course.undergo incident).Speaks allowed := by
  refine ⟨?_, fun opened hopened => ?_⟩
  · cases incident with
    | shutdown => exact h.activities
    | happens happening =>
      refine h.activities.perform hservable happening fun activity asked hbegin hasked => ?_
      exact hrequest asked (hbegin ▸ hasked)
  · have hpacket : ∀ transaction body, (course.undergo incident).node.packet transaction body =
        course.node.packet transaction body := by
      intro transaction body
      rw [Node.packet, Node.packet, (course.turns_undergo incident).sameNode.id]
    simp only [hpacket]
    rcases List.mem_append.mp ((course.dealt_undergo incident).unanswered opened hopened) with
      hopened | hopened
    · exact h.unanswered opened hopened
    · obtain ⟨item, hitem, rfl⟩ := List.mem_map.mp hopened
      exact ⟨item.2, h.allowed_of_mem_asks hservable hitem, packet_of_mem_asks hitem⟩

theorem Speaks.live (h : course.Speaks allowed)
    (hservable : ∀ asked : Request, asked.Servable → allowed asked) (incidents : List Incident)
    (hrequest : ∀ incident ∈ incidents, ∀ asked, incident.request? = some asked → allowed asked) :
    (course.live incidents).Speaks allowed := by
  induction incidents generalizing course with
  | nil => exact h
  | cons incident incidents ih =>
    obtain ⟨hfirst, hrest⟩ := List.forall_mem_cons.mp hrequest
    exact ih (h.undergo hservable hfirst) hrest

/-! ### Datagrams -/

/-- What a node sends is modest, or a request that is allowed. -/
theorem Speaks.body_of_sends (h : course.Speaks allowed)
    (hservable : ∀ asked : Request, asked.Servable → allowed asked)
    (hrecords : ∀ key, (course.node.records.of key).length ≤ RecordStore.maxPublishers)
    {datagram : Datagram} (hdatagram : datagram ∈ course.sends incident) :
    ∃ transaction body, datagram.packet = course.node.packet transaction body ∧
      (body.Modest ∨ ∃ asked, body = .request asked ∧ allowed asked) := by
  cases sends_cases hdatagram with
  | @asked item hitem =>
    exact ⟨_, _, packet_of_mem_asks hitem, .inr ⟨_, rfl, h.allowed_of_mem_asks hservable hitem⟩⟩
  | @repeated opened hopened =>
    obtain ⟨asked, hallowed, hpacket⟩ := h.unanswered opened hopened
    exact ⟨_, _, hpacket, .inr ⟨asked, rfl, hallowed⟩⟩
  | @answered serving hserving _ hanswer =>
    obtain ⟨packet, lost, -, -, hbefore, -⟩ := serves_cases hserving
    obtain ⟨body, hbody, rfl⟩ := List.mem_map.mp hanswer
    rw [hbefore] at hbody ⊢
    exact ⟨_, body, rfl, .inl (Node.modest_of_serve hrecords (Option.mem_toList.mp hbody))⟩

end Course

/-- The same incident, and nothing keeps a datagram from being sent. -/
def Incident.unhindered : Incident → Incident
  | .happens (.receive packet source _) => .happens (.receive packet source fun _ => false)
  | .happens (.addContact contact _) => .happens (.addContact contact fun _ => false)
  | .happens (.tick _) => .happens (.tick fun _ => false)
  | .happens (.proceed index _) => .happens (.proceed index true)
  | incident => incident

namespace Course

/-- The datagrams that a node hands to its socket in an incident, whether or not they get sent. -/
def hands (course : Course) (incident : Incident) : List Datagram :=
  course.sends incident.unhindered

/-- **Everything that is sent can be received.** In every life of a node, all that it hands to its
socket is at most as long as what is read of a datagram, so whoever reads it reads all of it. The
one exception is a request that a caller hands in and nobody can serve. -/
theorem hands_fit (config : Config) (address : Endpoint) (draws : Draws) (now : Time)
    (incidents : List Incident) (incident : Incident) {datagram : Datagram} :
    let course := (start config address draws now).live incidents
    datagram ∈ course.hands incident →
      (datagram.packet.length ≤ maxDatagram ∧
        ∀ source : Endpoint, source.port ≠ 0 →
          readDatagram? datagram.packet (.v4 source) = some (datagram.packet, source)) ∨
      ∃ asked transaction, asked ∈ incidents.filterMap Incident.request? ∧ ¬asked.Servable ∧
        datagram.packet = course.node.packet transaction (.request asked) := by
  intro course hdatagram
  let allowed : Request → Prop := fun asked =>
    asked.Servable ∨ asked ∈ incidents.filterMap Incident.request?
  have hspeaks : course.Speaks allowed := by
    refine (speaks_start config address draws now allowed).live (fun _ => .inl) incidents ?_
    intro incident hincident asked hasked
    exact .inr (List.mem_filterMap.mpr ⟨incident, hincident, hasked⟩)
  have hreflects := (reflects_live (foreseen_start config address draws now) rfl
    (RecordStore.reflects_new config.timings.expire config.timings.republish now) incidents).1
  obtain ⟨transaction, body, hpacket, hbody⟩ :=
    hspeaks.body_of_sends (fun _ => .inl) hreflects.length_of_le hdatagram
  have hfits (hmodest : body.Modest) : datagram.packet.length ≤ maxDatagram := by
    rw [hpacket]
    exact Message.length_encode_le hmodest transaction course.node.id
  have hread (hfit : datagram.packet.length ≤ maxDatagram) (source : Endpoint)
      (hport : source.port ≠ 0) :
      readDatagram? datagram.packet (.v4 source) = some (datagram.packet, source) := by
    rw [readDatagram?, if_neg hport, List.take_of_length_le hfit]
  rcases hbody with hmodest | ⟨asked, rfl, hallowed⟩
  · exact .inl ⟨hfits hmodest, hread (hfits hmodest)⟩
  · by_cases hservable : asked.Servable
    · exact .inl ⟨hfits (.request hservable), hread (hfits (.request hservable))⟩
    · exact .inr ⟨asked, transaction, hallowed.resolve_left hservable, hservable, hpacket⟩

/-- A node that was asked to store a publisher hands it to its socket when it is asked for it, and
the datagram is received in full unless it gets lost. -/
theorem hands_fit_of_stored :
    let course := (start { id := some .zero } ⟨⟨10, 0, 0, 1⟩, 4444⟩ (.ofLists [] []) 0).live
      Node.storingIncidents
    let asking := Message.encode ⟨.ofNat 8, ⟨3⟩, .request (.findValue ⟨1⟩)⟩
    let answer : Datagram := ⟨⟨⟨10, 0, 0, 3⟩, 4444⟩, course.node.packet (.ofNat 8) (.response
      (.values ⟨1⟩ [⟨⟨2⟩, ⟨⟨10, 9, 9, 9⟩, 3333⟩⟩]))⟩
    answer ∈ course.hands (.happens (.receive asking answer.destination fun _ => true)) ∧
      answer.packet.length = 203 ∧
      ∀ source : Endpoint, source.port ≠ 0 →
        readDatagram? answer.packet (.v4 source) = some (answer.packet, source) := by
  intro course asking answer
  have hanswer :
      answer ∈ course.hands (.happens (.receive asking answer.destination fun _ => true)) := by
    decide +kernel
  refine ⟨hanswer, Message.length_encode_values .., ?_⟩
  rcases hands_fit { id := some .zero } ⟨⟨10, 0, 0, 1⟩, 4444⟩ (.ofLists [] []) 0
    Node.storingIncidents _ hanswer with ⟨-, hread⟩ | ⟨asked, _, hasked, -⟩
  · exact hread
  · exact absurd hasked List.not_mem_nil

end Course

end Kademlia
