import Kademlia.Proofs.Message.RoundTrip
import Kademlia.Proofs.Node.Traffic
import Kademlia.Proofs.RecordStore.History

/-!
# Kademlia.Proofs.Swarm.Member

A node as the others on its network see it: the requests that it asks in an incident of its life
(`Course.asks`), the messages that it hears (`Course.hears`), the requests that it serves
(`Course.serves`) and the datagrams that it sends (`Course.sends`). Every datagram is one of three
(`Course.sends_cases`): it bears a request that is just asked, it is sent again because its request
is unanswered, or it answers a request that is just served. What becomes of the ledger is accounted
for by what is asked and heard (`Course.dealt_undergo`).
-/

namespace Kademlia

open Ledger (Dealt)

/-- A node as a contact of others. -/
def Node.contact (node : Node) : Contact := ⟨node.id, node.address⟩

/-- A search for a value is answered with contacts, or with publishers of the very key. -/
theorem Node.findValueResponse_cases (node : Node) (key : Id) (now : Time) :
    (∃ contacts, node.findValueResponse key now = .nodes contacts) ∨
      ∃ publishers, node.findValueResponse key now = .values key publishers := by
  rw [findValueResponse]
  split
  · exact .inl ⟨_, rfl⟩
  · exact .inr ⟨_, rfl⟩

/-- What is handed to the network, without what could not be sent. -/
def Outgoing.sentBut (lost : Outgoing → Bool) (outgoing : List Outgoing) : List Datagram :=
  (outgoing.filter (!lost ·)).map datagram

/-- A request that a node has served. -/
structure Serving where
  /-- The node before it served the request. -/
  before : Node
  after : Node
  message : Message
  source : Endpoint
  asked : Request
  now : Time

namespace Serving

/-- What the node made of the request. -/
def body? (serving : Serving) : Option Body :=
  (serving.before.serve serving.source serving.asked serving.now).2

/-- The datagrams that answer the request. -/
def answers (serving : Serving) : List Datagram :=
  serving.before.answersTo serving.message serving.source serving.asked serving.now

/-- A response that fits a request; a publisher that was to be stored is stored. -/
def Fits (serving : Serving) (response : Response) : Request → Prop
  | .ping => response = .pong
  | .store key publisher port =>
    response = .stored ∧ serving.after.records.ofPublisher key publisher =
      [⟨⟨publisher, ⟨serving.source.ip, port⟩⟩, serving.now,
        serving.now + serving.before.records.expire⟩]
  | .findNode _ => ∃ contacts, response = .nodes contacts
  | .findValue key =>
    (∃ contacts, response = .nodes contacts) ∨ ∃ publishers, response = .values key publishers
  | .invalid .. => False

/-- What a node makes of a request that a packet tells is a response that fits it. -/
theorem exists_response {serving : Serving} {asked : Request} (hasked : serving.asked = asked.told)
    (hrecords : serving.after.records =
      (serving.before.serve serving.source serving.asked serving.now).1.records)
    {body : Body} (hbody : serving.body? = some body) :
    ∃ response, body = .response response ∧ serving.Fits response asked.told := by
  rw [body?, hasked] at hbody
  rw [hasked] at hrecords
  cases htold : asked.told with
  | ping =>
    rw [htold] at hbody
    exact ⟨.pong, (Option.some.inj hbody).symm, rfl⟩
  | store key publisher port =>
    rw [htold] at hbody hrecords
    refine ⟨.stored, (Option.some.inj hbody).symm, rfl, ?_⟩
    rw [hrecords]
    exact RecordStore.ofPublisher_insert ..
  | findNode target =>
    rw [htold] at hbody
    exact ⟨_, (Option.some.inj hbody).symm, _, rfl⟩
  | findValue key =>
    rw [htold] at hbody
    exact ⟨_, (Option.some.inj hbody).symm, Node.findValueResponse_cases ..⟩
  | invalid method defect =>
    rw [htold] at hbody
    cases defect with
    -- Only this one is answered, and no packet tells it.
    | emptyKey => exact absurd htold (asked.told_ne_emptyKey method)
    | _ => exact absurd hbody (by simp [Node.serve])

end Serving

namespace Course

variable {course : Course}

/-- The request that an activity starts when it goes on. -/
def starts? (course : Course) (index : Nat) : Option (OpenedRequest × Request) :=
  match course.activities[index]? with
  | some (.request destination asked _) =>
    match course.node.startRequest destination asked course.now with
    | .ok (_, opened) => some (opened, asked)
    | .error _ => none
  | _ => none

/-- The requests that the node asks in an incident: pings of stalest contacts, and requests of
activities. -/
def asks (course : Course) : Incident → List (OpenedRequest × Request)
  | .happens (.receive packet source _) =>
    (Outgoing.openings (course.node.receive packet source course.now).2).map (·, .ping)
  | .happens (.addContact contact _) =>
    (Outgoing.openings (course.node.addContact contact course.now).2).map (·, .ping)
  | .happens (.proceed index _) => (course.starts? index).toList
  | _ => []

/-- The messages that the node hears in an incident. -/
def hears (course : Course) : Incident → List (Message × Endpoint)
  | .happens (.receive packet source _) => (course.node.heeded? packet).toList.map (·, source)
  | _ => []

/-- The requests that the node serves in an incident. -/
def serves (course : Course) : Incident → List Serving
  | .happens (.receive packet source lost) =>
    match course.node.served? packet with
    | some (message, asked) =>
      [{ before := course.node
         after := (course.perform (.receive packet source lost)).node
         message, source, asked
         now := course.now }]
    | none => []
  | _ => []

/-- The datagrams that the node hands to the network in an incident. -/
def sends (course : Course) : Incident → List Datagram
  | .happens (.receive packet source lost) =>
    Outgoing.sentBut lost (course.node.receive packet source course.now).2
  | .happens (.addContact contact lost) =>
    Outgoing.sentBut lost (course.node.addContact contact course.now).2
  | .happens (.tick lost) => Outgoing.sentBut lost (course.node.tick course.now).2
  | .happens (.proceed index true) => (course.starts? index).toList.map (·.1.datagram)
  | _ => []

/-! ### Requests -/

theorem serves_cases {incident : Incident} {serving : Serving}
    (h : serving ∈ course.serves incident) :
    ∃ packet lost, incident = .happens (.receive packet serving.source lost) ∧
      course.node.served? packet = some (serving.message, serving.asked) ∧
      serving.before = course.node ∧
      serving.after.records =
        (serving.before.serve serving.source serving.asked serving.now).1.records := by
  cases incident with
  | shutdown => exact absurd h List.not_mem_nil
  | happens happening =>
    cases happening with
    | receive packet source lost =>
      rw [serves] at h
      cases hserved : course.node.served? packet with
      | none =>
        rw [hserved] at h
        exact absurd h List.not_mem_nil
      | some served =>
        rw [hserved] at h
        rw [List.mem_singleton.mp h]
        refine ⟨packet, lost, rfl, hserved, rfl, ?_⟩
        rw [perform, Node.records_receive, hserved]
    | _ => exact absurd h List.not_mem_nil

theorem mem_hears {incident : Incident} {message : Message} {source : Endpoint}
    (h : (message, source) ∈ course.hears incident) :
    ∃ packet lost, incident = .happens (.receive packet source lost) ∧
      course.node.heeded? packet = some message := by
  cases incident with
  | shutdown => exact absurd h List.not_mem_nil
  | happens happening =>
    cases happening with
    | receive packet origin lost =>
      obtain ⟨heard, hheeded, heq⟩ := List.mem_map.mp h
      obtain ⟨rfl, rfl⟩ := Prod.mk.inj heq
      exact ⟨packet, lost, rfl, Option.mem_toList.mp hheeded⟩
    | _ => exact absurd h List.not_mem_nil

theorem starts?_eq_some {index : Nat} {opened : OpenedRequest} {asked : Request}
    (h : course.starts? index = some (opened, asked)) :
    ∃ destination next rest, course.activities[index]? = some (.request destination asked rest) ∧
      course.node.startRequest destination asked course.now = .ok (next, opened) := by
  rw [starts?] at h
  split at h
  · rename_i destination request rest hget
    split at h
    · rename_i next started hstart
      obtain ⟨rfl, rfl⟩ := Prod.mk.inj (Option.some.inj h)
      exact ⟨destination, next, rest, hget, hstart⟩
    · exact absurd h (by simp)
  · exact absurd h (by simp)

/-- The requests that are opened with what a node emits are pings in its name. -/
theorem packet_of_mem_openings {node : Node} {answers : List Datagram} {outgoing : List Outgoing}
    (hemits : ∀ out ∈ outgoing, node.Emits answers out) {opened : OpenedRequest}
    (h : opened ∈ Outgoing.openings outgoing) :
    opened.datagram.packet = node.packet opened.transaction (.request .ping) := by
  obtain ⟨out, hout, hopened⟩ := List.mem_filterMap.mp h
  cases hemits out hout with
  | answer hanswer => exact absurd hopened (by simp [Outgoing.opened?])
  | probe hpacket =>
    obtain rfl := Option.some.inj hopened
    exact hpacket

/-- What is asked bears the token of the request, the node's id and the request. -/
theorem packet_of_mem_asks {incident : Incident} {item : OpenedRequest × Request}
    (h : item ∈ course.asks incident) :
    item.1.datagram.packet = course.node.packet item.1.transaction (.request item.2) := by
  cases incident with
  | shutdown => exact absurd h List.not_mem_nil
  | happens happening =>
    cases happening with
    | receive packet source lost =>
      obtain ⟨opened, hopened, rfl⟩ := List.mem_map.mp h
      exact packet_of_mem_openings (fun _ => Node.emits_receive) hopened
    | addContact contact lost =>
      obtain ⟨opened, hopened, rfl⟩ := List.mem_map.mp h
      exact packet_of_mem_openings (fun _ => Node.emits_addContact) hopened
    | proceed index sent =>
      obtain ⟨opened, asked⟩ := item
      obtain ⟨destination, next, rest, -, hstart⟩ := starts?_eq_some (Option.mem_toList.mp h)
      obtain ⟨-, -, -, hdatagram, -⟩ := Node.startRequest_eq_ok hstart
      exact congrArg Datagram.packet hdatagram
    | _ => exact absurd h List.not_mem_nil

/-! ### Accounts -/

theorem map_fst_asks (opened : List OpenedRequest) :
    (opened.map fun request => (request, Request.ping)).map Prod.fst = opened := by
  rw [List.map_map]
  exact List.map_id _

theorem dealt_advance {dialogue : Dialogue Unit} {index : Nat}
    (hget : course.activities[index]? = some dialogue) (sent : Bool) :
    Dealt ((course.starts? index).toList.map Prod.fst) [] course.node.ledger
      (advance course.node course.now sent dialogue).1.ledger := by
  cases dialogue with
  | done value =>
    rw [starts?, hget]
    exact .refl _
  | step deed next =>
    rw [starts?, hget, advance, (deed.ownStep course.node course.now).ledger]
    exact .refl _
  | request destination asked next =>
    rw [starts?, hget, advance, request]
    dsimp only
    cases hstart : course.node.startRequest destination asked course.now with
    | error error => exact .refl _
    | ok result =>
      have hopened := Node.dealt_startRequest hstart
      cases sent with
      | true => exact hopened
      | false => exact hopened.trans (Ledger.dealt_withdraw ..)
  | await handle next =>
    rw [starts?, hget, advance]
    have hpoll := course.node.ledger.dealt_poll handle
    rcases hresult : course.node.poll handle with ⟨polled, outcome | outcome⟩
    · exact .refl _
    · have hledger : (course.node.ledger.poll handle).1 = polled.ledger :=
        congrArg (·.1.ledger) hresult
      rw [hledger] at hpoll
      exact hpoll

/-- What becomes of the ledger is accounted for by what is asked and heard. -/
theorem dealt_undergo (course : Course) (incident : Incident) :
    Dealt ((course.asks incident).map Prod.fst) (course.hears incident) course.node.ledger
      (course.undergo incident).node.ledger := by
  cases incident with
  | shutdown => exact course.node.ledger.dealt_close
  | happens happening =>
    cases happening with
    | pass span => exact .refl _
    | receive packet source lost =>
      have hreceived := (Node.dealt_receive course.node packet source course.now).trans
        (Node.dealt_afterSending lost _)
      rw [List.append_nil, List.append_nil] at hreceived
      rw [asks, map_fst_asks]
      exact hreceived
    | addContact contact lost =>
      have hnoted := (Node.dealt_addContact course.node contact course.now).trans
        (Node.dealt_afterSending lost _)
      rw [List.append_nil] at hnoted
      rw [asks, map_fst_asks]
      exact hnoted
    | tick lost => exact Node.dealt_tick course.node course.now lost
    | begin activity => exact .refl _
    | proceed index sent =>
      rw [undergo, perform]
      cases hget : course.activities[index]? with
      | none =>
        rw [asks, starts?, hget]
        exact .refl _
      | some dialogue => exact dealt_advance hget sent
    | giveUp index =>
      rw [undergo, perform]
      split <;> exact .refl _

/-! ### Datagrams -/

/-- Where a datagram comes from that a node sends in an incident. -/
inductive Sent (course : Course) (incident : Incident) : Datagram → Prop where
  | asked {item : OpenedRequest × Request} (h : item ∈ course.asks incident) :
    Sent course incident item.1.datagram
  | repeated {opened : OpenedRequest} (h : opened ∈ course.node.ledger.unanswered) :
    Sent course incident opened.datagram
  | answered {serving : Serving} (h : serving ∈ course.serves incident) {datagram : Datagram}
    (hanswer : datagram ∈ serving.answers) : Sent course incident datagram

theorem exists_of_mem_sentBut {lost : Outgoing → Bool} {outgoing : List Outgoing}
    {datagram : Datagram} (h : datagram ∈ Outgoing.sentBut lost outgoing) :
    ∃ out ∈ outgoing, out.datagram = datagram := by
  obtain ⟨out, hout, rfl⟩ := List.mem_map.mp h
  exact ⟨out, List.mem_of_mem_filter hout, rfl⟩

theorem sent_of_mem_receive {packet : Bytes} {source : Endpoint} {lost : Outgoing → Bool}
    {out : Outgoing} (h : out ∈ (course.node.receive packet source course.now).2) :
    course.Sent (.happens (.receive packet source lost)) out.datagram := by
  cases Node.emits_receive h with
  | @probe suspect opened _ =>
    have hopened : opened ∈ Outgoing.openings (course.node.receive packet source course.now).2 :=
      List.mem_filterMap.mpr ⟨_, h, rfl⟩
    have hasked : (opened, Request.ping) ∈ course.asks (.happens (.receive packet source lost)) :=
      List.mem_map_of_mem hopened
    exact .asked hasked
  | answer hanswer =>
    rw [Node.answersBack] at hanswer
    cases hserved : course.node.served? packet with
    | none =>
      rw [hserved] at hanswer
      exact absurd hanswer List.not_mem_nil
    | some served =>
      rw [hserved] at hanswer
      have hserving :
          ⟨course.node, (course.perform (.receive packet source lost)).node, served.1, source,
            served.2, course.now⟩ ∈ course.serves (.happens (.receive packet source lost)) := by
        rw [serves, hserved]
        exact List.mem_singleton_self _
      exact .answered hserving hanswer

theorem sends_cases {incident : Incident} {datagram : Datagram}
    (h : datagram ∈ course.sends incident) : course.Sent incident datagram := by
  cases incident with
  | shutdown => exact absurd h List.not_mem_nil
  | happens happening =>
    cases happening with
    | receive packet source lost =>
      obtain ⟨out, hout, rfl⟩ := exists_of_mem_sentBut h
      exact sent_of_mem_receive hout
    | addContact contact lost =>
      obtain ⟨out, hout, rfl⟩ := exists_of_mem_sentBut h
      cases Node.emits_addContact hout with
      | answer hanswer => exact absurd hanswer List.not_mem_nil
      | @probe suspect opened _ =>
        have hopened : opened ∈ Outgoing.openings (course.node.addContact contact course.now).2 :=
          List.mem_filterMap.mpr ⟨_, hout, rfl⟩
        have hasked : (opened, Request.ping) ∈ course.asks (.happens (.addContact contact lost)) :=
          List.mem_map_of_mem hopened
        exact .asked hasked
    | tick lost =>
      obtain ⟨out, hout, rfl⟩ := exists_of_mem_sentBut h
      obtain ⟨datagram, hdatagram, rfl⟩ := List.mem_map.mp hout
      obtain ⟨entry, hentry, rfl⟩ := List.mem_map.mp hdatagram
      have hopened : entry.opened ∈ course.node.ledger.unanswered :=
        List.mem_map_of_mem (List.mem_of_mem_filter hentry)
      exact .repeated hopened
    | proceed index sent =>
      cases sent with
      | false => exact absurd h List.not_mem_nil
      | true =>
        obtain ⟨item, hitem, rfl⟩ := List.mem_map.mp h
        exact .asked hitem
    | _ => exact absurd h List.not_mem_nil

end Course

end Kademlia
