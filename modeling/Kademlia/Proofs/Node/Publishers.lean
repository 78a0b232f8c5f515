import Kademlia.Proofs.Message.RoundTrip
import Kademlia.Proofs.Node.Prospects
import Kademlia.Proofs.Node.Traffic
import Kademlia.Proofs.RecordStore.History
import Kademlia.Proofs.RoutingTable.Closest

/-!
# Kademlia.Proofs.Node.Publishers

What a node answers when it is asked who publishes a key is a function of what was stored in its
life so far. Two kinds of incidents store a publisher (`Course.deposits`): a store request of
another node that is served, and an activity that goes on and is expected to publish a key
(`Prospect`), which stores the node itself. So an announcement stores it the first time that it goes
on, and upkeep stores it for each of the keys that are due, as it comes to them. All other incidents
leave the records alone or drop expired ones (`Course.follows_undergo`), so the records reflect the
history of these deposits throughout (`Course.reflects_live`), and `Node.findValue_answer` reads the
answer off it.
-/

namespace Kademlia

/-- A node publishes under the same contact all its life. -/
theorem Node.SameNode.asPublisher_eq {node next : Node} (h : node.SameNode next) :
    next.asPublisher = node.asPublisher := by
  rw [asPublisher, peerPort, h.id, h.address, h.config]
  rfl

namespace Course

variable {course : Course} {prospects : List Prospect} {own : Contact}

/-- The key that an activity is expected to publish if it goes on now. -/
def published? (course : Course) (prospects : List Prospect) (index : Nat) : Option Id :=
  prospects[index]?.bind (·.publishes? (course.isPublishing index))

/-- The deposits that an incident makes: what another node asks to be stored, reached where the
packet comes from, and the node itself, under its own contact, for a key that it publishes. -/
def deposits (course : Course) (own : Contact) (prospects : List Prospect) :
    Incident → List Deposit
  | .happens (.receive packet source _) =>
    match course.node.served? packet with
    | some (_, .store key publisher port) =>
      [⟨key, ⟨publisher, ⟨source.ip, port⟩⟩, course.now⟩]
    | _ => []
  | .happens (.proceed index _) =>
    (course.published? prospects index).toList.map (⟨·, own, course.now⟩)
  | _ => []

/-- All deposits of a life, most recent first. -/
def history (course : Course) (own : Contact) (prospects : List Prospect) :
    List Incident → List Deposit
  | [] => []
  | incident :: incidents =>
    (course.undergo incident).history own (course.foresee prospects incident) incidents ++
      course.deposits own prospects incident

/-! ### What incidents do to the records -/

theorem follows_receive (course : Course) (own : Contact) (prospects : List Prospect)
    (packet : Bytes) (source : Endpoint) (lost : Outgoing → Bool) :
    course.node.records.Follows course.now
      (course.deposits own prospects (.happens (.receive packet source lost)))
      (course.undergo (.happens (.receive packet source lost))).node.records := by
  rw [undergo, perform, Node.records_receive, deposits]
  rcases course.node.served? packet with _ | ⟨message, asked⟩
  · exact .rest
  · cases asked with
    | store key publisher port => exact .insert key ⟨publisher, ⟨source.ip, port⟩⟩
    | invalid method defect => cases defect <;> exact .rest
    | _ => exact .rest

/-- An activity that goes on publishes a key, drops expired records, or leaves the records alone. -/
theorem follows_advance (dialogue : Dialogue Unit) (node : Node) (now : Time) (sent : Bool) :
    node.records.Follows now
      (dialogue.publishing?.toList.map (⟨·, node.asPublisher, now⟩))
      (advance node now sent dialogue).1.records := by
  cases dialogue with
  | done value => exact .rest
  | step deed next =>
    cases deed with
    | publish key => exact .publish key node.asPublisher
    | sweep => exact .sweep
    | _ => exact .rest
  | request destination asked next =>
    rw [advance, request]
    cases hstart : node.startRequest destination asked now with
    | error error => exact .rest
    | ok result =>
      have hrecords : result.1.records = node.records := (Node.tended_startRequest hstart).records
      rw [← hrecords]
      cases sent <;> exact .rest
  | await handle next =>
    rw [advance]
    rcases hpoll : node.poll handle with ⟨polled, outcome | outcome⟩
    · exact .rest
    · have hrecords : polled.records = node.records := congrArg (·.1.records) hpoll.symm
      rw [← hrecords]
      exact .rest

theorem follows_undergo (h : course.Foreseen prospects) (hown : course.node.asPublisher = own)
    (incident : Incident) :
    course.node.records.Follows course.now (course.deposits own prospects incident)
      (course.undergo incident).node.records := by
  cases incident with
  | shutdown => exact .rest
  | happens happening =>
    cases happening with
    | pass span => exact .rest
    | receive packet source lost => exact course.follows_receive own prospects packet source lost
    | addContact contact lost =>
      have hnoted := (Node.tended_addContact course.node contact course.now).trans
        (Node.tended_afterSending lost _)
      rw [undergo, perform, hnoted.records]
      exact .rest
    | tick lost =>
      rw [undergo, perform, (Node.tended_tick ..).records]
      exact .rest
    | begin activity => exact .rest
    | proceed index sent =>
      rw [undergo, perform, deposits, published?]
      cases hget : course.activities[index]? with
      | none =>
        rw [List.getElem?_eq_none_iff.mpr (h.length_eq ▸ List.getElem?_eq_none_iff.mp hget)]
        exact .rest
      | some dialogue =>
        have hfollows := follows_advance dialogue course.node course.now sent
        rw [h.publishing?_eq hget, hown] at hfollows
        exact hfollows
    | giveUp index =>
      rw [undergo, perform]
      split <;> exact .rest

theorem now_le_undergo (course : Course) (incident : Incident) :
    course.now ≤ (course.undergo incident).now := by
  cases incident with
  | shutdown => exact Nat.le_refl _
  | happens happening =>
    cases happening with
    | pass span => exact Nat.le_add_right ..
    | proceed index sent =>
      rw [undergo, perform]
      split <;> exact Nat.le_refl _
    | giveUp index =>
      rw [undergo, perform]
      split <;> exact Nat.le_refl _
    | _ => exact Nat.le_refl _

/-- **The records reflect the history** throughout the life of a node. -/
theorem reflects_live (hforeseen : course.Foreseen prospects)
    (hown : course.node.asPublisher = own) {before : List Deposit}
    (h : course.node.records.Reflects before course.now) (incidents : List Incident) :
    (course.live incidents).node.records.Reflects (course.history own prospects incidents ++ before)
        (course.live incidents).now ∧
      (course.live incidents).node.records.expire = course.node.records.expire := by
  induction incidents generalizing course prospects before with
  | nil => exact ⟨h, rfl⟩
  | cons incident incidents ih =>
    have hfollows := follows_undergo hforeseen hown incident
    have hnext := (h.follows hfollows).mono (course.now_le_undergo incident)
    have hsame := (course.turns_undergo incident).sameNode
    obtain ⟨hlast, hexpire⟩ :=
      ih (hforeseen.undergo incident) (hsame.asPublisher_eq.trans hown) hnext
    rw [history, List.append_assoc]
    exact ⟨hlast, hexpire.trans hfollows.expire⟩

end Course

/-! ### The answer -/

namespace Node

/-- What the life of a node has left to tell of who publishes a key: the publishers that others can
reach, or else the contacts closest to the key. -/
def tells (expire : Duration) (history : List Deposit) (table : RoutingTable) (key : Id)
    (now : Time) : Response :=
  match (RecordStore.remembered expire history key now).filter (!·.address.ip.isUnspecified) with
  | [] => .nodes ((Contact.byDistance key table.contacts).take Bucket.capacity)
  | publishers => .values key publishers

theorem findValueResponse_eq {node : Node} {history : List Deposit} {now : Time}
    (hrecords : node.records.Reflects history now) (htable : node.table.WellFormed) (key : Id) :
    node.findValueResponse key now =
      tells node.records.expire history node.table key now := by
  rw [findValueResponse, publishers, hrecords.get_eq, closestContacts, htable.findClosest_eq]
  rfl

/-- **What a node answers to a search for a value** is told by the history of what was stored: store
requests, each with the address that it came from, and announcements, each with the id of the node,
the address that it is bound to and the port that it is set to announce. Of these none is missing,
also of those that upkeep makes: an activity that has ended has published what was expected of it.
Sweeps make no difference. There is one answer, and it names the publishers that are left of the
history, or the closest contacts of the table if none is. -/
theorem findValue_answer (config : Config) (address : Endpoint) (draws : Draws) (start : Time)
    (incidents : List Incident) {packet : Bytes} {message : Message} {key : Id}
    (hpacket : Message.decode packet = .ok message)
    (hbody : message.body = .request (.findValue key))
    (hsender : message.sender ≠ (new config address draws start).id) (source : Endpoint) :
    let begun := Course.start config address draws start
    let own : Contact := ⟨begun.node.id, ⟨address.ip, config.peerPort.getD address.port⟩⟩
    let course := begun.live incidents
    course.Fulfilled (begun.foreseeAll [] incidents) ∧
      (course.node.receive packet source course.now).2.filterMap Outgoing.answer? =
        [⟨source, course.node.packet message.transaction (.response
          (tells config.timings.expire (begun.history own [] incidents) course.node.table key
            course.now))⟩] := by
  intro begun own course
  have hsame : begun.node.SameNode course.node := Course.live_keeps (SameNode begun.node)
    (fun _ _ _ hturn h => h.trans hturn.sameNode) (.refl _) incidents
  have hserved : course.node.served? packet = some (message, .findValue key) := by
    have hheeded : course.node.heeded? packet = some message :=
      heeded?_eq_some.mpr ⟨hpacket, hsame.id ▸ hsender⟩
    rw [served?, hheeded]
    simp only [hbody]
  have hown : begun.node.asPublisher = own := rfl
  have hforeseen := Course.foreseen_start config address draws start
  obtain ⟨hreflects, hexpire⟩ :=
    Course.reflects_live hforeseen hown
      (RecordStore.reflects_new config.timings.expire config.timings.republish start) incidents
  rw [List.append_nil] at hreflects
  have htable := hsame.table.wellFormed (RoutingTable.wellFormed_new _ _)
  have hresponse := findValueResponse_eq hreflects htable key
  rw [hexpire] at hresponse
  refine ⟨(hforeseen.live incidents).fulfilled, ?_⟩
  rw [answers_receive, answersBack, hserved]
  dsimp only
  rw [answersTo, serve, hresponse]
  rfl

/-- The life of a node that is asked to store, under the key 1, the publisher 2 at port 3333, first
from 10.0.0.9 and ten seconds later from 10.9.9.9. -/
def storingIncidents : List Incident :=
  let stored : Bytes := Message.encode ⟨.ofNat 7, ⟨2⟩, .request (.store ⟨1⟩ ⟨2⟩ 3333)⟩
  [.happens (.receive stored ⟨⟨10, 0, 0, 9⟩, 4444⟩ fun _ => false), .happens (.pass 10000),
   .happens (.receive stored ⟨⟨10, 9, 9, 9⟩, 4444⟩ fun _ => false)]

/-- Afterwards the node announces the same key itself, and goes on with it twice. -/
def announcingIncidents : List Incident :=
  storingIncidents ++ [.happens (.begin (.announce ⟨1⟩)), .happens (.pass 5),
    .happens (.proceed 0 true), .happens (.pass 5), .happens (.proceed 0 true)]

theorem findValue_answer_of_announced :
    let config : Config := { id := some .zero, peerPort := some 5555 }
    let begun := Course.start config ⟨⟨10, 0, 0, 1⟩, 4444⟩ (.ofLists [] []) 0
    let course := begun.live announcingIncidents
    let asking := Message.encode ⟨.ofNat 8, ⟨3⟩, .request (.findValue ⟨1⟩)⟩
    begun.history ⟨.zero, ⟨⟨10, 0, 0, 1⟩, 5555⟩⟩ [] announcingIncidents =
        [⟨⟨1⟩, ⟨.zero, ⟨⟨10, 0, 0, 1⟩, 5555⟩⟩, 10005⟩,
         ⟨⟨1⟩, ⟨⟨2⟩, ⟨⟨10, 9, 9, 9⟩, 3333⟩⟩, 10000⟩, ⟨⟨1⟩, ⟨⟨2⟩, ⟨⟨10, 0, 0, 9⟩, 3333⟩⟩, 0⟩] ∧
      (course.node.receive asking ⟨⟨10, 0, 0, 3⟩, 4444⟩ course.now).2.filterMap Outgoing.answer? =
        [⟨⟨⟨10, 0, 0, 3⟩, 4444⟩, course.node.packet (.ofNat 8) (.response
          (.values ⟨1⟩ [⟨.zero, ⟨⟨10, 0, 0, 1⟩, 5555⟩⟩, ⟨⟨2⟩, ⟨⟨10, 9, 9, 9⟩, 3333⟩⟩]))⟩] := by
  intro config begun course asking
  have hhistory : begun.history ⟨.zero, ⟨⟨10, 0, 0, 1⟩, 5555⟩⟩ [] announcingIncidents =
      [⟨⟨1⟩, ⟨.zero, ⟨⟨10, 0, 0, 1⟩, 5555⟩⟩, 10005⟩,
       ⟨⟨1⟩, ⟨⟨2⟩, ⟨⟨10, 9, 9, 9⟩, 3333⟩⟩, 10000⟩, ⟨⟨1⟩, ⟨⟨2⟩, ⟨⟨10, 0, 0, 9⟩, 3333⟩⟩, 0⟩] := by
    decide +kernel
  have htold : tells 86400000 (begun.history ⟨.zero, ⟨⟨10, 0, 0, 1⟩, 5555⟩⟩ []
      announcingIncidents) course.node.table ⟨1⟩ course.now =
        .values ⟨1⟩ [⟨.zero, ⟨⟨10, 0, 0, 1⟩, 5555⟩⟩, ⟨⟨2⟩, ⟨⟨10, 9, 9, 9⟩, 3333⟩⟩] := by
    decide +kernel
  obtain ⟨-, hanswer⟩ := findValue_answer config ⟨⟨10, 0, 0, 1⟩, 4444⟩ (.ofLists [] []) 0
    announcingIncidents (Message.decode_encode ⟨.ofNat 8, ⟨3⟩, .request (.findValue ⟨1⟩)⟩) rfl
    (by decide +kernel) ⟨⟨10, 0, 0, 3⟩, 4444⟩
  refine ⟨hhistory, ?_⟩
  rw [← htold]
  exact hanswer

end Node

end Kademlia
