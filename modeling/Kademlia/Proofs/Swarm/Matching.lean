import Kademlia.Proofs.Swarm.Network

/-!
# Kademlia.Proofs.Swarm.Matching

Requests and answers on a bad network. The invariant `Swarm.Matched` says where everything comes
from: what is in flight bears a request that was asked or the answer to one that was served, what
was served was asked, what is unanswered was asked, and what was replied answers a request that was
served under the same token. It takes nothing but that packets tell what was written into them
(`Swarm.Matched.tells`).

`Swarm.replies_match` adds that no token is drawn twice, so the request that was served is the very
one that the reply is handed out for.
-/

namespace Kademlia

/-- A request was served, and it is the one that was asked. -/
structure Serving.Of (serving : Serving) (asking : Asking) : Prop where
  message : serving.message =
    Message.told ⟨asking.opened.transaction, asking.asker.id, .request asking.asked⟩
  asked : serving.asked = asking.asked.told
  source : serving.source = asking.asker.address
  destination : asking.opened.datagram.destination = serving.before.address
  records : serving.after.records =
    (serving.before.serve serving.source serving.asked serving.now).1.records

theorem Serving.Of.transaction {serving : Serving} {asking : Asking} (h : serving.Of asking) :
    serving.message.transaction = asking.opened.transaction := by
  rw [h.message]
  rfl

namespace Swarm

variable {swarm next : Swarm} {member : Nat} {course : Course} {incident : Incident}

/-! ### The invariant -/

/-- A datagram in flight bears a request that was asked, or answers one that was served. -/
inductive Carries (swarm : Swarm) : Endpoint × Datagram → Prop where
  | request {asking : Asking} (h : asking ∈ swarm.askings) :
    Carries swarm (asking.asker.address, asking.opened.datagram)
  | answer {server : Nat} {serving : Serving} (h : (server, serving) ∈ swarm.servings)
    {datagram : Datagram} (hanswer : datagram ∈ serving.answers) :
    Carries swarm (serving.before.address, datagram)

/-- An outcome is a timeout, or the response of a node that served a request with the token that the
member had asked. -/
inductive Settles (swarm : Swarm) (member : Nat) : Handle × Outcome → Prop where
  | timeout (handle : Handle) : Settles swarm member (handle, .failed .timeout)
  | reply {asking : Asking} (h : asking ∈ swarm.askings) (hmember : asking.member = member)
    {server : Nat} {serving : Serving} (hserving : (server, serving) ∈ swarm.servings)
    (htoken : serving.message.transaction = asking.opened.transaction) {response : Response}
    (hbody : serving.body? = some (.response response)) :
    Settles swarm member (asking.opened.handle, .replied ⟨serving.before.contact, response⟩)

/-- Where everything comes from. -/
structure Matched (swarm : Swarm) : Prop where
  askers : ∀ asking ∈ swarm.askings, swarm.contact? asking.member = some asking.asker
  servers : ∀ item ∈ swarm.servings, swarm.contact? item.1 = some item.2.before.contact
  packets : ∀ asking ∈ swarm.askings, asking.opened.datagram.packet =
    Message.encode ⟨asking.opened.transaction, asking.asker.id, .request asking.asked⟩
  handles : (swarm.askings.map fun asking => (asking.member, asking.opened.handle)).Nodup
  below : ∀ asking ∈ swarm.askings, ∀ course, swarm.members[asking.member]? = some course →
    asking.opened.handle < course.node.ledger.nextHandle
  pending : ∀ member course, swarm.members[member]? = some course →
    ∀ opened ∈ course.node.ledger.unanswered,
      ∃ asking ∈ swarm.askings, asking.member = member ∧ asking.opened = opened
  served : ∀ item ∈ swarm.servings, ∃ asking ∈ swarm.askings, item.2.Of asking
  flight : ∀ item ∈ swarm.flight, swarm.Carries item
  settled : ∀ member course, swarm.members[member]? = some course →
    ∀ item ∈ course.node.ledger.settled, swarm.Settles member item

theorem matched_start (founders : List Founder) : (start founders).Matched := by
  have hmembers : ∀ course ∈ (start founders).members,
      ∃ founder : Founder, course = founder.course := by
    intro course hcourse
    obtain ⟨founder, -, rfl⟩ := List.mem_map.mp hcourse
    exact ⟨founder, rfl⟩
  refine ⟨?_, ?_, ?_, List.nodup_nil, ?_, ?_, ?_, ?_, ?_⟩
  · exact List.forall_mem_nil _
  · exact List.forall_mem_nil _
  · exact List.forall_mem_nil _
  · exact List.forall_mem_nil _
  · intro member course hget opened hopened
    obtain ⟨founder, rfl⟩ := hmembers course (List.mem_of_getElem? hget)
    exact absurd hopened List.not_mem_nil
  · exact List.forall_mem_nil _
  · exact List.forall_mem_nil _
  · intro member course hget item hitem
    obtain ⟨founder, rfl⟩ := hmembers course (List.mem_of_getElem? hget)
    exact absurd hitem List.not_mem_nil

/-! ### Incidents -/

theorem Carries.mono {item : Endpoint × Datagram} (h : swarm.Carries item)
    (haskings : swarm.askings ⊆ next.askings) (hservings : swarm.servings ⊆ next.servings) :
    next.Carries item := by
  cases h with
  | request h => exact .request (haskings h)
  | answer h hanswer => exact .answer (hservings h) hanswer

theorem Settles.mono {item : Handle × Outcome} (h : swarm.Settles member item)
    (haskings : swarm.askings ⊆ next.askings) (hservings : swarm.servings ⊆ next.servings) :
    next.Settles member item := by
  cases h with
  | timeout handle => exact .timeout handle
  | reply h hmember hserving htoken hbody =>
    exact .reply (haskings h) hmember (hservings hserving) htoken hbody

/-- Where a message comes from that was sent from one endpoint to another. -/
inductive Tells (swarm : Swarm) (source destination : Endpoint) (message : Message) : Prop where
  | request {asking : Asking} (h : asking ∈ swarm.askings)
    (hsource : asking.asker.address = source)
    (hdestination : asking.opened.datagram.destination = destination)
    (hmessage : message =
      Message.told ⟨asking.opened.transaction, asking.asker.id, .request asking.asked⟩)
  | answer {server : Nat} {serving : Serving} (h : (server, serving) ∈ swarm.servings)
    (hsource : serving.before.address = source) {response : Response}
    (hbody : serving.body? = some (.response response))
    (hmessage : message = ⟨serving.message.transaction, serving.before.id, .response response⟩)

/-- What is read from a packet in flight is a request that was asked or a response to one that was
served. -/
theorem Matched.tells (h : swarm.Matched) {source destination : Endpoint} {packet : Bytes}
    (hflight : (source, ⟨destination, packet⟩) ∈ swarm.flight) {message : Message}
    (hdecode : Message.decode packet = .ok message) : swarm.Tells source destination message := by
  have hcarries := h.flight _ hflight
  generalize hitem : ((source, ⟨destination, packet⟩) : Endpoint × Datagram) = item at hcarries
  cases hcarries with
  | @request asking hasking =>
    obtain ⟨rfl, hdatagram⟩ := Prod.mk.inj hitem
    have hpacket := (congrArg Datagram.packet hdatagram).trans (h.packets asking hasking)
    dsimp only at hpacket
    rw [hpacket, Message.decode_encode] at hdecode
    exact .request hasking rfl (congrArg Datagram.destination hdatagram.symm)
      (Except.ok.inj hdecode).symm
  | @answer server serving hserving datagram hanswer =>
    obtain ⟨rfl, rfl⟩ := Prod.mk.inj hitem
    obtain ⟨asking, -, hof⟩ := h.served _ hserving
    obtain ⟨body, hbody, hdatagram⟩ := List.mem_map.mp hanswer
    have hbody : serving.body? = some body := Option.mem_toList.mp hbody
    obtain ⟨response, rfl, -⟩ := Serving.exists_response hof.asked hof.records hbody
    obtain ⟨rfl, rfl⟩ := Datagram.mk.inj hdatagram
    rw [Node.packet, Message.decode_encode] at hdecode
    exact .answer hserving rfl hbody (Except.ok.inj hdecode).symm

section Incident

variable (h : swarm.Matched) (hget : swarm.members[member]? = some course)
  (harrival : ∀ packet source lost, incident = .happens (.receive packet source lost) →
    (source, ⟨course.node.address, packet⟩) ∈ swarm.flight)

include h hget

theorem Matched.askers_undergo (incident : Incident) :
    ∀ asking ∈ (swarm.undergo member incident).askings,
      (swarm.undergo member incident).contact? asking.member = some asking.asker := by
  intro asking hasking
  rw [contact?_undergo hget]
  rcases (mem_askings_undergo hget).mp hasking with hold | ⟨item, -, rfl⟩
  · exact h.askers asking hold
  · rw [contact?, hget, Option.map_some]

theorem Matched.servers_undergo (incident : Incident) :
    ∀ item ∈ (swarm.undergo member incident).servings,
      (swarm.undergo member incident).contact? item.1 = some item.2.before.contact := by
  intro item hitem
  rw [contact?_undergo hget]
  rcases (mem_servings_undergo hget).mp hitem with hold | ⟨serving, hserving, rfl⟩
  · exact h.servers item hold
  · obtain ⟨-, -, -, -, hbefore, -⟩ := Course.serves_cases hserving
    rw [contact?, hget, Option.map_some, hbefore]

theorem Matched.packets_undergo (incident : Incident) :
    ∀ asking ∈ (swarm.undergo member incident).askings, asking.opened.datagram.packet =
      Message.encode ⟨asking.opened.transaction, asking.asker.id, .request asking.asked⟩ := by
  intro asking hasking
  rcases (mem_askings_undergo hget).mp hasking with hold | ⟨item, hitem, rfl⟩
  · exact h.packets asking hold
  · exact Course.packet_of_mem_asks hitem

/-- New requests have new handles. -/
theorem Matched.handles_undergo (incident : Incident) :
    ((swarm.undergo member incident).askings.map
      fun asking => (asking.member, asking.opened.handle)).Nodup := by
  have hdealt := course.dealt_undergo incident
  rw [undergo_eq hget, List.map_append, List.map_map]
  refine List.nodup_append.mpr ⟨h.handles, ?_, fun old hold new hnew => ?_⟩
  · have hnodup := hdealt.nodup
    rw [List.map_map] at hnodup
    refine List.Nodup.of_map Prod.snd ?_
    rw [List.map_map]
    exact hnodup
  · obtain ⟨asking, hasking, rfl⟩ := List.mem_map.mp hold
    obtain ⟨item, hitem, rfl⟩ := List.mem_map.mp hnew
    rintro heq
    obtain ⟨hmember, hhandle⟩ := Prod.mk.inj heq
    have hbelow := h.below asking hasking course (hmember ▸ hget)
    have hge := hdealt.ge item.1 (List.mem_map_of_mem hitem)
    exact absurd hhandle (Nat.ne_of_lt (Nat.lt_of_lt_of_le hbelow hge))

theorem Matched.below_undergo (incident : Incident) :
    ∀ asking ∈ (swarm.undergo member incident).askings, ∀ other,
      (swarm.undergo member incident).members[asking.member]? = some other →
        asking.opened.handle < other.node.ledger.nextHandle := by
  have hdealt := course.dealt_undergo incident
  intro asking hasking other hother
  rcases (mem_askings_undergo hget).mp hasking with hold | ⟨item, hitem, rfl⟩
  · rcases members_undergo hget hother with ⟨hmember, rfl⟩ | ⟨-, hsame⟩
    · exact Nat.lt_of_lt_of_le (h.below asking hold course (hmember ▸ hget)) hdealt.le
    · exact h.below asking hold other hsame
  · rcases members_undergo hget hother with ⟨-, rfl⟩ | ⟨hne, -⟩
    · exact hdealt.lt item.1 (List.mem_map_of_mem hitem)
    · exact absurd rfl hne

/-- What was unanswered and what is asked are on the list. -/
theorem Matched.asking_of_mem {opened : OpenedRequest}
    (hopened : opened ∈ course.node.ledger.unanswered ++ (course.asks incident).map Prod.fst) :
    ∃ asking ∈ (swarm.undergo member incident).askings,
      asking.member = member ∧ asking.opened = opened := by
  rcases List.mem_append.mp hopened with hold | hnew
  · obtain ⟨asking, hasking, hasker⟩ := h.pending member course hget opened hold
    exact ⟨asking, askings_subset_undergo hget _ hasking, hasker⟩
  · obtain ⟨item, hitem, rfl⟩ := List.mem_map.mp hnew
    exact ⟨_, (mem_askings_undergo hget).mpr (.inr ⟨item, hitem, rfl⟩), rfl, rfl⟩

theorem Matched.pending_undergo (incident : Incident) :
    ∀ index other, (swarm.undergo member incident).members[index]? = some other →
      ∀ opened ∈ other.node.ledger.unanswered,
        ∃ asking ∈ (swarm.undergo member incident).askings,
          asking.member = index ∧ asking.opened = opened := by
  intro index other hother opened hopened
  rcases members_undergo hget hother with ⟨rfl, rfl⟩ | ⟨-, hsame⟩
  · have hdealt := course.dealt_undergo incident
    exact h.asking_of_mem hget (hdealt.unanswered opened hopened)
  · obtain ⟨asking, hasking, hasker⟩ := h.pending index other hsame opened hopened
    exact ⟨asking, askings_subset_undergo hget _ hasking, hasker⟩

theorem Matched.flight_undergo (incident : Incident) :
    ∀ item ∈ (swarm.undergo member incident).flight,
      (swarm.undergo member incident).Carries item := by
  intro item hitem
  rcases (mem_flight_undergo hget).mp hitem with hold | ⟨datagram, hdatagram, rfl⟩
  · exact (h.flight item hold).mono (askings_subset_undergo hget incident)
      (servings_subset_undergo hget incident)
  · cases Course.sends_cases hdatagram with
    | @asked asked hasked =>
      exact .request ((mem_askings_undergo hget).mpr (.inr ⟨asked, hasked, rfl⟩))
    | @repeated opened hopened =>
      obtain ⟨asking, hasking, rfl, rfl⟩ := h.pending member course hget opened hopened
      have hasker := h.askers asking hasking
      rw [contact?, hget, Option.map_some] at hasker
      have haddress : course.node.address = asking.asker.address :=
        congrArg Contact.address (Option.some.inj hasker)
      rw [haddress]
      exact .request (askings_subset_undergo hget _ hasking)
    | @answered serving hserving _ hanswer =>
      obtain ⟨-, -, -, -, hbefore, -⟩ := Course.serves_cases hserving
      rw [← hbefore]
      exact .answer ((mem_servings_undergo hget).mpr (.inr ⟨serving, hserving, rfl⟩)) hanswer

include harrival

/-- Only requests that were asked are served. -/
theorem Matched.served_undergo :
    ∀ item ∈ (swarm.undergo member incident).servings,
      ∃ asking ∈ (swarm.undergo member incident).askings, item.2.Of asking := by
  intro item hitem
  rcases (mem_servings_undergo hget).mp hitem with hold | ⟨serving, hserving, rfl⟩
  · obtain ⟨asking, hasking, hof⟩ := h.served item hold
    exact ⟨asking, askings_subset_undergo hget _ hasking, hof⟩
  · obtain ⟨packet, lost, hincident, hserved, hbefore, hrecords⟩ := Course.serves_cases hserving
    obtain ⟨hheeded, hbody⟩ := Node.served?_eq_some.mp hserved
    have hdecode := (Node.heeded?_eq_some.mp hheeded).1
    cases h.tells (harrival packet serving.source lost hincident) hdecode with
    | @request asking hasking hsource hdestination hmessage =>
      refine ⟨asking, askings_subset_undergo hget _ hasking, hmessage, ?_, hsource.symm,
        hdestination.trans (congrArg Node.address hbefore.symm), hrecords⟩
      rw [hmessage] at hbody
      exact (Body.request.inj hbody).symm
    | answer _ _ _ hmessage =>
      rw [hmessage] at hbody
      exact absurd hbody (by simp)

/-- A new outcome is a timeout, or a response to a request that was served. -/
theorem Matched.settled_undergo :
    ∀ index other, (swarm.undergo member incident).members[index]? = some other →
      ∀ item ∈ other.node.ledger.settled, (swarm.undergo member incident).Settles index item := by
  have hmono : ∀ {index : Nat} {item : Handle × Outcome}, swarm.Settles index item →
      (swarm.undergo member incident).Settles index item := fun hold =>
    hold.mono (askings_subset_undergo hget incident) (servings_subset_undergo hget incident)
  intro index other hother item hitem
  rcases members_undergo hget hother with ⟨rfl, rfl⟩ | ⟨-, hsame⟩
  · have hdealt := course.dealt_undergo incident
    obtain ⟨handle, outcome⟩ := item
    rcases hdealt.settled _ hitem with hold | rfl | ⟨opened, hopened, rfl, hheard⟩
    · exact hmono (h.settled index course hget _ hold)
    · exact .timeout handle
    · obtain ⟨message, source, hhears, hanswers⟩ := hheard
      obtain ⟨asking, hasking, hmember, rfl⟩ := h.asking_of_mem hget hopened
      obtain ⟨packet, lost, hincident, hheeded⟩ := Course.mem_hears hhears
      have hdecode := (Node.heeded?_eq_some.mp hheeded).1
      have houtcome := hanswers.outcome
      cases h.tells (harrival packet source lost hincident) hdecode with
      | request _ _ _ hmessage =>
        rw [hmessage] at houtcome
        exact absurd houtcome (by simp [Ledger.outcomeOf?, Message.told])
      | @answer server serving hserving hsource response hbody hmessage =>
        have htoken := hanswers.transaction
        rw [hmessage] at houtcome htoken
        rw [← hsource] at houtcome
        obtain rfl := Option.some.inj houtcome
        exact .reply hasking hmember (servings_subset_undergo hget _ hserving) htoken hbody
  · exact hmono (h.settled index other hsame item hitem)

theorem Matched.undergo : (swarm.undergo member incident).Matched where
  askers := h.askers_undergo hget incident
  servers := h.servers_undergo hget incident
  packets := h.packets_undergo hget incident
  handles := h.handles_undergo hget incident
  below := h.below_undergo hget incident
  pending := h.pending_undergo hget incident
  served := h.served_undergo hget harrival
  flight := h.flight_undergo hget incident
  settled := h.settled_undergo hget harrival

end Incident

theorem Matched.step (h : swarm.Matched) (hstep : swarm.Step next) : next.Matched := by
  cases hstep with
  | rest => exact h
  | undergo hget harrival => exact h.undergo hget harrival

theorem matched_run (founders : List Founder) (events : List Event) :
    ((start founders).run events).Matched := by
  have hrun : ∀ swarm : Swarm, swarm.Matched → (swarm.run events).Matched := by
    induction events with
    | nil => exact fun _ h => h
    | cons event events ih => exact fun swarm h => ih _ (h.step (swarm.step_perform event))
  exact hrun _ (matched_start founders)

/-! ### Replies -/

/-- A reply is the response that the node at the request's destination made of that very request. -/
structure Genuine (swarm : Swarm) (asking : Asking) (reply : Reply) : Prop where
  destination : reply.sender.address = asking.opened.datagram.destination
  served : ∃ item ∈ swarm.servings, swarm.contact? item.1 = some reply.sender ∧
    item.2.Of asking ∧ item.2.body? = some (.response reply.response) ∧
      item.2.Fits reply.response asking.asked.told

variable {handle : Handle} {outcome : Outcome}

/-- As no token was drawn twice, the request that was served under the token is the one asked. -/
theorem Matched.genuine (h : swarm.Matched)
    (hfresh : (swarm.askings.map (·.opened.transaction)).Nodup)
    (hsettles : swarm.Settles member (handle, outcome)) :
    outcome = .failed .timeout ∨ ∃ asking ∈ swarm.askings, asking.member = member ∧
      asking.opened.handle = handle ∧ ∃ reply, outcome = .replied reply ∧
        swarm.Genuine asking reply := by
  cases hsettles with
  | timeout => exact .inl rfl
  | @reply asking hasking hmember server serving hserving htoken response hbody =>
    refine .inr ⟨asking, hasking, hmember, rfl, _, rfl, ?_⟩
    obtain ⟨served, hserved, hof⟩ := h.served _ hserving
    obtain rfl : served = asking :=
      List.inj_on_of_nodup_map hfresh hserved hasking (hof.transaction.symm.trans htoken)
    obtain ⟨made, hmade, hfits⟩ := Serving.exists_response hof.asked hof.records hbody
    obtain rfl := Body.response.inj hmade
    exact ⟨hof.destination.symm, _, hserving, h.servers _ hserving, hof, hbody, hfits⟩

/-- **Replies match their requests.** Whatever the network loses, repeats, delays and reorders, an
outcome that a member takes for a request is a timeout, or the response that the node at the
request's destination made of that very request; no error of another node is among the outcomes. -/
theorem replies_match (founders : List Founder) (events : List Event)
    (hrun : (start founders).run events = swarm)
    (hfresh : (swarm.askings.map (·.opened.transaction)).Nodup)
    (hget : swarm.members[member]? = some course)
    (hpoll : (course.node.poll handle).2 = some outcome) :
    outcome = .failed .timeout ∨ ∃ asking ∈ swarm.askings,
      (∀ other ∈ swarm.askings,
        other.member = member ∧ other.opened.handle = handle ↔ other = asking) ∧
      ∃ reply, outcome = .replied reply ∧ swarm.Genuine asking reply := by
  have hmatched : swarm.Matched := hrun ▸ matched_run founders events
  rcases Ledger.settled_of_poll hpoll with hsettled | htimeout
  · have hsettles := hmatched.settled member course hget _ hsettled
    refine (hmatched.genuine hfresh hsettles).imp_right ?_
    rintro ⟨asking, hasking, hmember, hhandle, hreply⟩
    refine ⟨asking, hasking, fun other hother => ⟨?_, ?_⟩, hreply⟩
    · rintro ⟨hotherMember, hotherHandle⟩
      exact List.inj_on_of_nodup_map hmatched.handles hother hasking
        (Prod.ext (hotherMember.trans hmember.symm) (hotherHandle.trans hhandle.symm))
    · rintro rfl
      exact ⟨hmember, hhandle⟩
  · exact .inl htimeout

/-- Two nodes, of which the first asks the second to store the key 9. The request is delivered
twice, and it is the second answer that arrives. -/
def storeSwarm : Swarm :=
  let founders : List Founder :=
    [⟨{ id := some .zero }, ⟨⟨10, 0, 0, 1⟩, 4444⟩, .ofLists [] [], 0⟩,
     ⟨{ id := some ⟨1⟩ }, ⟨⟨10, 0, 0, 2⟩, 4444⟩, .ofLists [] [], 0⟩]
  (start founders).run
    [.incident 0 (.happens (.begin (.request ⟨⟨10, 0, 0, 2⟩, 4444⟩ (.store ⟨9⟩ .zero 3333) false))),
     .incident 0 (.happens (.proceed 0 true)), .deliver 0 1 fun _ => false,
     .deliver 0 1 fun _ => false, .deliver 2 0 fun _ => false]

theorem replies_match_of_stored : ∃ asking ∈ storeSwarm.askings,
    storeSwarm.Genuine asking ⟨⟨⟨1⟩, ⟨⟨10, 0, 0, 2⟩, 4444⟩⟩, .stored⟩ := by
  have hfresh : (storeSwarm.askings.map (·.opened.transaction)).Nodup := by decide +kernel
  have hpolled : (storeSwarm.members[0]?.bind fun course => (course.node.poll 0).2) =
      some (.replied ⟨⟨⟨1⟩, ⟨⟨10, 0, 0, 2⟩, 4444⟩⟩, .stored⟩) := by
    decide +kernel
  cases hget : storeSwarm.members[0]? with
  | none =>
    rw [hget] at hpolled
    exact absurd hpolled (by simp)
  | some course =>
    rw [hget, Option.bind_some] at hpolled
    obtain htimeout | ⟨asking, hasking, -, reply, hreply, hgenuine⟩ :=
      replies_match _ _ rfl hfresh hget hpolled
    · exact absurd htimeout (by simp)
    · obtain rfl := Outcome.replied.inj hreply
      exact ⟨asking, hasking, hgenuine⟩

end Swarm

end Kademlia
