import Kademlia.Proofs.Node.Acceptance
import Kademlia.Proofs.Node.Attendance
import Kademlia.Proofs.Node.Awaiting
import Kademlia.Proofs.Swarm.Member

/-!
# Kademlia.Proofs.Node.Arrival

Where the replies come from that an activity hears: from packets that arrived in the life of the
node, after the activity had sent a request to where they came from (`Attended.Arrived`). The
invariant is about the handles that the activity holds (`Attended.Holds`). None of them is given out
to anybody else, so a request that is unanswered under one of them is the activity's own, and so is
what a reply to it answers.
-/

namespace Kademlia

open Ledger (Dealt)

namespace Attended

variable {α : Type} {begun : Attended α} {beats : List Beat} {own : Handle → Prop} {reply : Reply}

/-- The reply was in a packet that arrived after the activity had sent a request to where the packet
came from. -/
def Arrived (begun : Attended α) (beats : List Beat) (reply : Reply) : Prop :=
  ∃ early packet source lost late message,
    beats = early ++ .other (.happens (.receive packet source lost)) :: late ∧
      Message.decode packet = .ok message ∧ message.body = .response reply.response ∧
      reply.sender = ⟨message.sender, source⟩ ∧
      ∃ item ∈ (begun.run early).asked, item.1.answers source = true

theorem run_append (begun : Attended α) (beats more : List Beat) :
    begun.run (beats ++ more) = (begun.run beats).run more :=
  List.foldl_append

theorem Arrived.append (h : begun.Arrived beats reply) (more : List Beat) :
    begun.Arrived (beats ++ more) reply := by
  obtain ⟨early, packet, source, lost, late, message, rfl, hpacket⟩ := h
  exact ⟨early, packet, source, lost, late ++ more, message, by simp, hpacket⟩

/-! ### The invariant -/

/-- What is known of the handles that the activity holds, after the beats. -/
structure Holds (begun : Attended α) (beats : List Beat) (own : Handle → Prop) : Prop where
  awaits : (begun.run beats).dialogue.AwaitsOwn own
  given : ∀ handle, own handle → handle < (begun.run beats).course.node.ledger.nextHandle
  /-- Their unanswered requests are the activity's own. -/
  unanswered : ∀ opened ∈ (begun.run beats).course.node.ledger.unanswered, own opened.handle →
    ∃ item ∈ (begun.run beats).asked, item.1 = opened.datagram.destination
  /-- The replies that are filed under them have arrived. -/
  settled : ∀ handle reply,
    (handle, .replied reply) ∈ (begun.run beats).course.node.ledger.settled → own handle →
      begun.Arrived beats reply
  /-- So have those that were handed out. -/
  heard : ∀ reply, .replied reply ∈ (begun.run beats).heard → begun.Arrived beats reply

theorem holds_start {course : Course} {dialogue : Dialogue α}
    (h : dialogue.AwaitsOwn fun _ => False) :
    (start course dialogue).Holds [] fun _ => False :=
  ⟨h, fun _ => False.elim, fun _ _ => False.elim, fun _ _ _ => False.elim,
    fun _ hreply => absurd hreply List.not_mem_nil⟩

/-- What the activity itself does to a state, holding handles before and after: it opens requests
that it holds the handles of, and hears outcomes that were filed under handles that it held. -/
structure Advances (state : Attended α) (own : Handle → Prop) (next : Attended α)
    (more : Handle → Prop) : Prop where
  awaits : next.dialogue.AwaitsOwn more
  asked : state.asked ⊆ next.asked
  dealt : ∃ opened, Dealt opened [] state.course.node.ledger next.course.node.ledger ∧
    (∀ handle, more handle → own handle ∨ ∃ request ∈ opened, request.handle = handle) ∧
    ∀ request ∈ opened, ∃ item ∈ next.asked, item.1 = request.datagram.destination
  heard : ∀ reply, .replied reply ∈ next.heard → .replied reply ∈ state.heard ∨
    ∃ handle, own handle ∧ (handle, .replied reply) ∈ state.course.node.ledger.settled

/-- Nothing is sent or heard. -/
theorem advances_of_ledger_eq {state next : Attended α} (hawaits : next.dialogue.AwaitsOwn own)
    (hledger : next.course.node.ledger = state.course.node.ledger)
    (hasked : next.asked = state.asked)
    (hheard : ∀ reply, .replied reply ∈ next.heard → .replied reply ∈ state.heard) :
    state.Advances own next own where
  awaits := hawaits
  asked := hasked ▸ List.Subset.refl _
  dealt := ⟨[], hledger ▸ .refl _, fun _ => .inl, List.forall_mem_nil _⟩
  heard := fun reply hreply => .inl (hheard reply hreply)

/-- A request is opened with the handle that is given out for it, unless it cannot be sent. -/
theorem dealt_request (node : Node) (now : Time) (destination : Endpoint) (request : Request)
    (sent : Bool) :
    ∃ opened, Dealt opened [] node.ledger
        (Course.request node now destination request sent).1.ledger ∧
      (∀ handle, (Course.request node now destination request sent).2 = .ok handle →
        ∃ sending ∈ opened, sending.handle = handle) ∧
      ∀ sending ∈ opened, sending.datagram.destination = destination := by
  rw [Course.request]
  cases hstart : node.startRequest destination request now with
  | error error => exact ⟨[], .refl _, by simp, List.forall_mem_nil _⟩
  | ok result =>
    obtain ⟨next, sending⟩ := result
    obtain ⟨-, -, -, hdatagram, -⟩ := Node.startRequest_eq_ok hstart
    have hdealt := Node.dealt_startRequest hstart
    have hdestination : ∀ other ∈ [sending], other.datagram.destination = destination := by
      intro other hother
      rw [List.mem_singleton.mp hother, hdatagram]
    cases sent with
    | true =>
      exact ⟨[sending], hdealt, fun handle hhandle => ⟨sending, List.mem_singleton_self _,
        Except.ok.inj hhandle⟩, hdestination⟩
    | false =>
      exact ⟨[sending], hdealt.trans (Ledger.dealt_withdraw ..), by simp, hdestination⟩

theorem exists_advances_proceed {state : Attended α} (hawaits : state.dialogue.AwaitsOwn own)
    (sent : Bool) :
    ∃ more, state.Advances own (state.perform (.proceed sent)) more := by
  obtain ⟨course, dialogue, asked, heard⟩ := state
  cases dialogue with
  | done value =>
    exact ⟨own, advances_of_ledger_eq hawaits rfl (by simp [perform, Dialogue.asks])
      (by simp [perform, Dialogue.hears])⟩
  | step deed next =>
    refine ⟨own, advances_of_ledger_eq (hawaits _) ?_ (by simp [perform, Dialogue.asks])
      (by simp [perform, Dialogue.hears])⟩
    exact (deed.ownStep course.node course.now).ledger
  | request destination request next =>
    obtain ⟨opened, hdealt, hhandle, hdestination⟩ :=
      dealt_request course.node course.now destination request sent
    refine ⟨fun handle => own handle ∨
      (Course.request course.node course.now destination request sent).2 = .ok handle, hawaits _,
      List.subset_append_left .., ⟨opened, hdealt, ?_, ?_⟩, ?_⟩
    · exact fun handle hown => hown.imp_right (hhandle handle)
    · intro sending hsending
      exact ⟨(destination, request), List.mem_append_right _ (List.mem_singleton_self _),
        (hdestination sending hsending).symm⟩
    · intro reply hreply
      exact .inl (by simpa [perform, Dialogue.hears] using hreply)
  | await handle next =>
    obtain ⟨hown, hnext⟩ := hawaits
    simp only [perform, Course.advance, Dialogue.asks, Dialogue.hears, List.append_nil]
    have hdealt := course.node.ledger.dealt_poll handle
    rcases hpoll : course.node.poll handle with ⟨polled, outcome | outcome⟩
    · exact ⟨own, advances_of_ledger_eq ⟨hown, hnext⟩ rfl rfl (by simp)⟩
    · have hledger : polled.ledger = (course.node.ledger.poll handle).1 :=
        congrArg (·.1.ledger) hpoll.symm
      have houtcome : (course.node.ledger.poll handle).2 = some outcome := congrArg Prod.snd hpoll
      refine ⟨own, hnext outcome, List.Subset.refl _, ⟨[], hledger ▸ hdealt, fun _ => .inl,
        List.forall_mem_nil _⟩, fun reply hreply => ?_⟩
      rcases List.mem_append.mp hreply with hreply | hreply
      · exact .inl hreply
      · obtain rfl : _ = outcome := List.mem_singleton.mp hreply
        exact .inr ⟨handle, hown, (Ledger.settled_of_poll houtcome).resolve_right (by simp)⟩

theorem advances_giveUp {state : Attended α} (hawaits : state.dialogue.AwaitsOwn own) :
    state.Advances own (state.perform .giveUp) own := by
  refine advances_of_ledger_eq (Course.awaitsOwn_abandon hawaits) rfl rfl fun reply hreply => ?_
  refine (List.mem_append.mp hreply).resolve_right fun hpresumed => ?_
  cases hdialogue : state.dialogue <;> simp [hdialogue, Dialogue.presumes] at hpresumed

namespace Holds

/-- What is not the activity's doing gives out no handle that the activity holds, and settles its
requests with what arrives. -/
theorem other (h : begun.Holds beats own) (incident : Incident) :
    begun.Holds (beats ++ [.other incident]) own := by
  have hdealt := (begun.run beats).course.dealt_undergo incident
  -- The handles of requests that are opened now are new.
  have hold : ∀ opened, own opened.handle →
      opened ∈ (begun.run beats).course.node.ledger.unanswered ++
        ((begun.run beats).course.asks incident).map Prod.fst →
      opened ∈ (begun.run beats).course.node.ledger.unanswered := by
    intro opened hown hmem
    refine (List.mem_append.mp hmem).resolve_right fun hnew => ?_
    exact absurd (h.given opened.handle hown) (Nat.not_lt.mpr (hdealt.ge opened hnew))
  refine ⟨?_, ?_, ?_, ?_, ?_⟩ <;> rw [run_append]
  · exact h.awaits
  · intro handle hown
    exact Nat.lt_of_lt_of_le (h.given handle hown) hdealt.le
  · intro opened hopened hown
    exact h.unanswered opened (hold opened hown (hdealt.unanswered opened hopened)) hown
  · intro handle reply hmem hown
    rcases hdealt.settled _ hmem with hmem | htimeout | ⟨opened, hopened, rfl, hanswered⟩
    · exact (h.settled handle reply hmem hown).append _
    · exact absurd htimeout (by simp)
    · obtain ⟨message, source, hheard, hanswers⟩ := hanswered
      obtain ⟨packet, lost, rfl, hheeded⟩ := Course.mem_hears hheard
      obtain ⟨item, hitem, hdestination⟩ := h.unanswered opened (hold opened hown hopened) hown
      have houtcome := hanswers.outcome
      rw [Ledger.outcomeOf?] at houtcome
      split at houtcome
      · exact absurd houtcome (by simp)
      · rename_i answer hbody
        obtain rfl : _ = reply := Outcome.replied.inj (Option.some.inj houtcome)
        exact ⟨beats, packet, source, lost, [], message, rfl,
          (Node.heeded?_eq_some.mp hheeded).1, hbody, rfl, item, hitem,
          hdestination ▸ hanswers.destination⟩
      · exact absurd houtcome (by simp)
  · exact fun reply hreply => (h.heard reply hreply).append _

/-- What the activity does itself may only add to what is held. -/
theorem advance (h : begun.Holds beats own) (beat : Beat) {more : Handle → Prop}
    (horderly : (begun.run beats).course.node.ledger.Orderly)
    (hadvances : (begun.run beats).Advances own ((begun.run beats).perform beat) more) :
    begun.Holds (beats ++ [beat]) more := by
  obtain ⟨opened, hdealt, hmore, hopened⟩ := hadvances.dealt
  -- What was there before is not under the handles that are given out now.
  have hheld : ∀ handle ∈ (begun.run beats).course.node.ledger.handles,
      more handle → own handle := by
    intro handle hmem hown
    refine (hmore handle hown).resolve_right ?_
    rintro ⟨request, hrequest, rfl⟩
    exact absurd (horderly.lt _ hmem) (Nat.not_lt.mpr (hdealt.ge request hrequest))
  refine ⟨?_, ?_, ?_, ?_, ?_⟩ <;> rw [run_append]
  · exact hadvances.awaits
  · intro handle hown
    rcases hmore handle hown with hown | ⟨request, hrequest, rfl⟩
    · exact Nat.lt_of_lt_of_le (h.given handle hown) hdealt.le
    · exact hdealt.lt request hrequest
  · intro request hrequest hown
    rcases List.mem_append.mp (hdealt.unanswered request hrequest) with hmem | hmem
    · have hhandle : request.handle ∈ (begun.run beats).course.node.ledger.handles :=
        List.mem_append_left _ (List.mem_map_of_mem hmem)
      obtain ⟨item, hitem, hdestination⟩ := h.unanswered request hmem (hheld _ hhandle hown)
      exact ⟨item, hadvances.asked hitem, hdestination⟩
    · exact hopened request hmem
  · intro handle reply hmem hown
    rcases hdealt.settled _ hmem with hmem | htimeout | ⟨_, _, _, _, _, hnone, _⟩
    · have hhandle : handle ∈ (begun.run beats).course.node.ledger.handles :=
        List.mem_append_right _ (List.mem_map_of_mem hmem)
      exact (h.settled handle reply hmem (hheld _ hhandle hown)).append _
    · exact absurd htimeout (by simp)
    · exact absurd hnone List.not_mem_nil
  · intro reply hmem
    rcases hadvances.heard reply hmem with hmem | ⟨handle, hown, hmem⟩
    · exact (h.heard reply hmem).append _
    · exact (h.settled handle reply hmem hown).append _

end Holds

/-! ### Lives -/

theorem exists_holds_run (horderly : begun.course.node.ledger.Orderly)
    (hstart : begun.Holds [] own) (beats : List Beat) : ∃ more, begun.Holds beats more := by
  induction beats using List.reverseRecOn with
  | nil => exact ⟨own, hstart⟩
  | append_singleton beats beat ih =>
    obtain ⟨more, hholds⟩ := ih
    have horderly' : (begun.run beats).course.node.ledger.Orderly :=
      run_keeps (fun node => node.ledger.Orderly)
        (fun _ _ _ hturn h => h.becomes hturn.becomes) horderly beats
    cases beat with
    | other incident => exact ⟨more, hholds.other incident⟩
    | proceed sent =>
      obtain ⟨last, hadvances⟩ := exists_advances_proceed hholds.awaits sent
      exact ⟨last, hholds.advance _ horderly' hadvances⟩
    | giveUp => exact ⟨more, hholds.advance _ horderly' (advances_giveUp hholds.awaits)⟩

/-- **Replies have arrived**: what an activity hears that waits for none but its own requests was in
a packet that arrived after the activity had sent a request to where the packet came from. -/
theorem arrived_of_heard {dialogue : Dialogue α} (hawaits : dialogue.AwaitsOwn fun _ => False)
    (config : Config) (address : Endpoint) (draws : Draws) (now : Time) {beats : List Beat}
    (hreply : .replied reply ∈
      ((start (.start config address draws now) dialogue).run beats).heard) :
    (start (.start config address draws now) dialogue).Arrived beats reply := by
  have horderly :
      (start (.start config address draws now) dialogue).course.node.ledger.Orderly :=
    Ledger.orderly_new ..
  obtain ⟨own, hholds⟩ := exists_holds_run horderly (holds_start hawaits) beats
  exact hholds.heard reply hreply

end Attended

end Kademlia
