import Kademlia.Proofs.Ledger.Dealings
import Kademlia.Proofs.Node.Life

/-!
# Kademlia.Proofs.Node.Traffic

What the requests of a node have to do with the messages that come in. The account of a ledger
(`Ledger.Dealt`) is drawn up for everything that a node does: requests are opened when an activity
sends them and when a stalest contact is pinged, and messages are heard when they come in, unless
they bear the node's own id (`Node.heeded?`).
-/

namespace Kademlia

open Ledger (Dealt)

/-- The request that is opened with something to send; answers and repetitions open none. -/
def Outgoing.opened? : Outgoing → Option OpenedRequest
  | .probe _ opened => some opened
  | _ => none

/-- The requests that are opened with what is to be sent. -/
def Outgoing.openings (outgoing : List Outgoing) : List OpenedRequest :=
  outgoing.filterMap opened?

/-- The datagram of an answer. -/
def Outgoing.answer? : Outgoing → Option Datagram
  | .answer datagram => some datagram
  | _ => none

namespace Node

variable {node next : Node} {now : Time}

/-- The message of a packet, if the node heeds it. -/
def heeded? (node : Node) (packet : Bytes) : Option Message :=
  match Message.decode packet with
  | .error _ => none
  | .ok message => if message.sender = node.id then none else some message

theorem heeded?_eq_some {packet : Bytes} {message : Message} :
    node.heeded? packet = some message ↔
      Message.decode packet = .ok message ∧ message.sender ≠ node.id := by
  rw [heeded?]
  cases hdecode : Message.decode packet with
  | error error => simp
  | ok decoded =>
    by_cases hown : decoded.sender = node.id
    · simp only [if_pos hown, Except.ok.injEq, reduceCtorEq, false_iff]
      rintro ⟨rfl, hne⟩
      exact hne hown
    · simp only [if_neg hown, Option.some.injEq, Except.ok.injEq]
      constructor
      · rintro rfl
        exact ⟨rfl, hown⟩
      · exact And.left

/-- A packet that is not heeded changes nothing, and nothing is sent. -/
theorem receive_of_unheeded {packet : Bytes} (h : node.heeded? packet = none) (source : Endpoint)
    (now : Time) : node.receive packet source now = (node, []) := by
  rw [receive]
  rw [heeded?] at h
  cases hdecode : Message.decode packet with
  | error error => rfl
  | ok message =>
    rw [hdecode] at h
    by_cases hown : message.sender = node.id
    · exact if_pos hown
    · exact absurd ((if_neg hown).symm.trans h) (by simp)

theorem receive_of_heeded {packet : Bytes} {message : Message}
    (h : node.heeded? packet = some message) (source : Endpoint) (now : Time) :
    node.receive packet source now =
      match message.body with
      | .request asked => node.receiveRequest message source asked now
      | _ => node.receiveAnswer message source now := by
  obtain ⟨hdecode, hne⟩ := heeded?_eq_some.mp h
  rw [receive, hdecode]
  exact if_neg hne

/-! ### Records -/

/-- The request in a packet, with its message, if the node serves it. -/
def served? (node : Node) (packet : Bytes) : Option (Message × Request) :=
  match node.heeded? packet with
  | none => none
  | some message =>
    match message.body with
    | .request asked => some (message, asked)
    | _ => none

theorem served?_eq_some {packet : Bytes} {message : Message} {asked : Request} :
    node.served? packet = some (message, asked) ↔
      node.heeded? packet = some message ∧ message.body = .request asked := by
  rw [served?]
  cases node.heeded? packet with
  | none => simp
  | some heard =>
    dsimp only
    split
    · rename_i request hbody
      simp only [Option.some.injEq, Prod.mk.injEq]
      constructor
      · rintro ⟨rfl, rfl⟩
        exact ⟨rfl, hbody⟩
      · rintro ⟨rfl, hsame⟩
        exact ⟨rfl, Body.request.inj (hbody.symm.trans hsame)⟩
    · rename_i hother
      simp only [reduceCtorEq, Option.some.injEq, false_iff]
      rintro ⟨rfl, hsame⟩
      exact hother asked hsame

theorem records_receiveRequest (node : Node) (message : Message) (source : Endpoint)
    (asked : Request) (now : Time) :
    (node.receiveRequest message source asked now).1.records =
      (node.serve source asked now).1.records :=
  (tended_addContact (node.serve source asked now).1 ⟨message.sender, source⟩ now).records

theorem records_receiveAnswer (node : Node) (message : Message) (source : Endpoint) (now : Time) :
    (node.receiveAnswer message source now).1.records = node.records := by
  rw [receiveAnswer]
  cases node.ledger.resolve? message source with
  | none => rfl
  | some ledger =>
    exact (tended_addContact { node with ledger } ⟨message.sender, source⟩ now).records

/-- Only requests that are served change the records. -/
theorem records_receive (node : Node) (packet : Bytes) (source : Endpoint) (now : Time)
    (lost : Outgoing → Bool) :
    (afterSending lost (node.receive packet source now)).records =
      match node.served? packet with
      | none => node.records
      | some (_, asked) => (node.serve source asked now).1.records := by
  rw [(tended_afterSending lost _).records, served?]
  cases hheeded : node.heeded? packet with
  | none => rw [receive_of_unheeded hheeded]
  | some message =>
    rw [receive_of_heeded hheeded]
    rcases message with ⟨transaction, sender, asked | answer | refusal⟩
    · exact records_receiveRequest ..
    · exact records_receiveAnswer ..
    · exact records_receiveAnswer ..

/-! ### Answers -/

/-- What a node sends to answer a request that it serves. -/
def answersTo (node : Node) (message : Message) (source : Endpoint) (asked : Request) (now : Time) :
    List Datagram :=
  (node.serve source asked now).2.toList.map fun body =>
    ⟨source, node.packet message.transaction body⟩

theorem receiveRequest_eq (node : Node) (message : Message) (source : Endpoint) (asked : Request)
    (now : Time) :
    node.receiveRequest message source asked now =
      (((node.serve source asked now).1.addContact ⟨message.sender, source⟩ now).1,
        (node.answersTo message source asked now).map .answer ++
          ((node.serve source asked now).1.addContact ⟨message.sender, source⟩ now).2) := by
  obtain ⟨records, hserve⟩ := exists_serve_eq node source asked now
  rw [receiveRequest, answersTo, List.map_map]
  rcases hserved : node.serve source asked now with ⟨served, body⟩
  rw [hserved] at hserve
  obtain rfl : served = { node with records } := hserve
  rfl

/-- Something to send that answers a request, with a datagram of the list, or pings a stalest
contact in the node's name. -/
inductive Emits (node : Node) (answers : List Datagram) : Outgoing → Prop where
  | answer {datagram : Datagram} (h : datagram ∈ answers) : Emits node answers (.answer datagram)
  | probe {suspect : Contact} {opened : OpenedRequest}
    (h : opened.datagram.packet = node.packet opened.transaction (.request .ping)) :
    Emits node answers (.probe suspect opened)

theorem Emits.mono {answers more : List Datagram} {out : Outgoing} (h : node.Emits answers out)
    (hid : next.id = node.id) (hsub : answers ⊆ more) : next.Emits more out := by
  cases h with
  | answer h => exact .answer (hsub h)
  | probe h =>
    refine .probe (h.trans ?_)
    rw [packet, packet, hid]

/-- To note a contact, nothing is sent but a ping. -/
theorem emits_addContact {contact : Contact} {out : Outgoing}
    (h : out ∈ (node.addContact contact now).2) : node.Emits [] out := by
  cases hsuspect : (node.table.update contact now).2.suspect? with
  | none =>
    rw [addContact_of_no_suspect hsuspect] at h
    exact absurd h List.not_mem_nil
  | some suspect =>
    rw [addContact_of_suspect hsuspect, startProbe] at h
    split at h
    · rename_i next opened hstart
      obtain ⟨-, -, -, hdatagram, -⟩ := startRequest_eq_ok hstart
      rw [List.mem_singleton.mp h]
      exact .probe (congrArg Datagram.packet hdatagram)
    · exact absurd h List.not_mem_nil

/-- The answers to a packet, if it bears a request that the node serves. -/
def answersBack (node : Node) (packet : Bytes) (source : Endpoint) (now : Time) : List Datagram :=
  match node.served? packet with
  | none => []
  | some (message, asked) => node.answersTo message source asked now

/-- When a packet comes in, its request is answered, and a contact may be pinged. -/
theorem exists_receive_eq (node : Node) (packet : Bytes) (source : Endpoint) (now : Time) :
    ∃ others, (node.receive packet source now).2 =
        (node.answersBack packet source now).map .answer ++ others ∧
      ∀ out ∈ others, node.Emits [] out := by
  have hanswer : ∀ message, ∀ out ∈ (node.receiveAnswer message source now).2,
      node.Emits [] out := by
    intro message out hout
    rw [receiveAnswer] at hout
    cases hresolve : node.ledger.resolve? message source with
    | none =>
      rw [hresolve] at hout
      exact absurd hout List.not_mem_nil
    | some ledger =>
      rw [hresolve] at hout
      have hemits := emits_addContact hout
      exact hemits.mono rfl (List.Subset.refl _)
  rw [answersBack, served?]
  cases hheeded : node.heeded? packet with
  | none =>
    rw [receive_of_unheeded hheeded]
    exact ⟨[], rfl, List.forall_mem_nil _⟩
  | some message =>
    rw [receive_of_heeded hheeded]
    rcases message with ⟨transaction, sender, asked | answer | refusal⟩
    · obtain ⟨records, hserve⟩ := exists_serve_eq node source asked now
      dsimp only
      rw [receiveRequest_eq, hserve]
      refine ⟨_, rfl, fun out hout => ?_⟩
      have hemits := emits_addContact hout
      exact hemits.mono rfl (List.Subset.refl _)
    · exact ⟨_, rfl, hanswer _⟩
    · exact ⟨_, rfl, hanswer _⟩

/-- A request that is served is answered once at most, and nothing else is answered. -/
theorem answers_receive (node : Node) (packet : Bytes) (source : Endpoint) (now : Time) :
    (node.receive packet source now).2.filterMap Outgoing.answer? =
      node.answersBack packet source now := by
  obtain ⟨others, hreceive, hothers⟩ := node.exists_receive_eq packet source now
  have hnone : others.filterMap Outgoing.answer? = [] := by
    refine List.filterMap_eq_nil_iff.mpr fun out hout => ?_
    cases hothers out hout with
    | answer h => exact absurd h List.not_mem_nil
    | probe h => rfl
  rw [hreceive, List.filterMap_append, hnone, List.append_nil, List.filterMap_map]
  exact List.filterMap_some

theorem emits_receive {packet : Bytes} {source : Endpoint} {out : Outgoing}
    (h : out ∈ (node.receive packet source now).2) :
    node.Emits (node.answersBack packet source now) out := by
  obtain ⟨others, hreceive, hothers⟩ := node.exists_receive_eq packet source now
  rw [hreceive] at h
  rcases List.mem_append.mp h with h | h
  · obtain ⟨datagram, hdatagram, rfl⟩ := List.mem_map.mp h
    exact .answer hdatagram
  · exact (hothers out h).mono rfl (List.nil_subset _)

/-! ### Accounts -/

theorem dealt_startRequest {destination : Endpoint} {asked : Request} {opened : OpenedRequest}
    (h : node.startRequest destination asked now = .ok (next, opened)) :
    Dealt [opened] [] node.ledger next.ledger := by
  obtain ⟨handle, transaction, datagram⟩ := opened
  obtain ⟨-, -, rfl, -, draws, rfl⟩ := startRequest_eq_ok h
  exact node.ledger.dealt_noted transaction datagram now

theorem dealt_refused (node : Node) (out : Outgoing) :
    Dealt [] [] node.ledger (node.refused out).ledger := by
  cases out with
  | answer datagram => exact .refl _
  | retry datagram => exact .refl _
  | probe contact opened => exact node.ledger.dealt_withdraw opened.transaction

theorem dealt_afterSending (lost : Outgoing → Bool) (result : Node × List Outgoing) :
    Dealt [] [] result.1.ledger (afterSending lost result).ledger := by
  refine List.foldlRecOn (motive := fun next : Node => Dealt [] [] result.1.ledger next.ledger)
    result.2 _ (.refl _) fun node h out _ => ?_
  split
  · exact h.trans (node.dealt_refused out)
  · exact h

theorem dealt_startProbe (node : Node) (contact : Contact) (now : Time) :
    Dealt (Outgoing.openings (node.startProbe contact now).2) [] node.ledger
      (node.startProbe contact now).1.ledger := by
  rw [startProbe]
  cases hstart : node.startRequest contact.address .ping now with
  | error error => exact .refl _
  | ok result =>
    have hopened := dealt_startRequest hstart
    exact hopened

theorem dealt_addContact (node : Node) (contact : Contact) (now : Time) :
    Dealt (Outgoing.openings (node.addContact contact now).2) [] node.ledger
      (node.addContact contact now).1.ledger := by
  cases hsuspect : (node.table.update contact now).2.suspect? with
  | none =>
    rw [addContact_of_no_suspect hsuspect]
    exact .refl _
  | some suspect =>
    rw [addContact_of_suspect hsuspect]
    exact dealt_startProbe ..

/-- Answers open no requests. -/
theorem openings_receiveRequest (node : Node) (message : Message) (source : Endpoint)
    (asked : Request) (now : Time) :
    Outgoing.openings (node.receiveRequest message source asked now).2 =
      Outgoing.openings
        ((node.serve source asked now).1.addContact ⟨message.sender, source⟩ now).2 := by
  have hanswers : ((node.answersTo message source asked now).map Outgoing.answer).filterMap
      Outgoing.opened? = [] := by
    rw [List.filterMap_map]
    exact List.filterMap_eq_nil_iff.mpr fun _ _ => rfl
  rw [receiveRequest_eq, Outgoing.openings, List.filterMap_append, hanswers, List.nil_append,
    Outgoing.openings]

theorem dealt_receiveRequest (node : Node) (message : Message) (source : Endpoint)
    (asked : Request) (now : Time) :
    Dealt (Outgoing.openings (node.receiveRequest message source asked now).2) [] node.ledger
      (node.receiveRequest message source asked now).1.ledger := by
  obtain ⟨records, hserve⟩ := exists_serve_eq node source asked now
  rw [openings_receiveRequest, receiveRequest_eq, hserve]
  exact dealt_addContact { node with records } ⟨message.sender, source⟩ now

theorem dealt_receiveAnswer (node : Node) (message : Message) (source : Endpoint) (now : Time) :
    Dealt (Outgoing.openings (node.receiveAnswer message source now).2) [(message, source)]
      node.ledger (node.receiveAnswer message source now).1.ledger := by
  rw [receiveAnswer]
  cases hresolve : node.ledger.resolve? message source with
  | none => exact (Dealt.refl _).mono (List.nil_subset _)
  | some ledger =>
    exact (Ledger.dealt_resolve hresolve).trans (dealt_addContact { node with ledger } _ now)

theorem dealt_receive (node : Node) (packet : Bytes) (source : Endpoint) (now : Time) :
    Dealt (Outgoing.openings (node.receive packet source now).2)
      ((node.heeded? packet).toList.map (·, source)) node.ledger
      (node.receive packet source now).1.ledger := by
  cases hheeded : node.heeded? packet with
  | none =>
    rw [receive_of_unheeded hheeded]
    exact .refl _
  | some message =>
    rw [receive_of_heeded hheeded]
    cases message.body with
    | request asked =>
      exact (dealt_receiveRequest node message source asked now).mono (List.nil_subset _)
    | response answer => exact dealt_receiveAnswer node message source now
    | fault refusal => exact dealt_receiveAnswer node message source now

theorem dealt_reviewProbe (node : Node) (probe : Probe) :
    Dealt [] [] node.ledger (node.reviewProbe probe).ledger := by
  rw [ledger_reviewProbe]
  exact node.ledger.dealt_poll probe.handle

theorem dealt_tick (node : Node) (now : Time) (lost : Outgoing → Bool) :
    Dealt [] [] node.ledger (afterSending lost (node.tick now)).ledger := by
  rw [afterSending_tick]
  exact List.foldlRecOn (motive := fun next : Node => Dealt [] [] node.ledger next.ledger)
    node.probes reviewProbe (node.ledger.dealt_tick now)
    fun reviewed h probe _ => h.trans (reviewed.dealt_reviewProbe probe)

theorem OwnStep.ledger (h : node.OwnStep now next) : next.ledger = node.ledger := by
  cases h <;> rfl

/-- Nothing that happens to a node settles a request but time, and messages of others. -/
theorem Turns.dealt (h : node.Turns now next) :
    ∃ opened heard, Dealt opened heard node.ledger next.ledger ∧
      ∀ item ∈ heard, item.1.sender ≠ node.id := by
  have hnone : ∀ item ∈ ([] : List (Message × Endpoint)), item.1.sender ≠ node.id :=
    List.forall_mem_nil _
  cases h with
  | shutdown => exact ⟨[], [], node.ledger.dealt_close, hnone⟩
  | moves hmove =>
    cases hmove with
    | rest => exact ⟨[], [], .refl _, hnone⟩
    | receive packet source lost =>
      refine ⟨_, _, (dealt_receive node packet source now).trans (dealt_afterSending lost _), ?_⟩
      intro item hitem
      rw [List.append_nil] at hitem
      obtain ⟨message, hheeded, rfl⟩ := List.mem_map.mp hitem
      exact (heeded?_eq_some.mp (Option.mem_toList.mp hheeded)).2
    | addContact contact lost =>
      exact ⟨_, _, (dealt_addContact node contact now).trans (dealt_afterSending lost _), hnone⟩
    | tick lost => exact ⟨[], [], dealt_tick node now lost, hnone⟩
    | own hstep => exact ⟨[], [], hstep.ledger ▸ .refl _, hnone⟩
    | opened hstart => exact ⟨_, _, dealt_startRequest hstart, hnone⟩
    | withdrawn hstart =>
      exact ⟨_, _, (dealt_startRequest hstart).trans (Ledger.dealt_withdraw ..), hnone⟩
    | polled handle => exact ⟨[], [], node.ledger.dealt_poll handle, hnone⟩

end Node

end Kademlia
