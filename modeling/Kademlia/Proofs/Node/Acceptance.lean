import Kademlia.Proofs.Ledger.Orderly
import Kademlia.Proofs.Node.Traffic

/-!
# Kademlia.Proofs.Node.Acceptance

The packets that a node accepts (`Node.accepted?`): requests of others, and the answers that it
waits for. All others leave it as it is (`Node.receive_of_not_accepted`). Whatever happens to a
node, its ledger is what operations have made of it (`Node.Turns.becomes`), hence orderly, so no
answer that is waited for is overlooked and the sender of an accepted packet is always noted
(`Node.exists_receive_of_accepted`).
-/

namespace Kademlia

namespace Ledger

variable {ledger : Ledger} {message : Message} {source : Endpoint} {outcome : Outcome}

/-- Is there an unanswered request with a token that went to where `source` answers from? -/
def isAwaited (ledger : Ledger) (transaction : TransactionId) (source : Endpoint) : Bool :=
  ledger.pending.any fun entry =>
    decide (entry.transaction = transaction) && entry.datagram.destination.answers source

theorem isAwaited_iff {transaction : TransactionId} : ledger.isAwaited transaction source = true ↔
    ∃ entry ∈ ledger.pending, entry.transaction = transaction ∧
      entry.datagram.destination.answers source = true := by
  simp [isAwaited]

/-- The answer to an unanswered request is taken in. -/
theorem Orderly.exists_resolve?_eq (h : ledger.Orderly)
    (hawaited : ledger.isAwaited message.transaction source = true)
    (houtcome : outcomeOf? message source = some outcome) :
    ∃ next, ledger.resolve? message source = some next := by
  obtain ⟨entry, hentry, htoken, hanswers⟩ := isAwaited_iff.mp hawaited
  rw [resolve?_eq_map_claim?, claim?_of_mem h.tokens hentry htoken hanswers houtcome]
  exact ⟨_, rfl⟩

theorem resolve?_eq_none (h : ledger.isAwaited message.transaction source = false) :
    ledger.resolve? message source = none := by
  rw [resolve?_eq_map_claim?, claim?_eq_none, Option.map_none]
  intro opened hopened htoken
  obtain ⟨entry, hentry, rfl⟩ := List.mem_map.mp hopened
  refine Bool.eq_false_iff.mpr fun hanswers => ?_
  have hawaited := isAwaited_iff.mpr ⟨entry, hentry, htoken, hanswers⟩
  exact absurd (hawaited.symm.trans h) (by decide)

end Ledger

namespace Node

variable {node next : Node} {packet : Bytes} {source : Endpoint} {message : Message} {now : Time}

/-! ### The ledger of a node -/

theorem becomes_startRequest {destination : Endpoint} {asked : Request} {opened : OpenedRequest}
    (h : node.startRequest destination asked now = .ok (next, opened)) :
    node.ledger.Becomes next.ledger := by
  obtain ⟨-, hfresh, -, -, draws, rfl⟩ := startRequest_eq_ok h
  exact .single (.noted hfresh opened.datagram now)

theorem becomes_withdraw (node : Node) (opened : OpenedRequest) :
    node.ledger.Becomes (node.withdraw opened).ledger :=
  .single (.withdrawn opened.transaction)

theorem becomes_afterSending (lost : Outgoing → Bool) (result : Node × List Outgoing) :
    result.1.ledger.Becomes (afterSending lost result).ledger := by
  refine List.foldlRecOn (motive := fun next : Node => result.1.ledger.Becomes next.ledger)
    result.2 _ .refl fun node h out _ => ?_
  split
  · cases out with
    | probe contact opened => exact h.trans (node.becomes_withdraw opened)
    | _ => exact h
  · exact h

theorem becomes_addContact (node : Node) (contact : Contact) (now : Time) :
    node.ledger.Becomes (node.addContact contact now).1.ledger := by
  cases hsuspect : (node.table.update contact now).2.suspect? with
  | none =>
    rw [addContact_of_no_suspect hsuspect]
    exact .refl
  | some suspect =>
    rw [addContact_of_suspect hsuspect, startProbe]
    split
    · rename_i hstart
      have hopened := becomes_startRequest hstart
      exact hopened
    · exact .refl

theorem becomes_receive (node : Node) (packet : Bytes) (source : Endpoint) (now : Time)
    (lost : Outgoing → Bool) :
    node.ledger.Becomes (afterSending lost (node.receive packet source now)).ledger := by
  generalize hreceived : afterSending lost (node.receive packet source now) = next
  have hcases := hreceived ▸ received_receive node packet source now lost
  cases hcases with
  | ignored => exact .refl
  | request message records =>
    exact (becomes_addContact { node with records } _ now).trans (becomes_afterSending lost _)
  | @answer message ledger hresolve =>
    have hresolved : node.ledger.Becomes ledger := .single (.resolved hresolve)
    exact hresolved.trans
      ((becomes_addContact { node with ledger } _ now).trans (becomes_afterSending lost _))

theorem becomes_tick (node : Node) (now : Time) (lost : Outgoing → Bool) :
    node.ledger.Becomes (afterSending lost (node.tick now)).ledger := by
  rw [afterSending_tick]
  refine List.foldlRecOn (motive := fun next : Node => node.ledger.Becomes next.ledger)
    node.probes reviewProbe (.single (.ticked now)) fun reviewed h probe _ => ?_
  rw [ledger_reviewProbe]
  exact h.tail (.polled probe.handle)

/-- Whatever happens to a node, its ledger is what operations have made of it. -/
theorem Turns.becomes (h : node.Turns now next) : node.ledger.Becomes next.ledger := by
  cases h with
  | shutdown => exact .single .closed
  | moves hmove =>
    cases hmove with
    | rest => exact .refl
    | receive packet source lost => exact node.becomes_receive packet source now lost
    | addContact contact lost =>
      exact (node.becomes_addContact contact now).trans (becomes_afterSending lost _)
    | tick lost => exact node.becomes_tick now lost
    | own hstep => exact hstep.ledger ▸ .refl
    | opened hstart => exact becomes_startRequest hstart
    | withdrawn hstart => exact (becomes_startRequest hstart).trans (becomes_withdraw _ _)
    | polled handle => exact .single (.polled handle)

/-! ### Acceptance -/

/-- The message of a packet from `source`, if the node accepts it: another node asks something, or
answers what it was asked. -/
def accepted? (node : Node) (packet : Bytes) (source : Endpoint) : Option Message :=
  (node.heeded? packet).filter fun message =>
    match message.body with
    | .request _ => true
    | _ => node.ledger.isAwaited message.transaction source

theorem accepted?_eq_some_iff : node.accepted? packet source = some message ↔
    Message.decode packet = .ok message ∧ message.sender ≠ node.id ∧
      ((∃ asked, message.body = .request asked) ∨
        node.ledger.isAwaited message.transaction source = true) := by
  rw [accepted?, Option.filter_eq_some_iff, heeded?_eq_some, and_assoc]
  refine and_congr_right fun _ => and_congr_right fun _ => ?_
  cases message.body <;> simp

theorem heeded?_of_accepted (h : node.accepted? packet source = some message) :
    node.heeded? packet = some message :=
  (Option.filter_eq_some_iff.mp h).1

/-- A packet that is not accepted changes nothing, and nothing is sent. -/
theorem receive_of_not_accepted (h : node.accepted? packet source = none) (now : Time) :
    node.receive packet source now = (node, []) := by
  cases hheeded : node.heeded? packet with
  | none => exact receive_of_unheeded hheeded source now
  | some message =>
    rw [accepted?, hheeded, Option.filter_eq_none_iff] at h
    have h := h message rfl
    have hanswer (hawaited : ¬ node.ledger.isAwaited message.transaction source = true) :
        node.receiveAnswer message source now = (node, []) := by
      rw [receiveAnswer, Ledger.resolve?_eq_none (Bool.eq_false_iff.mpr hawaited)]
    rw [receive_of_heeded hheeded]
    rcases message with ⟨transaction, sender, asked | answer | refusal⟩
    · exact absurd rfl h
    · exact hanswer h
    · exact hanswer h

/-- The sender of an accepted packet is noted. A request is answered before, and an answer taken
in. -/
theorem exists_receive_of_accepted (horderly : node.ledger.Orderly)
    (h : node.accepted? packet source = some message) (now : Time) :
    ∃ records ledger, (node.ledger.resolve? message source).getD node.ledger = ledger ∧
      node.receive packet source now =
        (({ node with records, ledger }.addContact ⟨message.sender, source⟩ now).1,
          (node.answersBack packet source now).map .answer ++
            ({ node with records, ledger }.addContact ⟨message.sender, source⟩ now).2) := by
  obtain ⟨hheeded, haccepts⟩ := Option.filter_eq_some_iff.mp h
  have hanswer {outcome : Outcome} (hserved : node.served? packet = none)
      (houtcome : Ledger.outcomeOf? message source = some outcome)
      (hawaited : node.ledger.isAwaited message.transaction source = true) :
      ∃ records ledger, (node.ledger.resolve? message source).getD node.ledger = ledger ∧
        node.receiveAnswer message source now =
          (({ node with records, ledger }.addContact ⟨message.sender, source⟩ now).1,
            (node.answersBack packet source now).map .answer ++
              ({ node with records, ledger }.addContact ⟨message.sender, source⟩ now).2) := by
    obtain ⟨ledger, hresolve⟩ := horderly.exists_resolve?_eq hawaited houtcome
    refine ⟨node.records, ledger, by rw [hresolve, Option.getD_some], ?_⟩
    rw [receiveAnswer, hresolve, answersBack, hserved]
    rfl
  have hunserved (hbody : ∀ asked, message.body ≠ .request asked) :
      node.served? packet = none := by
    refine Option.eq_none_iff_forall_ne_some.mpr ?_
    rintro ⟨heard, asked⟩ hserved
    obtain ⟨hheard, hrequest⟩ := served?_eq_some.mp hserved
    obtain rfl := Option.some.inj (hheard.symm.trans hheeded)
    exact hbody asked hrequest
  rw [receive_of_heeded hheeded]
  rcases message with ⟨transaction, sender, asked | answer | refusal⟩
  · obtain ⟨records, hserve⟩ := exists_serve_eq node source asked now
    have hserved := served?_eq_some.mpr ⟨hheeded, rfl⟩
    refine ⟨records, node.ledger, rfl, ?_⟩
    dsimp only
    rw [answersBack, hserved, receiveRequest_eq, hserve]
  · exact hanswer (hunserved fun _ heq => Body.noConfusion heq) rfl haccepts
  · exact hanswer (hunserved fun _ heq => Body.noConfusion heq) rfl haccepts

/-- Whether the answer arrives makes no difference to the node. -/
theorem exists_afterSending_of_accepted (horderly : node.ledger.Orderly)
    (h : node.accepted? packet source = some message) (now : Time) (lost : Outgoing → Bool) :
    ∃ records ledger, (node.ledger.resolve? message source).getD node.ledger = ledger ∧
      afterSending lost (node.receive packet source now) = afterSending lost
        ({ node with records, ledger }.addContact ⟨message.sender, source⟩ now) := by
  obtain ⟨records, ledger, hledger, hreceive⟩ := exists_receive_of_accepted horderly h now
  refine ⟨records, ledger, hledger, ?_⟩
  rw [hreceive, afterSending_append]
  congr 2
  refine afterSending_of_harmless _ lost fun out hout other => ?_
  obtain ⟨datagram, -, rfl⟩ := List.mem_map.mp hout
  rfl

end Node

namespace Course

variable {course : Course}

/-- What holds of a node at every moment of its life. -/
structure Sturdy (course : Course) : Prop where
  orderly : course.node.ledger.Orderly
  wellFormed : course.node.table.WellFormed
  own : course.node.table.own = course.node.id

theorem sturdy_start (config : Config) (address : Endpoint) (draws : Draws) (now : Time) :
    (start config address draws now).Sturdy :=
  ⟨Ledger.orderly_new .., RoutingTable.wellFormed_new .., rfl⟩

theorem Sturdy.undergo (h : course.Sturdy) (incident : Incident) :
    (course.undergo incident).Sturdy := by
  have hturn := course.turns_undergo incident
  have hsame := hturn.sameNode
  refine ⟨h.orderly.becomes hturn.becomes, hsame.table.wellFormed h.wellFormed, ?_⟩
  rw [hsame.table.own, hsame.id, h.own]

theorem Sturdy.live (h : course.Sturdy) (incidents : List Incident) :
    (course.live incidents).Sturdy := by
  induction incidents generalizing course with
  | nil => exact h
  | cons incident incidents ih => exact ih (h.undergo incident)

end Course

end Kademlia
