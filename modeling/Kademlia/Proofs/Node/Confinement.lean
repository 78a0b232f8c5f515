import Kademlia.Proofs.Node.Acceptance

/-!
# Kademlia.Proofs.Node.Confinement

What a single datagram can do to a node, whatever its bytes are and whoever sent it. One that the
node does not accept does nothing. Any other leads to one answer and one ping at most and changes
the records of one key at most (`Node.Confined`), whether or not what is sent arrives.

The ping is the only thing that goes to somebody else than the sender. It is sent when the bucket
for the sender has no place (`RoutingTable.getLast?_of_suspect`).
-/

namespace Kademlia

namespace Node

variable {node : Node} {packet : Bytes} {source : Endpoint} {message : Message} {now : Time}

/-- A ping in the name of `own` to the last contact of the bucket for an id, which is full. -/
structure PingsLast (own : Id) (table : RoutingTable) (id : Id) (suspect : Contact)
    (opened : OpenedRequest) : Prop where
  full : (table.bucketOf id).nodes.length = Bucket.capacity
  last : (table.bucketOf id).nodes.getLast?.map Entry.contact = some suspect
  datagram : opened.datagram =
    ⟨suspect.address, Message.encode ⟨opened.transaction, own, .request .ping⟩⟩

/-- What a message from `source` may lead to: `result` is the node and what it has to send, and
`final` is the node when that was sent, or could not be sent. -/
structure Confined (node : Node) (message : Message) (source : Endpoint)
    (result : Node × List Outgoing) (final : Node) : Prop where
  /-- Nothing is sent but answers and pings: one at most of each, answers only to requests, only to
  where they came from and with their tokens, and pings only to the last contact of a full
  bucket. -/
  sends : ∃ (answers : List Datagram) (probes : List (Contact × OpenedRequest)),
    result.2 = answers.map .answer ++ probes.map (fun probe => .probe probe.1 probe.2) ∧
    answers.length ≤ 1 ∧ probes.length ≤ 1 ∧
    (∀ datagram ∈ answers, ∃ asked body, message.body = .request asked ∧
      (∀ other, body ≠ .request other) ∧
      datagram = ⟨source, Message.encode ⟨message.transaction, node.id, body⟩⟩) ∧
    ∀ probe ∈ probes, PingsLast node.id result.1.table message.sender probe.1 probe.2
  /-- Only what is to be stored under a key changes the records, and only those of that key. -/
  records : ∀ key, (∀ publisher port, message.body ≠ .request (.store key publisher port)) →
    final.records.of key = node.records.of key
  published : final.records.published = node.records.published

/-- To note a contact, at most one ping is sent, to the last contact of its bucket. -/
theorem exists_probes_addContact (hwf : node.table.WellFormed) (contact : Contact) (now : Time) :
    ∃ probes : List (Contact × OpenedRequest),
      (node.addContact contact now).2 = probes.map (fun probe => .probe probe.1 probe.2) ∧
        probes.length ≤ 1 ∧
        ∀ probe ∈ probes,
          PingsLast node.id (node.addContact contact now).1.table contact.id probe.1 probe.2 := by
  cases hsuspect : (node.table.update contact now).2.suspect? with
  | none =>
    rw [addContact_of_no_suspect hsuspect]
    exact ⟨[], rfl, Nat.zero_le _, List.forall_mem_nil _⟩
  | some suspect =>
    rw [addContact_of_suspect hsuspect, startProbe]
    split
    · rename_i next opened hstart
      obtain ⟨-, -, -, hdatagram, draws, rfl⟩ := startRequest_eq_ok hstart
      obtain ⟨hfull, hlast⟩ := RoutingTable.getLast?_of_suspect hsuspect
      have hsound := ((hwf.update contact now).bucketOf contact.id).sound
      refine ⟨[(suspect, opened)], rfl, Nat.le_refl _, fun probe hprobe => ?_⟩
      obtain rfl := List.mem_singleton.mp hprobe
      exact ⟨Nat.le_antisymm hsound.nodes_le hfull, hlast, hdatagram⟩
    · exact ⟨[], rfl, Nat.zero_le _, List.forall_mem_nil _⟩

/-- What is answered is no request. -/
theorem serve_ne_request {asked : Request} {body : Body}
    (h : (node.serve source asked now).2 = some body) (other : Request) :
    body ≠ .request other := by
  rintro rfl
  cases asked with
  | invalid method defect => cases defect <;> simp [serve] at h
  | _ => simp [serve] at h

/-- There is one answer at most, and only to a request. -/
theorem answersBack_of_heeded (h : node.heeded? packet = some message) (now : Time) :
    (node.answersBack packet source now).length ≤ 1 ∧
      ∀ datagram ∈ node.answersBack packet source now, ∃ asked body,
        message.body = .request asked ∧ (∀ other, body ≠ .request other) ∧
          datagram = ⟨source, Message.encode ⟨message.transaction, node.id, body⟩⟩ := by
  rw [answersBack]
  cases hserved : node.served? packet with
  | none => exact ⟨Nat.zero_le _, List.forall_mem_nil _⟩
  | some served =>
    obtain ⟨heard, asked⟩ := served
    obtain ⟨hheard, hbody⟩ := served?_eq_some.mp hserved
    obtain rfl : heard = message := Option.some.inj (hheard.symm.trans h)
    dsimp only [answersTo]
    constructor
    · rw [List.length_map]
      cases (node.serve source asked now).2 with
      | none => exact Nat.zero_le _
      | some body => exact Nat.le_refl _
    · intro datagram hdatagram
      obtain ⟨body, hmem, rfl⟩ := List.mem_map.mp hdatagram
      exact ⟨asked, body, hbody, serve_ne_request (Option.mem_toList.mp hmem), rfl⟩

/-- Serving a request changes the records only if something is to be stored, and then only those of
its key. -/
theorem records_serve (node : Node) (source : Endpoint) (asked : Request) (now : Time) :
    (node.serve source asked now).1.records.published = node.records.published ∧
      ∀ key, (∀ publisher port, asked ≠ .store key publisher port) →
        (node.serve source asked now).1.records.of key = node.records.of key := by
  cases asked with
  | store stored publisher port =>
    refine ⟨rfl, fun key hkey => RecordStore.of_insert_of_ne _ (fun heq => ?_) _ _⟩
    exact hkey publisher port (by rw [heq])
  | invalid method defect => cases defect <;> exact ⟨rfl, fun _ _ => rfl⟩
  | _ => exact ⟨rfl, fun _ _ => rfl⟩

theorem confined_of_accepted (horderly : node.ledger.Orderly) (hwf : node.table.WellFormed)
    (h : node.accepted? packet source = some message) (now : Time) (lost : Outgoing → Bool) :
    node.Confined message source (node.receive packet source now)
      (afterSending lost (node.receive packet source now)) := by
  have hheeded := heeded?_of_accepted h
  have hrecords : (afterSending lost (node.receive packet source now)).records = node.records ∨
      ∃ asked, message.body = .request asked ∧
        (afterSending lost (node.receive packet source now)).records =
          (node.serve source asked now).1.records := by
    rw [records_receive]
    cases hserved : node.served? packet with
    | none => exact .inl rfl
    | some served =>
      obtain ⟨hheard, hbody⟩ := served?_eq_some.mp hserved
      obtain rfl := Option.some.inj (hheard.symm.trans hheeded)
      exact .inr ⟨served.2, hbody, rfl⟩
  constructor
  case sends =>
    obtain ⟨records, ledger, -, hreceive⟩ := exists_receive_of_accepted horderly h now
    obtain ⟨hone, hanswers⟩ := answersBack_of_heeded hheeded now
    obtain ⟨probes, hprobes, hlength, hpings⟩ :=
      @exists_probes_addContact { node with records, ledger } hwf ⟨message.sender, source⟩ now
    rw [hreceive]
    exact ⟨node.answersBack packet source now, probes, by rw [hprobes], hone, hlength, hanswers,
      hpings⟩
  case records =>
    intro key hkey
    rcases hrecords with heq | ⟨asked, hbody, heq⟩ <;> rw [heq]
    refine (node.records_serve source asked now).2 key fun publisher port hasked => ?_
    exact hkey publisher port (hbody.trans (congrArg Body.request hasked))
  case published =>
    rcases hrecords with heq | ⟨asked, -, heq⟩ <;> rw [heq]
    exact (node.records_serve source asked now).1

/-- **What one datagram can do.** At any moment of a node's life, a datagram that the node does not
accept changes nothing, and nothing is sent. Any other leads to what `Confined` says and no more. -/
theorem confined_receive (config : Config) (address : Endpoint) (draws : Draws) (start : Time)
    (incidents : List Incident) (packet : Bytes) (source : Endpoint) (lost : Outgoing → Bool) :
    let course := (Course.start config address draws start).live incidents
    let result := course.node.receive packet source course.now
    match course.node.accepted? packet source with
    | none => result = (course.node, [])
    | some message => course.node.Confined message source result (afterSending lost result) := by
  intro course result
  have hsturdy := (Course.sturdy_start config address draws start).live incidents
  cases haccepted : course.node.accepted? packet source with
  | none => exact receive_of_not_accepted haccepted course.now
  | some message =>
    exact confined_of_accepted hsturdy.orderly hsturdy.wellFormed haccepted course.now lost

end Node

end Kademlia
