import Kademlia.Proofs.Ledger.Handles
import Kademlia.Proofs.Node.Course
import Kademlia.Proofs.RoutingTable.Pings

/-!
# Kademlia.Proofs.Node.Probing

The pings of stalest contacts and the routing table stay in step, whatever happens to a node.

A node keeps three things about such a ping: the slot of the bucket, the probe and the request. The
invariant `Node.Probing` ties the first two, by way of `RoutingTable.Pinging`, and keeps the handles
of the probes apart so that each probe has an outcome of its own. It is kept by every move of a node
(`Probing.moves`): a slot and a probe come together when an update finds a full bucket, and they go
together when the ping cannot be sent and when a tick concludes it.

`pings_in_step` spells out what this means in every course of a node.
-/

namespace Kademlia

namespace Node

variable {node next : Node} {now : Time} {lost : Outgoing → Bool}

/-- The probes are those that the buckets wait for, and each has a handle of its own. -/
structure Probing (node : Node) : Prop where
  table : node.table.Pinging (node.probes.map (·.contact.id))
  handles : ∀ probe ∈ node.probes, probe.handle < node.ledger.nextHandle
  nodup : (node.probes.map Probe.handle).Nodup

theorem probing_new (config : Config) (address : Endpoint) (draws : Draws) (now : Time) :
    (new config address draws now).Probing where
  table := RoutingTable.pinging_new _ _
  handles := fun _ hmem => absurd hmem List.not_mem_nil
  nodup := List.nodup_nil

/-- Requests, records and draws are of no concern to the probes. -/
theorem Probing.congr (h : node.Probing) (htable : next.table = node.table)
    (hprobes : next.probes = node.probes)
    (hhandle : node.ledger.nextHandle ≤ next.ledger.nextHandle) : next.Probing where
  table := by
    rw [htable, hprobes]
    exact h.table
  handles := by
    intro probe hprobe
    rw [hprobes] at hprobe
    exact Nat.lt_of_lt_of_le (h.handles probe hprobe) hhandle
  nodup := by
    rw [hprobes]
    exact h.nodup

/-! ### Sending -/

/-- The loss of answers and repeated requests changes nothing. -/
theorem afterSending_of_harmless (node : Node) (lost : Outgoing → Bool) {outgoing : List Outgoing}
    (h : ∀ out ∈ outgoing, ∀ other : Node, other.refused out = other) :
    afterSending lost (node, outgoing) = node := by
  rw [afterSending]
  induction outgoing with
  | nil => rfl
  | cons out outgoing ih =>
    have hout : (if lost out then node.refused out else node) = node := by
      rw [h out List.mem_cons_self node, ite_self]
    rw [List.foldl_cons, hout]
    exact ih fun other hother => h other (List.mem_cons_of_mem _ hother)

theorem afterSending_append (lost : Outgoing → Bool) (node : Node) (first second : List Outgoing) :
    afterSending lost (node, first ++ second) =
      afterSending lost (afterSending lost (node, first), second) :=
  List.foldl_append

theorem exists_serve_eq (node : Node) (source : Endpoint) (asked : Request) (now : Time) :
    ∃ records, (node.serve source asked now).1 = { node with records } := by
  cases asked with
  | invalid method defect => cases defect <;> exact ⟨node.records, rfl⟩
  | store key publisher port => exact ⟨_, rfl⟩
  | _ => exact ⟨node.records, rfl⟩

/-- What a message can do: its sender is noted, after records or requests may have changed, or
nothing happens. -/
inductive Received (node : Node) (source : Endpoint) (now : Time) (lost : Outgoing → Bool) :
    Node → Prop where
  | ignored : Received node source now lost node
  | request (message : Message) (records : RecordStore) :
      Received node source now lost
        (afterSending lost ({ node with records }.addContact ⟨message.sender, source⟩ now))
  | answer (message : Message) {ledger : Ledger}
      (hresolve : node.ledger.resolve? message source = some ledger) :
      Received node source now lost
        (afterSending lost ({ node with ledger }.addContact ⟨message.sender, source⟩ now))

theorem received_receiveRequest (node : Node) (message : Message) (source : Endpoint)
    (asked : Request) (now : Time) (lost : Outgoing → Bool) :
    node.Received source now lost
      (afterSending lost (node.receiveRequest message source asked now)) := by
  obtain ⟨records, hserve⟩ := exists_serve_eq node source asked now
  have hsame : afterSending lost (node.receiveRequest message source asked now) =
      afterSending lost ({ node with records }.addContact ⟨message.sender, source⟩ now) := by
    rw [receiveRequest, ← hserve, afterSending_append]
    congr 2
    refine afterSending_of_harmless _ lost fun out hout other => ?_
    obtain ⟨body, -, rfl⟩ := List.mem_map.mp hout
    rfl
  rw [hsame]
  exact .request message records

theorem received_receiveAnswer (node : Node) (message : Message) (source : Endpoint) (now : Time)
    (lost : Outgoing → Bool) :
    node.Received source now lost (afterSending lost (node.receiveAnswer message source now)) := by
  rw [receiveAnswer]
  cases hresolve : node.ledger.resolve? message source with
  | none => exact .ignored
  | some ledger => exact .answer message hresolve

theorem received_receive (node : Node) (packet : Bytes) (source : Endpoint) (now : Time)
    (lost : Outgoing → Bool) :
    node.Received source now lost (afterSending lost (node.receive packet source now)) := by
  rw [receive]
  cases Message.decode packet with
  | error error => exact .ignored
  | ok message =>
    dsimp only
    rw [receiveMessage]
    split
    · exact .ignored
    cases message.body with
    | request asked => exact received_receiveRequest node message source asked now lost
    | response answer => exact received_receiveAnswer node message source now lost
    | fault refusal => exact received_receiveAnswer node message source now lost

/-! ### Contacts -/

theorem addContact_of_no_suspect {contact : Contact}
    (h : (node.table.update contact now).2.suspect? = none) :
    node.addContact contact now =
      ({ node with table := (node.table.update contact now).1 }, []) := by
  rw [addContact]
  rcases hupdate : node.table.update contact now with ⟨table, outcome⟩
  rw [hupdate] at h
  dsimp only at h ⊢
  split
  · exact absurd h (by simp [UpdateOutcome.suspect?])
  · rfl

theorem addContact_of_suspect {contact suspect : Contact}
    (h : (node.table.update contact now).2.suspect? = some suspect) :
    node.addContact contact now =
      { node with table := (node.table.update contact now).1 }.startProbe suspect now := by
  rw [addContact]
  rcases hupdate : node.table.update contact now with ⟨table, outcome⟩
  rw [hupdate] at h
  cases outcome with
  | full ping =>
    obtain rfl : ping = some suspect := h
    rfl
  | _ => exact absurd h (by simp [UpdateOutcome.suspect?])

/-- Giving up the contact that the last slot was taken for leaves the other probes. -/
theorem Probing.evict {suspect : Contact} (htable : node.table.Pinging
      (suspect.id :: node.probes.map (·.contact.id)))
    (hhandles : ∀ probe ∈ node.probes, probe.handle < node.ledger.nextHandle)
    (hnodup : (node.probes.map Probe.handle).Nodup) :
    (node.evict suspect.id).Probing ∧ (node.evict suspect.id).table.size = node.table.size :=
  ⟨⟨htable.evict, hhandles, hnodup⟩, htable.size_evict List.mem_cons_self⟩

/-- The probe with a new handle is the one that came last. -/
theorem filter_probes_append {probes : List Probe} {handle : Handle} (contact : Contact)
    (hlt : ∀ probe ∈ probes, probe.handle < handle) :
    (probes ++ [(⟨contact, handle⟩ : Probe)]).filter (·.handle ≠ handle) = probes := by
  rw [List.filter_append, List.filter_cons_of_neg (by simp), List.filter_nil, List.append_nil]
  refine List.filter_eq_self.mpr fun probe hprobe => ?_
  exact decide_eq_true (Nat.ne_of_lt (hlt probe hprobe))

theorem nodup_probes_append {probes : List Probe} {handle : Handle} (contact : Contact)
    (hnodup : (probes.map Probe.handle).Nodup) (hlt : ∀ probe ∈ probes, probe.handle < handle) :
    ((probes ++ [(⟨contact, handle⟩ : Probe)]).map Probe.handle).Nodup := by
  rw [List.map_append]
  refine List.nodup_append.mpr ⟨hnodup, List.nodup_singleton _, fun used hused other hother => ?_⟩
  obtain ⟨probe, hprobe, rfl⟩ := List.mem_map.mp hused
  rw [List.mem_singleton.mp hother]
  exact Nat.ne_of_lt (hlt probe hprobe)

/-- Where a slot was taken for a contact, its ping is under way afterwards, or the contact is given
up. -/
theorem Probing.startProbe {suspect : Contact}
    (htable : node.table.Pinging (suspect.id :: node.probes.map (·.contact.id)))
    (hhandles : ∀ probe ∈ node.probes, probe.handle < node.ledger.nextHandle)
    (hnodup : (node.probes.map Probe.handle).Nodup) (now : Time) (lost : Outgoing → Bool) :
    (afterSending lost (node.startProbe suspect now)).Probing ∧
      (afterSending lost (node.startProbe suspect now)).table.size = node.table.size := by
  rw [Node.startProbe]
  rcases hstart : node.startRequest suspect.address .ping now with error | ⟨next, opened⟩
  · exact Probing.evict htable hhandles hnodup
  obtain ⟨-, -, hhandle, -, draws, rfl⟩ := startRequest_eq_ok hstart
  rw [← hhandle] at hhandles
  have hlt : ∀ probe ∈ node.probes, probe.handle < node.ledger.nextHandle + 1 := by
    rw [← hhandle]
    intro probe hprobe
    exact Nat.lt_succ_of_lt (hhandles probe hprobe)
  show (if lost (.probe suspect opened) then _ else _ : Node).Probing ∧
    (if lost (.probe suspect opened) then _ else _ : Node).table.size = _
  split
  -- The ping is lost: the new probe goes, and its contact with it.
  · rw [refused, probeRefused, withdraw]
    dsimp only
    rw [filter_probes_append suspect hhandles]
    exact Probing.evict htable hlt hnodup
  · refine ⟨⟨?_, ?_, nodup_probes_append suspect hnodup hhandles⟩, rfl⟩
    · refine htable.perm ?_
      rw [List.map_append]
      exact (List.perm_append_singleton suspect.id _).symm
    · intro probe hprobe
      rcases List.mem_append.mp hprobe with hprobe | hprobe
      · exact hlt probe hprobe
      · rw [List.mem_singleton.mp hprobe, hhandle]
        exact Nat.lt_succ_self _

theorem Probing.addContact (h : node.Probing) (contact : Contact) (now : Time)
    (lost : Outgoing → Bool) :
    (afterSending lost (node.addContact contact now)).Probing ∧
      node.table.size ≤ (afterSending lost (node.addContact contact now)).table.size := by
  have htable := h.table.update contact now
  have hsize := h.table.wellFormed.size_le_update contact now
  cases hsuspect : (node.table.update contact now).2.suspect? with
  | none =>
    rw [hsuspect, Option.map_none, Option.toList_none, List.append_nil] at htable
    rw [addContact_of_no_suspect hsuspect]
    exact ⟨⟨htable, h.handles, h.nodup⟩, hsize⟩
  | some suspect =>
    rw [hsuspect, Option.map_some, Option.toList_some] at htable
    obtain ⟨hprobing, heq⟩ := @Probing.startProbe
      { node with table := (node.table.update contact now).1 } suspect
      (htable.perm List.perm_append_comm) h.handles h.nodup now lost
    rw [addContact_of_suspect hsuspect]
    exact ⟨hprobing, Nat.le_trans hsize (Nat.le_of_eq heq.symm)⟩

theorem Probing.receive (h : node.Probing) (packet : Bytes) (source : Endpoint) (now : Time)
    (lost : Outgoing → Bool) :
    (afterSending lost (node.receive packet source now)).Probing ∧
      node.table.size ≤ (afterSending lost (node.receive packet source now)).table.size := by
  generalize hreceived : afterSending lost (node.receive packet source now) = next
  have hcases := hreceived ▸ received_receive node packet source now lost
  cases hcases with
  | ignored => exact ⟨h, Nat.le_refl _⟩
  | request message records =>
    have hnext : ({ node with records } : Node).Probing := h.congr rfl rfl (Nat.le_refl _)
    exact hnext.addContact ..
  | @answer message ledger hresolve =>
    have hhandle := Ledger.nextHandle_resolve? hresolve
    have hnext : ({ node with ledger } : Node).Probing :=
      h.congr rfl rfl (Nat.le_of_eq hhandle.symm)
    exact hnext.addContact ..

/-! ### Ticks -/

variable {probe : Probe} {contact : Contact} {ids : List Id}

theorem reviewProbe_of_none (h : (node.ledger.poll probe.handle).2 = none) :
    node.reviewProbe probe = { node with
      ledger := (node.ledger.poll probe.handle).1
      probes := node.probes ++ [probe] } := by
  rw [reviewProbe, poll]
  rcases hpoll : node.ledger.poll probe.handle with ⟨ledger, outcome⟩
  rw [hpoll] at h
  obtain rfl : outcome = none := h
  rfl

theorem reviewProbe_of_some {outcome : Outcome}
    (h : (node.ledger.poll probe.handle).2 = some outcome) :
    node.reviewProbe probe = { node with
      ledger := (node.ledger.poll probe.handle).1 }.concludeProbe probe.contact outcome := by
  rw [reviewProbe, poll]
  rcases hpoll : node.ledger.poll probe.handle with ⟨ledger, answer⟩
  rw [hpoll] at h
  obtain rfl : answer = some outcome := h
  rfl

theorem probes_concludeProbe (node : Node) (contact : Contact) (outcome : Outcome) :
    (node.concludeProbe contact outcome).probes = node.probes := by
  unfold concludeProbe
  split <;> rfl

theorem ledger_concludeProbe (node : Node) (contact : Contact) (outcome : Outcome) :
    (node.concludeProbe contact outcome).ledger = node.ledger := by
  unfold concludeProbe
  split <;> rfl

theorem ledger_reviewProbe (node : Node) (probe : Probe) :
    (node.reviewProbe probe).ledger = (node.ledger.poll probe.handle).1 := by
  cases hpoll : (node.ledger.poll probe.handle).2 with
  | none => rw [reviewProbe_of_none hpoll]
  | some outcome => rw [reviewProbe_of_some hpoll, ledger_concludeProbe]

/-- Whatever is concluded from a ping, its slot is free afterwards. -/
theorem pinging_concludeProbe (h : node.table.Pinging (contact.id :: ids)) (outcome : Outcome) :
    (node.concludeProbe contact outcome).table.Pinging ids ∧
      (node.concludeProbe contact outcome).table.size = node.table.size := by
  rw [concludeProbe]
  split
  · exact ⟨h.pingAnswered, node.table.size_pingAnswered contact.id⟩
  · exact ⟨h.evict, h.size_evict List.mem_cons_self⟩

/-- After a review the slots belong to the probes that stay and to those that were not reviewed
yet. -/
theorem pinging_reviewProbe {rest : List Probe}
    (h : node.table.Pinging ((node.probes ++ probe :: rest).map (·.contact.id))) :
    (node.reviewProbe probe).table.Pinging
        (((node.reviewProbe probe).probes ++ rest).map (·.contact.id)) ∧
      (node.reviewProbe probe).table.size = node.table.size := by
  cases hpoll : (node.ledger.poll probe.handle).2 with
  | none =>
    rw [reviewProbe_of_none hpoll]
    refine ⟨h.perm (List.Perm.of_eq ?_), rfl⟩
    rw [List.append_assoc]
    rfl
  | some outcome =>
    have hperm : ((node.probes ++ probe :: rest).map (·.contact.id)).Perm
        (probe.contact.id :: (node.probes ++ rest).map (·.contact.id)) := List.perm_middle.map _
    rw [reviewProbe_of_some hpoll, probes_concludeProbe]
    exact @pinging_concludeProbe { node with ledger := (node.ledger.poll probe.handle).1 } _ _
      (h.perm hperm) outcome

/-- In the midst of a tick: `reviewed` has been reviewed, `rest` has not. -/
theorem pinging_foldl_reviewProbe (reviewed rest : List Probe) {node : Node}
    (h : node.table.Pinging ((node.probes ++ (reviewed ++ rest)).map (·.contact.id))) :
    (reviewed.foldl reviewProbe node).table.Pinging
        (((reviewed.foldl reviewProbe node).probes ++ rest).map (·.contact.id)) ∧
      (reviewed.foldl reviewProbe node).table.size = node.table.size := by
  induction reviewed generalizing node with
  | nil => exact ⟨h, rfl⟩
  | cons probe reviewed ih =>
    obtain ⟨hnext, hsize⟩ := pinging_reviewProbe h
    obtain ⟨hlast, hsizes⟩ := ih hnext
    exact ⟨hlast, hsizes.trans hsize⟩

/-- The probes that stay are those without an outcome. -/
theorem probes_foldl_reviewProbe {probes : List Probe} (hnodup : (probes.map Probe.handle).Nodup)
    (node : Node) :
    (probes.foldl reviewProbe node).probes =
      node.probes ++ probes.filter fun probe => (node.ledger.poll probe.handle).2.isNone := by
  induction probes generalizing node with
  | nil => exact (List.append_nil _).symm
  | cons probe probes ih =>
    obtain ⟨hfresh, hnodup⟩ := List.nodup_cons.mp hnodup
    have hrest : probes.filter (fun other =>
        ((node.reviewProbe probe).ledger.poll other.handle).2.isNone) =
          probes.filter fun other => (node.ledger.poll other.handle).2.isNone := by
      refine List.filter_congr fun other hother => ?_
      rw [ledger_reviewProbe, Ledger.poll_poll_of_ne]
      intro heq
      exact hfresh (heq ▸ List.mem_map_of_mem hother)
    rw [List.foldl_cons, ih hnodup, hrest, List.filter_cons]
    cases hpoll : (node.ledger.poll probe.handle).2 with
    | none =>
      rw [reviewProbe_of_none hpoll, if_pos (Option.isNone_none), List.append_assoc]
      rfl
    | some outcome =>
      rw [reviewProbe_of_some hpoll, probes_concludeProbe, if_neg (by simp)]

theorem nextHandle_foldl_reviewProbe (probes : List Probe) (node : Node) :
    (probes.foldl reviewProbe node).ledger.nextHandle = node.ledger.nextHandle := by
  induction probes generalizing node with
  | nil => rfl
  | cons probe probes ih =>
    rw [List.foldl_cons, ih, ledger_reviewProbe, Ledger.nextHandle_poll]

/-- The node in a tick before its probes are reviewed. -/
def beforeReview (node : Node) (now : Time) : Node :=
  { node with ledger := (node.ledger.tick now).1, probes := [] }

theorem afterSending_tick (node : Node) (now : Time) (lost : Outgoing → Bool) :
    afterSending lost (node.tick now) = node.probes.foldl reviewProbe (node.beforeReview now) := by
  rw [tick]
  refine afterSending_of_harmless _ lost fun out hout other => ?_
  obtain ⟨datagram, -, rfl⟩ := List.mem_map.mp hout
  rfl

theorem Probing.tick (h : node.Probing) (now : Time) (lost : Outgoing → Bool) :
    (afterSending lost (node.tick now)).Probing ∧
      (afterSending lost (node.tick now)).table.size = node.table.size := by
  have hbefore : (node.beforeReview now).table.Pinging
      (((node.beforeReview now).probes ++ (node.probes ++ [])).map fun probe : Probe =>
        probe.contact.id) := by
    rw [List.append_nil]
    exact h.table
  obtain ⟨htable, hsize⟩ := pinging_foldl_reviewProbe node.probes [] hbefore
  have hprobes := probes_foldl_reviewProbe h.nodup (node.beforeReview now)
  have hsub : (node.probes.foldl reviewProbe (node.beforeReview now)).probes.Sublist
      node.probes := by
    rw [hprobes]
    exact List.filter_sublist
  rw [afterSending_tick]
  rw [List.append_nil] at htable
  refine ⟨⟨htable, fun probe hprobe => ?_, h.nodup.sublist (hsub.map _)⟩, hsize⟩
  rw [nextHandle_foldl_reviewProbe]
  exact h.handles probe (hsub.subset hprobe)

/-! ### Moves -/

theorem Probing.ownStep (h : node.Probing) (hstep : node.OwnStep now next) :
    next.Probing ∧ node.table.size ≤ next.table.size := by
  cases hstep with
  | look => exact ⟨h, Nat.le_refl _⟩
  | touch target =>
    exact ⟨⟨h.table.touch target now, h.handles, h.nodup⟩,
      Nat.le_of_eq (node.table.size_touch target now).symm⟩
  | publish key => exact ⟨h.congr rfl rfl (Nat.le_refl _), Nat.le_refl _⟩
  | sweep => exact ⟨h.congr rfl rfl (Nat.le_refl _), Nat.le_refl _⟩
  | draw upkeep => exact ⟨h.congr rfl rfl (Nat.le_refl _), Nat.le_refl _⟩

/-- Whatever happens to a node, its probes and its table stay in step, and the table does not
shrink. -/
theorem Probing.moves (h : node.Probing) (hmove : node.Moves now next) :
    next.Probing ∧ node.table.size ≤ next.table.size := by
  cases hmove with
  | rest => exact ⟨h, Nat.le_refl _⟩
  | receive packet source lost => exact h.receive packet source now lost
  | addContact contact lost => exact h.addContact contact now lost
  | tick lost => exact ⟨(h.tick now lost).1, Nat.le_of_eq (h.tick now lost).2.symm⟩
  | own hstep => exact h.ownStep hstep
  | opened hstart =>
    obtain ⟨-, -, -, -, draws, rfl⟩ := startRequest_eq_ok hstart
    exact ⟨h.congr rfl rfl (Nat.le_succ _), Nat.le_refl _⟩
  | withdrawn hstart =>
    obtain ⟨-, -, -, -, draws, rfl⟩ := startRequest_eq_ok hstart
    exact ⟨h.congr rfl rfl (Nat.le_succ _), Nat.le_refl _⟩
  | polled handle =>
    exact ⟨h.congr rfl rfl (Nat.le_of_eq (Ledger.nextHandle_poll ..).symm), Nat.le_refl _⟩

/-! ### What it means -/

/-- The probes and the table are in step: a slot in use is for exactly one probe and a probe has its
slot, and a bucket in which somebody is pinged or waits is full. -/
structure InStep (node : Node) : Prop where
  slot_iff : ∀ index bucket, node.table.buckets[index]? = some bucket → ∀ id,
    bucket.pinging = some id ↔
      node.table.bucketIndex id = index ∧ (node.probes.filter (·.contact.id = id)).length = 1
  slot_of_probe : ∀ probe ∈ node.probes,
    (node.table.bucketOf probe.contact.id).pinging = some probe.contact.id
  pinged : ∀ bucket ∈ node.table.buckets, ∀ id, bucket.pinging = some id →
    bucket.nodes.length = Bucket.capacity ∧ id ∈ bucket.nodeIds ∧ bucket.replacements ≠ []
  awaited : ∀ bucket ∈ node.table.buckets, bucket.replacements ≠ [] →
    bucket.nodes.length = Bucket.capacity

/-- Evictions happen when the ping of a stalest contact cannot be sent, and when a tick concludes
that it was not answered. -/
inductive Evicts (now : Time) (node : Node) : RoutingTable → Id → Prop where
  | unsent {contact suspect : Contact}
    (h : (node.table.update contact now).2.suspect? = some suspect) :
    Evicts now node (node.table.update contact now).1 suspect.id
  | unanswered {reviewed rest : List Probe} {probe : Probe}
    (h : node.probes = reviewed ++ probe :: rest) :
    Evicts now node (reviewed.foldl reviewProbe (node.beforeReview now)).table probe.contact.id

namespace Probing

theorem nodup_ids (h : node.Probing) : (node.probes.map (·.contact.id)).Nodup :=
  h.table.pings.nodup_iff.mp h.table.wellFormed.nodup_pings

theorem length_filter (h : node.Probing) (id : Id) :
    (node.probes.filter (·.contact.id = id)).length =
      if id ∈ node.probes.map (·.contact.id) then 1 else 0 := by
  rw [← h.nodup_ids.count, List.count, List.countP_map, ← List.countP_eq_length_filter]
  refine List.countP_congr fun probe _ => ?_
  simp

theorem inStep (h : node.Probing) : node.InStep where
  slot_iff := by
    intro index bucket hindex id
    have hmem := List.mem_of_getElem? hindex
    rw [h.length_filter]
    constructor
    · intro hping
      have hpings := h.table.pings.subset (RoutingTable.mem_pings_iff.mpr ⟨bucket, hmem, hping⟩)
      have hfits := h.table.wellFormed.fits index bucket hindex
      exact ⟨(hfits.covers id (.inr (.inr hping))).2, if_pos hpings⟩
    · rintro ⟨hplace, hone⟩
      have hbucket := node.table.buckets_bucketIndex id
      rw [hplace, hindex] at hbucket
      rw [Option.some.inj hbucket]
      refine h.table.pinging_bucketOf ?_
      by_contra hout
      rw [if_neg hout] at hone
      exact absurd hone (by decide)
  slot_of_probe := fun _ hprobe => h.table.pinging_bucketOf (List.mem_map_of_mem hprobe)
  pinged := by
    intro bucket hbucket id hping
    have hstaffed := h.table.staffed bucket hbucket
    have hawaited := hstaffed.awaited id hping
    exact ⟨hstaffed.full hawaited, hstaffed.pinged id hping, hawaited⟩
  awaited := fun bucket hbucket => (h.table.staffed bucket hbucket).full

theorem isSome_evict (h : node.Probing) {table : RoutingTable} {id : Id}
    (hevicts : node.Evicts now table id) : (table.evict id).2.isSome = true := by
  cases hevicts with
  | @unsent contact suspect hsuspect =>
    have htable := h.table.update contact now
    rw [hsuspect, Option.map_some, Option.toList_some] at htable
    exact htable.isSome_evict (List.mem_append_right _ (List.mem_singleton_self _))
  | @unanswered reviewed rest probe hprobes =>
    have hstart : (node.beforeReview now).table.Pinging
        (((node.beforeReview now).probes ++ (reviewed ++ probe :: rest)).map (·.contact.id)) := by
      rw [← hprobes]
      exact h.table
    obtain ⟨htable, -⟩ := pinging_foldl_reviewProbe reviewed (probe :: rest) hstart
    refine htable.isSome_evict (List.mem_map_of_mem (List.mem_append_right _ ?_))
    exact List.mem_cons_self

/-- The slot of a ping is free after the tick that finds its outcome. -/
theorem not_mem_pings_tick (h : node.Probing) (lost : Outgoing → Bool)
    (hprobe : probe ∈ node.probes)
    (hsettled : ((node.ledger.tick now).1.poll probe.handle).2.isSome = true) :
    probe.contact.id ∉ (afterSending lost (node.tick now)).table.pings := by
  have hticked := (h.tick now lost).1
  have hprobes := probes_foldl_reviewProbe h.nodup (node.beforeReview now)
  rw [← afterSending_tick node now lost] at hprobes
  intro hmem
  obtain ⟨other, hother, heq⟩ := List.mem_map.mp (hticked.table.pings.subset hmem)
  rw [hprobes] at hother
  obtain ⟨hother, hunsettled⟩ := List.mem_filter.mp hother
  obtain rfl := List.inj_on_of_nodup_map h.nodup_ids hother hprobe heq
  have hnone : ((node.ledger.tick now).1.poll other.handle).2 = none :=
    Option.isNone_iff_eq_none.mp hunsettled
  rw [hnone] at hsettled
  exact absurd hsettled (by simp)

end Probing

/-- **Pings and table stay in step** in every course of a node. Hence every eviction promotes a
replacement, the table never shrinks, and no slot outlasts the tick that finds the outcome of its
ping. -/
theorem pings_in_step (config : Config) (address : Endpoint) (draws : Draws) (start : Time)
    (happenings : List Happening) :
    let course := (Course.start config address draws start).run happenings
    course.node.InStep ∧
      (∀ table id, course.node.Evicts course.now table id → (table.evict id).2.isSome = true) ∧
      (∀ happening, course.node.table.size ≤ (course.perform happening).node.table.size) ∧
      ∀ lost, ∀ probe ∈ course.node.probes,
        ((course.node.ledger.tick course.now).1.poll probe.handle).2.isSome = true →
          ∀ bucket ∈ (course.perform (.tick lost)).node.table.buckets,
            bucket.pinging ≠ some probe.contact.id := by
  have hprobing := Course.run_keeps Probing
    (fun now node next hmove h => (h.moves hmove).1) (Course.start config address draws start)
    (probing_new config address draws start) happenings
  refine ⟨hprobing.inStep, fun table id => hprobing.isSome_evict, fun happening => ?_, ?_⟩
  · exact (hprobing.moves (Course.moves_perform _ happening)).2
  · intro lost probe hprobe hsettled bucket hbucket hping
    exact hprobing.not_mem_pings_tick lost hprobe hsettled
      (RoutingTable.mem_pings_iff.mpr ⟨bucket, hbucket, hping⟩)

end Node

end Kademlia
