import Kademlia.Proofs.Node.Life
import Kademlia.Proofs.RoutingTable.Use

/-!
# Kademlia.Proofs.Node.Growth

What a turn of a node does to its table, and when (`RoutingTable.Advances`): it notes one contact or
uses one bucket, at the instant of the turn, and apart from that it settles pings, which leaves the
times of the buckets and their number alone (`RoutingTable.Settles`). So the table of a node ages as
tables do (`Node.Turns.ages`).

The table of a node never shrinks either, not even after a shutdown, which forgets the probes and
leaves the slots of their pings in use for good (`Node.Guarded`). Since only a full bucket is split,
a table without contacts is one that was never split: it has a single bucket (`Node.Rooted`).
-/

namespace Kademlia

/-! ### Tables -/

namespace RoutingTable

variable {table next : RoutingTable} {since now : Time} {id : Id}

/-- Pings are settled, one after the other. -/
def Settles : RoutingTable → RoutingTable → Prop :=
  Relation.ReflTransGen fun table next =>
    ∃ id, (table.evict id).1 = next ∨ table.pingAnswered id = next

/-- What a turn of a node does to its table. -/
inductive Advances (now : Time) (table : RoutingTable) : RoutingTable → Prop where
  | settles {next : RoutingTable} (h : table.Settles next) : Advances now table next
  | updates {next : RoutingTable} (contact : Contact)
    (h : (table.update contact now).1.Settles next) : Advances now table next
  | touches (target : Id) : Advances now table (table.touch target now)

theorem settles_evict (table : RoutingTable) (id : Id) : table.Settles (table.evict id).1 :=
  .single ⟨id, .inl rfl⟩

theorem settles_pingAnswered (table : RoutingTable) (id : Id) :
    table.Settles (table.pingAnswered id) :=
  .single ⟨id, .inr rfl⟩

theorem Settles.ages (h : table.Settles next) (since : Time) : table.Ages since next := by
  induction h with
  | refl => exact .refl since table
  | tail _ hstep ih =>
    obtain ⟨id, rfl | rfl⟩ := hstep
    · exact ih.trans (ages_evict since _ id)
    · exact ih.trans (ages_pingAnswered since _ id)

theorem Advances.ages (h : table.Advances now next) (hnow : since ≤ now) :
    table.Ages since next := by
  cases h with
  | settles h => exact h.ages since
  | updates contact h => exact (table.ages_update contact hnow).trans (h.ages since)
  | touches target => exact table.ages_touch target hnow

theorem Settles.length_front (h : table.Settles next) :
    next.front.length = table.front.length := by
  induction h with
  | refl => rfl
  | tail _ hstep ih =>
    obtain ⟨id, rfl | rfl⟩ := hstep
    · exact (length_front_putBucket ..).trans ih
    · exact (length_front_putBucket ..).trans ih

theorem length_front_le_update (table : RoutingTable) (contact : Contact) (now : Time) :
    table.front.length ≤ (table.update contact now).1.front.length := by
  induction table using update_induction contact now with
  | ignored table _ hupdate => exact Nat.le_of_eq (by rw [hupdate])
  | split table _ hupdate ih =>
    rw [length_front_splitFor] at ih
    rw [hupdate]
    exact Nat.le_of_succ_le ih
  | settled table _ _ hupdate => exact Nat.le_of_eq (by rw [hupdate, length_front_putBucket])

/-- Buckets are split and never joined. -/
theorem Advances.length_front_le (h : table.Advances now next) :
    table.front.length ≤ next.front.length := by
  cases h with
  | settles h => exact Nat.le_of_eq h.length_front.symm
  | updates contact h =>
    rw [h.length_front]
    exact table.length_front_le_update contact now
  | touches target => exact Nat.le_of_eq (length_front_putBucket ..).symm

theorem MustSplit.size_pos (h : table.MustSplit id) : 0 < table.size := by
  obtain ⟨before, after, htable, -⟩ := table.exists_entries_eq id
  have hfull := h.full
  rw [size, htable, List.length_append, List.length_append]
  rw [Bucket.capacity] at hfull
  omega

/-- A table that no contact was ever put in is not split. -/
theorem Advances.front_eq_nil (h : table.Advances now next) (hfront : table.front = [])
    (hsize : table.size = 0) : next.front = [] := by
  rw [← List.length_eq_zero_iff] at hfront ⊢
  cases h with
  | settles h => rw [h.length_front, hfront]
  | updates contact h =>
    rw [h.length_front]
    by_cases hown : contact.id = table.own
    · rw [update_of_own hown, hfront]
    · have hsettled : ¬ table.MustSplit contact.id := fun hsplit =>
        Nat.ne_of_gt hsplit.size_pos hsize
      rw [update_of_not_mustSplit hown hsettled, length_front_putBucket, hfront]
  | touches target => rw [length_front_touch, hfront]

theorem isEmpty_iff : table.isEmpty = true ↔ table.size = 0 := by
  rw [isEmpty, size, entries, List.length_eq_zero_iff, List.flatMap_eq_nil_iff, List.all_eq_true]
  simp only [List.isEmpty_iff]

end RoutingTable

theorem Ledger.closed_resolve? {ledger resolved : Ledger} {message : Message} {source : Endpoint}
    (h : ledger.resolve? message source = some resolved) : resolved.closed = ledger.closed := by
  simp only [resolve?, Option.bind_eq_bind, Option.bind_eq_some_iff] at h
  obtain ⟨outcome, -, pending, -, heq⟩ := h
  rw [← Option.some.inj heq]

/-! ### Nodes -/

namespace Node

open RoutingTable

variable {node next : Node} {since now : Time} {ids : List Id}

theorem settles_refused (node : Node) (out : Outgoing) :
    node.table.Settles (node.refused out).table := by
  cases out with
  | probe contact opened => exact node.table.settles_evict contact.id
  | _ => exact .refl

theorem settles_afterSending (lost : Outgoing → Bool) (result : Node × List Outgoing) :
    result.1.table.Settles (afterSending lost result).table := by
  refine List.foldlRecOn (motive := fun next : Node => result.1.table.Settles next.table)
    result.2 _ .refl fun node h out _ => ?_
  split
  · exact h.trans (node.settles_refused out)
  · exact h

theorem settles_startProbe (node : Node) (contact : Contact) (now : Time) :
    node.table.Settles (node.startProbe contact now).1.table := by
  rw [startProbe]
  split
  · rename_i hstart
    obtain ⟨-, -, -, -, draws, rfl⟩ := startRequest_eq_ok hstart
    exact .refl
  · exact node.table.settles_evict contact.id

theorem advances_addContact (node : Node) (contact : Contact) (now : Time)
    (lost : Outgoing → Bool) :
    node.table.Advances now (afterSending lost (node.addContact contact now)).table := by
  have hprobe :
      (node.table.update contact now).1.Settles (node.addContact contact now).1.table := by
    cases hsuspect : (node.table.update contact now).2.suspect? with
    | none =>
      rw [addContact_of_no_suspect hsuspect]
      exact .refl
    | some suspect =>
      rw [addContact_of_suspect hsuspect]
      exact settles_startProbe { node with table := (node.table.update contact now).1 } suspect now
  exact .updates contact (hprobe.trans (settles_afterSending lost _))

theorem settles_reviewProbe (node : Node) (probe : Probe) :
    node.table.Settles (node.reviewProbe probe).table := by
  cases hpoll : (node.ledger.poll probe.handle).2 with
  | none =>
    rw [reviewProbe_of_none hpoll]
    exact .refl
  | some outcome =>
    rw [reviewProbe_of_some hpoll, concludeProbe]
    split
    · exact node.table.settles_pingAnswered probe.contact.id
    · exact node.table.settles_evict probe.contact.id

theorem settles_tick (node : Node) (now : Time) (lost : Outgoing → Bool) :
    node.table.Settles (afterSending lost (node.tick now)).table := by
  rw [afterSending_tick]
  exact List.foldlRecOn (motive := fun next : Node => node.table.Settles next.table) node.probes
    reviewProbe .refl fun reviewed h probe _ => h.trans (reviewed.settles_reviewProbe probe)

theorem OwnStep.advances (h : node.OwnStep now next) : node.table.Advances now next.table := by
  cases h with
  | touch target => exact .touches target
  | _ => exact .settles .refl

/-- **What a turn does to the table**: a contact is noted or a bucket used, and pings are
settled. -/
theorem Turns.advances (h : node.Turns now next) : node.table.Advances now next.table := by
  cases h with
  | shutdown => exact .settles .refl
  | moves hmove =>
    cases hmove with
    | rest => exact .settles .refl
    | receive packet source lost =>
      generalize hreceived : afterSending lost (node.receive packet source now) = next
      have hcases := hreceived ▸ received_receive node packet source now lost
      cases hcases with
      | ignored => exact .settles .refl
      | request message records =>
        exact advances_addContact { node with records } ⟨message.sender, source⟩ now lost
      | @answer message ledger hresolve =>
        exact advances_addContact { node with ledger } ⟨message.sender, source⟩ now lost
    | addContact contact lost => exact node.advances_addContact contact now lost
    | tick lost => exact .settles (node.settles_tick now lost)
    | own hstep => exact hstep.advances
    | opened hstart =>
      obtain ⟨-, -, -, -, draws, rfl⟩ := startRequest_eq_ok hstart
      exact .settles .refl
    | withdrawn hstart =>
      obtain ⟨-, -, -, -, draws, rfl⟩ := startRequest_eq_ok hstart
      exact .settles .refl
    | polled handle => exact .settles .refl

theorem Turns.ages (h : node.Turns now next) (hnow : since ≤ now) :
    node.table.Ages since next.table :=
  h.advances.ages hnow

/-! ### After a shutdown -/

/-- The slots of the buckets are accounted for: by the probes, or, after a shutdown, by those that
there were. -/
inductive Guarded (node : Node) : Prop where
  | probing (h : node.Probing)
  | closed (hclosed : node.ledger.closed = true) (hprobes : node.probes = []) (ids : List Id)
    (h : node.table.Pinging ids)

theorem Guarded.wellFormed (h : node.Guarded) : node.table.WellFormed := by
  cases h with
  | probing h => exact h.table.wellFormed
  | closed _ _ ids h => exact h.wellFormed

/-- A node that was shut down gives up whom it would ping, and there is a replacement. -/
theorem guarded_addContact (hclosed : node.ledger.closed = true) (hprobes : node.probes = [])
    (h : node.table.Pinging ids) (contact : Contact) (now : Time) (lost : Outgoing → Bool) :
    (afterSending lost (node.addContact contact now)).Guarded ∧
      node.table.size ≤ (afterSending lost (node.addContact contact now)).table.size := by
  have htable := h.update contact now
  have hsize := h.wellFormed.size_le_update contact now
  cases hsuspect : (node.table.update contact now).2.suspect? with
  | none =>
    rw [addContact_of_no_suspect hsuspect]
    exact ⟨.closed hclosed hprobes _ htable, hsize⟩
  | some suspect =>
    rw [hsuspect, Option.map_some, Option.toList_some] at htable
    have hpinging := htable.perm List.perm_append_comm
    have hstart := @startRequest_of_closed { node with table := (node.table.update contact now).1 }
      hclosed suspect.address .ping now
    rw [addContact_of_suspect hsuspect, startProbe, hstart]
    exact ⟨.closed hclosed hprobes ids hpinging.evict,
      Nat.le_trans hsize (Nat.le_of_eq (hpinging.size_evict List.mem_cons_self).symm)⟩

theorem guarded_turns_of_closed (hclosed : node.ledger.closed = true) (hprobes : node.probes = [])
    (h : node.table.Pinging ids) (hturn : node.Turns now next) :
    next.Guarded ∧ node.table.size ≤ next.table.size := by
  cases hturn with
  | shutdown => exact ⟨.closed rfl rfl ids h, Nat.le_refl _⟩
  | moves hmove =>
    cases hmove with
    | rest => exact ⟨.closed hclosed hprobes ids h, Nat.le_refl _⟩
    | receive packet source lost =>
      generalize hreceived : afterSending lost (node.receive packet source now) = next
      have hcases := hreceived ▸ received_receive node packet source now lost
      cases hcases with
      | ignored => exact ⟨.closed hclosed hprobes ids h, Nat.le_refl _⟩
      | request message records =>
        exact @guarded_addContact { node with records } ids hclosed hprobes h _ now lost
      | @answer message ledger hresolve =>
        have hresolved : ledger.closed = true := (Ledger.closed_resolve? hresolve).trans hclosed
        exact @guarded_addContact { node with ledger } ids hresolved hprobes h _ now lost
    | addContact contact lost => exact guarded_addContact hclosed hprobes h contact now lost
    | tick lost =>
      rw [afterSending_tick, hprobes]
      exact ⟨.closed hclosed rfl ids h, Nat.le_refl _⟩
    | own hstep =>
      cases hstep with
      | touch target =>
        exact ⟨.closed hclosed hprobes ids (h.touch target now),
          Nat.le_of_eq (node.table.size_touch target now).symm⟩
      | _ => exact ⟨.closed hclosed hprobes ids h, Nat.le_refl _⟩
    | opened hstart =>
      rw [startRequest_of_closed hclosed] at hstart
      exact absurd hstart (by simp)
    | withdrawn hstart =>
      rw [startRequest_of_closed hclosed] at hstart
      exact absurd hstart (by simp)
    | polled handle =>
      exact ⟨.closed ((Ledger.closed_poll ..).trans hclosed) hprobes ids h, Nat.le_refl _⟩

/-- **The table of a node never shrinks.** -/
theorem Guarded.turns (h : node.Guarded) (hturn : node.Turns now next) :
    next.Guarded ∧ node.table.size ≤ next.table.size := by
  cases h with
  | closed hclosed hprobes ids h => exact guarded_turns_of_closed hclosed hprobes h hturn
  | probing h =>
    cases hturn with
    | moves hmove =>
      obtain ⟨hnext, hsize⟩ := h.moves hmove
      exact ⟨.probing hnext, hsize⟩
    | shutdown => exact ⟨.closed rfl rfl _ h.table, Nat.le_refl _⟩

/-- The table is guarded, and it has a single bucket as long as it has no contacts. -/
structure Rooted (node : Node) : Prop where
  guarded : node.Guarded
  single : node.table.isEmpty = true → node.table.front = []

theorem rooted_new (config : Config) (address : Endpoint) (draws : Draws) (now : Time) :
    (new config address draws now).Rooted where
  guarded := .probing (probing_new config address draws now)
  single := fun _ => rfl

theorem Rooted.turns (h : node.Rooted) (hturn : node.Turns now next) : next.Rooted := by
  obtain ⟨hguarded, hsize⟩ := h.guarded.turns hturn
  refine ⟨hguarded, fun hempty => ?_⟩
  have hbefore : node.table.size = 0 := by
    have hafter := isEmpty_iff.mp hempty
    omega
  exact hturn.advances.front_eq_nil (h.single (isEmpty_iff.mpr hbefore)) hbefore

end Node

end Kademlia
