import Kademlia.Proofs.Ledger.Interleaving

/-!
# Kademlia.Proofs.Ledger.Dealings

An account of what becomes of a ledger while requests are opened and messages are heard
(`Ledger.Dealt`): which requests may be unanswered afterwards, and where each new outcome comes
from. Accounts add up (`Dealt.trans`), so the account of whatever a node does is put together from
those of the operations of its ledger.
-/

namespace Kademlia

namespace Ledger

/-- A message from `source` answers a request, and means the outcome. -/
structure Answers (request : OpenedRequest) (message : Message) (source : Endpoint)
    (outcome : Outcome) : Prop where
  transaction : message.transaction = request.transaction
  destination : request.datagram.destination.answers source = true
  outcome : outcomeOf? message source = some outcome

/-- Between the two states of a ledger the requests were opened and the messages heard. -/
structure Dealt (opened : List OpenedRequest) (heard : List (Message × Endpoint))
    (ledger next : Ledger) : Prop where
  le : ledger.nextHandle ≤ next.nextHandle
  ge : ∀ request ∈ opened, ledger.nextHandle ≤ request.handle
  lt : ∀ request ∈ opened, request.handle < next.nextHandle
  nodup : (opened.map (·.handle)).Nodup
  unanswered : ∀ request ∈ next.unanswered, request ∈ ledger.unanswered ++ opened
  settled : ∀ item ∈ next.settled, item ∈ ledger.settled ∨ item.2 = .failed .timeout ∨
    ∃ request ∈ ledger.unanswered ++ opened, request.handle = item.1 ∧
      ∃ message source, (message, source) ∈ heard ∧ Answers request message source item.2

variable {ledger next last : Ledger} {opened more : List OpenedRequest}
  {heard further : List (Message × Endpoint)} {message : Message} {source : Endpoint}

/-- A ledger that only loses requests and gains timeouts. -/
theorem Dealt.of_subset (hnext : next.nextHandle = ledger.nextHandle)
    (hunanswered : next.unanswered ⊆ ledger.unanswered)
    (hsettled : ∀ item ∈ next.settled, item ∈ ledger.settled ∨ item.2 = .failed .timeout) :
    Dealt [] [] ledger next where
  le := Nat.le_of_eq hnext.symm
  ge := List.forall_mem_nil _
  lt := List.forall_mem_nil _
  nodup := List.nodup_nil
  unanswered := by
    intro request hrequest
    rw [List.append_nil]
    exact hunanswered hrequest
  settled := fun item hitem => (hsettled item hitem).imp_right .inl

@[refl] theorem Dealt.refl (ledger : Ledger) : Dealt [] [] ledger ledger :=
  .of_subset rfl (List.Subset.refl _) fun _ => .inl

theorem Dealt.trans (h : Dealt opened heard ledger next) (hlast : Dealt more further next last) :
    Dealt (opened ++ more) (heard ++ further) ledger last where
  le := Nat.le_trans h.le hlast.le
  ge := by
    intro request hrequest
    rcases List.mem_append.mp hrequest with hrequest | hrequest
    · exact h.ge request hrequest
    · exact Nat.le_trans h.le (hlast.ge request hrequest)
  lt := by
    intro request hrequest
    rcases List.mem_append.mp hrequest with hrequest | hrequest
    · exact Nat.lt_of_lt_of_le (h.lt request hrequest) hlast.le
    · exact hlast.lt request hrequest
  nodup := by
    rw [List.map_append]
    refine List.nodup_append.mpr ⟨h.nodup, hlast.nodup, fun early hearly late hlate => ?_⟩
    obtain ⟨first, hfirst, rfl⟩ := List.mem_map.mp hearly
    obtain ⟨second, hsecond, rfl⟩ := List.mem_map.mp hlate
    exact Nat.ne_of_lt (Nat.lt_of_lt_of_le (h.lt first hfirst) (hlast.ge second hsecond))
  unanswered := by
    intro request hrequest
    rw [← List.append_assoc]
    refine (List.mem_append.mp (hlast.unanswered request hrequest)).elim (fun hrequest => ?_)
      (List.mem_append_right _)
    exact List.mem_append_left _ (h.unanswered request hrequest)
  settled := by
    intro item hitem
    rw [← List.append_assoc]
    rcases hlast.settled item hitem with hitem | htimeout | ⟨request, hrequest, hhandle, hanswer⟩
    · refine (h.settled item hitem).imp_right (Or.imp_right ?_)
      rintro ⟨request, hrequest, hhandle, message, source, hmem, hanswer⟩
      exact ⟨request, List.mem_append_left _ hrequest, hhandle, message, source,
        List.mem_append_left _ hmem, hanswer⟩
    · exact .inr (.inl htimeout)
    · obtain ⟨message, source, hmem, hanswer⟩ := hanswer
      refine .inr (.inr ⟨request, ?_, hhandle, message, source, List.mem_append_right _ hmem,
        hanswer⟩)
      refine (List.mem_append.mp hrequest).elim (fun hrequest => ?_) (List.mem_append_right _)
      exact List.mem_append_left _ (h.unanswered request hrequest)

/-- More may have been heard. -/
theorem Dealt.mono (h : Dealt opened heard ledger next) (hsub : heard ⊆ further) :
    Dealt opened further ledger next where
  le := h.le
  ge := h.ge
  lt := h.lt
  nodup := h.nodup
  unanswered := h.unanswered
  settled := by
    intro item hitem
    refine (h.settled item hitem).imp_right (Or.imp_right ?_)
    rintro ⟨request, hrequest, hhandle, message, source, hmem, hanswer⟩
    exact ⟨request, hrequest, hhandle, message, source, hsub hmem, hanswer⟩

/-! ### Operations -/

theorem dealt_noted (ledger : Ledger) (transaction : TransactionId) (datagram : Datagram)
    (now : Time) :
    Dealt [⟨ledger.nextHandle, transaction, datagram⟩] [] ledger
      (ledger.noted transaction datagram now) where
  le := Nat.le_succ _
  ge := by simp
  lt := by simp [noted]
  nodup := List.nodup_singleton _
  unanswered := by simp [unanswered_noted]
  settled := fun _ => .inl

theorem dealt_withdraw (ledger : Ledger) (transaction : TransactionId) :
    Dealt [] [] ledger (ledger.withdraw transaction) := by
  refine .of_subset rfl ?_ fun _ => .inl
  rw [unanswered_withdraw]
  exact List.filter_sublist.subset

theorem dealt_poll (ledger : Ledger) (handle : Handle) :
    Dealt [] [] ledger (ledger.poll handle).1 := by
  refine .of_subset (nextHandle_poll ..) ?_ fun item hitem => ?_
  · rw [unanswered_poll]
    exact List.Subset.refl _
  · exact .inl ((settled_poll_sublist ..).subset hitem)

theorem dealt_tick (ledger : Ledger) (now : Time) : Dealt [] [] ledger (ledger.tick now).1 := by
  refine .of_subset rfl (unanswered_tick_sublist ..).subset fun item hitem => ?_
  exact (List.mem_append.mp hitem).imp_right eq_timeout_of_mem_timeouts

theorem dealt_close (ledger : Ledger) : Dealt [] [] ledger ledger.close := by
  refine .of_subset rfl (List.nil_subset _) fun item hitem => ?_
  exact (List.mem_append.mp hitem).imp_right eq_timeout_of_mem_timeouts

theorem dealt_resolve (h : ledger.resolve? message source = some next) :
    Dealt [] [(message, source)] ledger next := by
  rw [resolve?_eq_map_claim?, Option.map_eq_some_iff] at h
  obtain ⟨⟨claimed, request, outcome⟩, hclaim, rfl⟩ := h
  obtain ⟨houtcome, htransaction, hanswers, entry, hentry, rfl, rfl⟩ := claim?_eq_some hclaim
  have hsub : ∀ other ∈ (ledger.withdraw entry.transaction).unanswered,
      other ∈ ledger.unanswered := by
    intro other hother
    rw [unanswered_withdraw] at hother
    exact List.mem_of_mem_filter hother
  refine ⟨Nat.le_refl _, List.forall_mem_nil _, List.forall_mem_nil _, List.nodup_nil,
    fun other hother => ?_, fun item hitem => ?_⟩
  · exact List.mem_append_left _ (hsub other hother)
  · rcases List.mem_append.mp hitem with hitem | hitem
    · exact .inl hitem
    · rw [List.mem_singleton.mp hitem]
      exact .inr (.inr ⟨entry.opened, List.mem_append_left _ (List.mem_map_of_mem hentry), rfl,
        message, source, List.mem_singleton_self _, htransaction.symm, hanswers, houtcome⟩)

/-- What is handed out was settled, or is a timeout. -/
theorem settled_of_poll {handle : Handle} {outcome : Outcome}
    (h : (ledger.poll handle).2 = some outcome) :
    (handle, outcome) ∈ ledger.settled ∨ outcome = .failed .timeout := by
  rw [snd_poll] at h
  cases hlookup : ledger.settled.lookup handle with
  | some filed =>
    rw [hlookup, Option.some_or, Option.some.injEq] at h
    exact .inl (h ▸ mem_settled_of_lookup hlookup)
  | none =>
    rw [hlookup, Option.none_or] at h
    split at h
    · exact absurd h (by simp)
    · exact .inr (Option.some.inj h).symm

end Ledger

end Kademlia
