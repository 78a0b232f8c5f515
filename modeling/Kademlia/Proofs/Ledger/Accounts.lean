import Kademlia.Proofs.Ledger.Orderly

/-!
# Kademlia.Proofs.Ledger.Accounts

What a ledger has for a request, accounted for by the answers to it that were taken in
(`Ledger.Account`). Nobody else has to be asked: until the outcome is handed out, the request is
unanswered, or it has expired, or the one answer to it is filed. No operation changes this but the
answer itself and handing out the outcome (`Account.hear`, `Account.snd_poll`).
-/

namespace Kademlia

namespace Ledger

variable {ledger next : Ledger} {handle other : Handle} {heard : List Outcome} {outcome : Outcome}
  {message : Message} {source : Endpoint}

/-- What a message from `source` means to the request with a handle, if it answers that request. -/
def answerTo? (ledger : Ledger) (handle : Handle) (message : Message) (source : Endpoint) :
    Option Outcome :=
  ((ledger.claim? message source).filter (·.2.1.handle = handle)).map (·.2.2)

theorem nextHandle_getD_resolve? (ledger : Ledger) (message : Message) (source : Endpoint) :
    ((ledger.resolve? message source).getD ledger).nextHandle = ledger.nextHandle := by
  cases hresolve : ledger.resolve? message source with
  | none => rfl
  | some resolved => exact nextHandle_resolve? hresolve

/-- What the ledger has for a request, if these answers to it were taken in. -/
inductive Account (ledger : Ledger) (handle : Handle) : List Outcome → Prop where
  | unanswered (h : ledger.isPending handle = true) : Account ledger handle []
  | expired (h : (handle, .failed .timeout) ∈ ledger.settled) : Account ledger handle []
  | answered {outcome : Outcome} (h : (handle, outcome) ∈ ledger.settled) :
      Account ledger handle [outcome]

theorem isPending_iff : ledger.isPending handle = true ↔
    ∃ entry ∈ ledger.pending, entry.handle = handle := by
  simp [isPending]

/-- A request that has its outcome is not waited for any more. -/
theorem Orderly.isPending_eq_false (h : ledger.Orderly)
    (hitem : (handle, outcome) ∈ ledger.settled) : ledger.isPending handle = false := by
  refine Bool.eq_false_iff.mpr fun hpending => ?_
  obtain ⟨entry, hentry, rfl⟩ := isPending_iff.mp hpending
  have hunanswered : entry.handle ∈ ledger.unanswered.map (·.handle) :=
    List.mem_map_of_mem (List.mem_map_of_mem hentry)
  exact (List.nodup_append.mp h.nodup).2.2 _ hunanswered _ (List.mem_map_of_mem hitem) rfl

theorem answerTo?_of_claim? {opened : OpenedRequest}
    (h : ledger.claim? message source = some (next, opened, outcome)) (handle : Handle) :
    ledger.answerTo? handle message source =
      if opened.handle = handle then some outcome else none := by
  rw [answerTo?, h, Option.filter_some]
  by_cases hhandle : opened.handle = handle <;> simp [hhandle]

/-- An answer belongs to a request that was given its handle before. -/
theorem Orderly.answerTo?_eq_none (h : ledger.Orderly) (hle : ledger.nextHandle ≤ handle)
    (message : Message) (source : Endpoint) : ledger.answerTo? handle message source = none := by
  cases hclaim : ledger.claim? message source with
  | none => rw [answerTo?, hclaim, Option.filter_none, Option.map_none]
  | some claimed =>
    obtain ⟨claimed, opened, outcome⟩ := claimed
    obtain ⟨-, -, -, entry, hentry, rfl, -⟩ := claim?_eq_some hclaim
    have hlt : entry.opened.handle < handle := Nat.lt_of_lt_of_le (h.handle_lt hentry) hle
    rw [answerTo?_of_claim? hclaim, if_neg (Nat.ne_of_lt hlt)]

namespace Account

/-- Where requests are not lost and outcomes only added, there is no difference. -/
theorem mono (h : ledger.Account handle heard)
    (hpending : ledger.isPending handle = true → next.isPending handle = true)
    (hsettled : ledger.settled ⊆ next.settled) : next.Account handle heard := by
  cases h with
  | unanswered h => exact .unanswered (hpending h)
  | expired h => exact .expired (hsettled h)
  | answered h => exact .answered (hsettled h)

theorem noted (h : ledger.Account handle heard) (transaction : TransactionId)
    (datagram : Datagram) (now : Time) :
    (ledger.noted transaction datagram now).Account handle heard := by
  refine h.mono (fun hpending => ?_) (List.Subset.refl _)
  obtain ⟨entry, hentry, rfl⟩ := isPending_iff.mp hpending
  exact isPending_iff.mpr ⟨entry, List.mem_append_left _ hentry, rfl⟩

/-- Requests are told apart by their tokens. -/
theorem withdraw (h : ledger.Account handle heard) {transaction : TransactionId}
    (htoken : ∀ entry ∈ ledger.pending, entry.handle = handle → entry.transaction ≠ transaction) :
    (ledger.withdraw transaction).Account handle heard := by
  refine h.mono (fun hpending => ?_) (List.Subset.refl _)
  obtain ⟨entry, hentry, rfl⟩ := isPending_iff.mp hpending
  have hkept := decide_eq_true (htoken entry hentry rfl)
  exact isPending_iff.mpr ⟨entry, List.mem_filter.mpr ⟨hentry, hkept⟩, rfl⟩

/-- A request that is noted and withdrawn at once leaves no trace. -/
theorem noted_withdraw (h : ledger.Account handle heard) {transaction : TransactionId}
    (hfresh : transaction ∉ ledger.transactions) (hlt : handle < ledger.nextHandle)
    (datagram : Datagram) (now : Time) :
    ((ledger.noted transaction datagram now).withdraw transaction).Account handle heard := by
  refine (h.noted transaction datagram now).withdraw fun entry hentry hhandle htoken => ?_
  rcases List.mem_append.mp hentry with hentry | hentry
  · exact hfresh (htoken ▸ List.mem_map_of_mem hentry)
  · rw [List.mem_singleton.mp hentry] at hhandle
    exact Nat.lt_irrefl _ (hhandle ▸ hlt)

theorem tick (h : ledger.Account handle heard) (now : Time) :
    (ledger.tick now).1.Account handle heard := by
  have hsettled : ledger.settled ⊆ (ledger.tick now).1.settled := List.subset_append_left _ _
  cases h with
  | unanswered h =>
    obtain ⟨entry, hentry, rfl⟩ := isPending_iff.mp h
    cases hexpired : ledger.isExpired now entry with
    | true =>
      refine .expired (List.mem_append_right _ ?_)
      exact List.mem_map_of_mem (List.mem_filter.mpr ⟨hentry, hexpired⟩)
    | false =>
      have hkept : entry ∈ ledger.pending.filter (!ledger.isExpired now ·) :=
        List.mem_filter.mpr ⟨hentry, by rw [hexpired]; rfl⟩
      refine .unanswered (isPending_iff.mpr ⟨_, List.mem_map_of_mem hkept, ?_⟩)
      exact congrArg OpenedRequest.handle (ledger.opened_afterTick now entry)
  | expired h => exact .expired (hsettled h)
  | answered h => exact .answered (hsettled h)

/-- A message is added to the account of the request that it answers. -/
theorem hear (h : ledger.Account handle heard) (horderly : ledger.Orderly) (message : Message)
    (source : Endpoint) :
    ((ledger.resolve? message source).getD ledger).Account handle
      (heard ++ (ledger.answerTo? handle message source).toList) := by
  rw [resolve?_eq_map_claim?]
  cases hclaim : ledger.claim? message source with
  | none =>
    have hnone : ledger.answerTo? handle message source = none := by
      rw [answerTo?, hclaim, Option.filter_none, Option.map_none]
    rw [hnone, Option.toList_none, List.append_nil]
    exact h
  | some claimed =>
    obtain ⟨claimed, opened, outcome⟩ := claimed
    obtain ⟨-, -, -, entry, hentry, rfl, rfl⟩ := claim?_eq_some hclaim
    rw [answerTo?_of_claim? hclaim]
    by_cases hhandle : entry.opened.handle = handle
    · rw [if_pos hhandle]
      have hpending : ledger.isPending handle = true := isPending_iff.mpr ⟨entry, hentry, hhandle⟩
      cases h with
      | unanswered h =>
        exact .answered (List.mem_append_right _ (List.mem_singleton.mpr (by rw [← hhandle])))
      | expired h => exact absurd (horderly.isPending_eq_false h) (by rw [hpending]; decide)
      | answered h => exact absurd (horderly.isPending_eq_false h) (by rw [hpending]; decide)
    · rw [if_neg hhandle, Option.toList_none, List.append_nil]
      have htoken : ∀ other ∈ ledger.pending, other.handle = handle →
          other.transaction ≠ entry.transaction := by
        intro other hother hsame heq
        obtain rfl := List.inj_on_of_nodup_map horderly.tokens hother hentry heq
        exact hhandle hsame
      exact (h.withdraw htoken).mono (fun hpending => hpending) (List.subset_append_left _ _)

/-- Handing out the outcome of another request makes no difference. -/
theorem poll_of_ne (h : ledger.Account handle heard) (hne : handle ≠ other) :
    (ledger.poll other).1.Account handle heard := by
  have hsettled : ∀ outcome, (handle, outcome) ∈ ledger.settled →
      (handle, outcome) ∈ (ledger.poll other).1.settled := by
    intro outcome hitem
    unfold poll
    split
    · exact List.mem_filter.mpr ⟨hitem, decide_eq_true hne⟩
    · split <;> exact hitem
  cases h with
  | unanswered h => exact .unanswered (by rwa [isPending, pending_poll])
  | expired h => exact .expired (hsettled _ h)
  | answered h => exact .answered (hsettled _ h)

/-- **What is handed out** is the answer, if there is one, and otherwise that the time is up. -/
theorem snd_poll (h : ledger.Account handle heard) (horderly : ledger.Orderly) :
    match (ledger.poll handle).2 with
    | none => ledger.isPending handle = true ∧ heard = []
    | some outcome => heard = [outcome] ∨ heard = [] ∧ outcome = .failed .timeout := by
  cases h with
  | unanswered h =>
    have hlookup : ledger.settled.lookup handle = none := by
      refine Option.eq_none_iff_forall_ne_some.mpr fun outcome hlookup => ?_
      have hfree := horderly.isPending_eq_false (mem_settled_of_lookup hlookup)
      exact absurd (h.symm.trans hfree) (by decide)
    rw [Ledger.snd_poll, hlookup, Option.none_or, if_pos h]
    exact ⟨h, rfl⟩
  | expired h =>
    rw [Ledger.snd_poll, horderly.lookup_settled h]
    exact .inr ⟨rfl, rfl⟩
  | answered h =>
    rw [Ledger.snd_poll, horderly.lookup_settled h]
    exact .inl rfl

end Account

end Ledger

end Kademlia
