import Kademlia.Proofs.Ledger.Interleaving
import Mathlib.Logic.Relation

/-!
# Kademlia.Proofs.Ledger.Orderly

What holds of a ledger whatever is done to it, one operation after the other. `Ledger.Step` lists
what an operation can make of a ledger, and `Ledger.Orderly` is the invariant of them all: no two
unanswered requests share a token, and no handle is at two places. What every step keeps holds of
all that becomes of a ledger (`Ledger.Becomes`).
-/

namespace Kademlia

namespace Ledger

variable {ledger next : Ledger} {entry : Pending} {handle : Handle} {outcome : Outcome}
  {message : Message} {source : Endpoint}

/-- What an operation makes of a ledger. -/
inductive Step (ledger : Ledger) : Ledger → Prop where
  | noted {transaction : TransactionId} (hfresh : transaction ∉ ledger.transactions)
    (datagram : Datagram) (now : Time) : Step ledger (ledger.noted transaction datagram now)
  | withdrawn (transaction : TransactionId) : Step ledger (ledger.withdraw transaction)
  | resolved {next : Ledger} {message : Message} {source : Endpoint}
    (h : ledger.resolve? message source = some next) : Step ledger next
  | ticked (now : Time) : Step ledger (ledger.tick now).1
  | closed : Step ledger ledger.close
  | polled (handle : Handle) : Step ledger (ledger.poll handle).1

/-- One ledger comes from another by operations on it. -/
def Becomes : Ledger → Ledger → Prop := Relation.ReflTransGen Step

/-- Taking in an answer takes the request off the ledger and files its outcome. -/
theorem resolve?_eq_some (h : ledger.resolve? message source = some next) :
    ∃ entry ∈ ledger.pending, ∃ outcome, entry.transaction = message.transaction ∧
      entry.datagram.destination.answers source = true ∧
      outcomeOf? message source = some outcome ∧
      next = { ledger with
        pending := ledger.dropTransaction entry.transaction
        settled := ledger.settled ++ [(entry.handle, outcome)] } := by
  rw [resolve?_eq_map_claim?, Option.map_eq_some_iff] at h
  obtain ⟨⟨claimed, request, outcome⟩, hclaim, rfl⟩ := h
  obtain ⟨houtcome, htoken, hanswers, entry, hentry, rfl, rfl⟩ := claim?_eq_some hclaim
  exact ⟨entry, hentry, outcome, htoken, hanswers, houtcome, rfl⟩

/-! ### The invariant -/

/-- Tokens and handles are each in one place. -/
structure Orderly (ledger : Ledger) : Prop where
  tokens : ledger.transactions.Nodup
  nodup : ledger.handles.Nodup
  lt : ∀ handle ∈ ledger.handles, handle < ledger.nextHandle

/-- An unanswered request was given its handle before. -/
theorem Orderly.handle_lt (h : ledger.Orderly) (hentry : entry ∈ ledger.pending) :
    entry.handle < ledger.nextHandle :=
  h.lt _ (List.mem_append_left _ (List.mem_map_of_mem (List.mem_map_of_mem hentry)))

theorem orderly_new (timeout : Duration) (maxTries : Nat) : (new timeout maxTries).Orderly :=
  ⟨List.nodup_nil, List.nodup_nil, List.forall_mem_nil _⟩

/-- A ledger in which handles were only moved or lost is orderly. -/
theorem Orderly.of_subperm (h : ledger.Orderly) (hnext : next.nextHandle = ledger.nextHandle)
    (hunanswered : next.unanswered.Sublist ledger.unanswered)
    (hhandles : next.handles.Subperm ledger.handles) : next.Orderly where
  tokens := by
    have htokens := h.tokens
    rw [transactions_eq] at htokens ⊢
    exact htokens.sublist (hunanswered.map _)
  nodup := by
    obtain ⟨others, hperm, hsub⟩ := hhandles
    exact hperm.nodup_iff.mp (h.nodup.sublist hsub)
  lt := by
    intro handle hhandle
    rw [hnext]
    exact h.lt handle (hhandles.subset hhandle)

theorem Orderly.noted (h : ledger.Orderly) {transaction : TransactionId}
    (hfresh : transaction ∉ ledger.transactions) (datagram : Datagram) (now : Time) :
    (ledger.noted transaction datagram now).Orderly := by
  have hhandles : (ledger.noted transaction datagram now).handles.Perm
      (ledger.nextHandle :: ledger.handles) := by
    rw [handles, unanswered_noted, List.map_append, List.append_assoc]
    exact List.perm_middle
  refine ⟨?_, hhandles.nodup_iff.mpr (List.nodup_cons.mpr ⟨fun hmem => ?_, h.nodup⟩), ?_⟩
  · have htokens := h.tokens
    rw [transactions_eq] at htokens hfresh ⊢
    rw [unanswered_noted, List.map_append]
    refine List.nodup_append.mpr ⟨htokens, List.nodup_singleton _, ?_⟩
    intro token hused other hother heq
    have heq : token = transaction := heq.trans (List.mem_singleton.mp hother)
    exact hfresh (heq ▸ hused)
  · exact Nat.lt_irrefl _ (h.lt _ hmem)
  · intro handle hhandle
    rcases List.mem_cons.mp (hhandles.subset hhandle) with rfl | hhandle
    · exact Nat.lt_succ_self _
    · exact Nat.lt_succ_of_lt (h.lt handle hhandle)

theorem Orderly.withdraw (h : ledger.Orderly) (transaction : TransactionId) :
    (ledger.withdraw transaction).Orderly := by
  have hunanswered : (ledger.withdraw transaction).unanswered.Sublist ledger.unanswered := by
    rw [unanswered_withdraw]
    exact List.filter_sublist
  exact h.of_subperm rfl hunanswered ((hunanswered.map _).append_right _).subperm

theorem Orderly.resolve (h : ledger.Orderly)
    (hresolve : ledger.resolve? message source = some next) : next.Orderly := by
  obtain ⟨entry, hentry, outcome, -, -, -, rfl⟩ := resolve?_eq_some hresolve
  have htaken := (unanswered_perm_cons h.tokens hentry).map (·.handle)
  refine h.of_subperm rfl (List.filter_sublist.map _) (List.Perm.subperm ?_)
  -- The handle moves from the entry to the outcome.
  rw [handles, handles, List.map_append, ← List.append_assoc]
  refine (List.perm_append_singleton _ _).trans ?_
  exact htaken.symm.append_right (ledger.settled.map Prod.fst)

theorem Orderly.tick (h : ledger.Orderly) (now : Time) : (ledger.tick now).1.Orderly :=
  h.of_subperm rfl (ledger.unanswered_tick_sublist now) (ledger.handles_tick_perm now).subperm

theorem Orderly.close (h : ledger.Orderly) : ledger.close.Orderly :=
  h.of_subperm rfl (List.nil_sublist _) ledger.handles_close_perm.subperm

theorem Orderly.poll (h : ledger.Orderly) (handle : Handle) : (ledger.poll handle).1.Orderly := by
  have hunanswered := ledger.unanswered_poll handle
  refine h.of_subperm (nextHandle_poll ..) (hunanswered ▸ List.Sublist.refl _) ?_
  rw [handles, hunanswered]
  exact (((ledger.settled_poll_sublist handle).map _).append_left _).subperm

theorem Orderly.step (h : ledger.Orderly) (hstep : ledger.Step next) : next.Orderly := by
  cases hstep with
  | noted hfresh datagram now => exact h.noted hfresh datagram now
  | withdrawn transaction => exact h.withdraw transaction
  | resolved hresolve => exact h.resolve hresolve
  | ticked now => exact h.tick now
  | closed => exact h.close
  | polled handle => exact h.poll handle

theorem Orderly.becomes (h : ledger.Orderly) (hbecomes : ledger.Becomes next) : next.Orderly := by
  induction hbecomes with
  | refl => exact h
  | tail _ hstep ih => exact ih.step hstep

/-! ### What stays -/

/-- How long is waited and how often is tried does not change. -/
theorem Step.settings (h : ledger.Step next) :
    next.timeout = ledger.timeout ∧ next.maxTries = ledger.maxTries := by
  cases h with
  | resolved hresolve =>
    obtain ⟨entry, -, outcome, -, -, -, rfl⟩ := resolve?_eq_some hresolve
    exact ⟨rfl, rfl⟩
  | polled handle =>
    unfold poll
    split
    · exact ⟨rfl, rfl⟩
    · split <;> exact ⟨rfl, rfl⟩
  | _ => exact ⟨rfl, rfl⟩

theorem Becomes.settings (h : ledger.Becomes next) :
    next.timeout = ledger.timeout ∧ next.maxTries = ledger.maxTries := by
  induction h with
  | refl => exact ⟨rfl, rfl⟩
  | tail _ hstep ih => exact ⟨hstep.settings.1.trans ih.1, hstep.settings.2.trans ih.2⟩

/-- Handles are given out one after the other. -/
theorem Step.nextHandle_le (h : ledger.Step next) : ledger.nextHandle ≤ next.nextHandle := by
  cases h with
  | noted => exact Nat.le_succ _
  | resolved hresolve => exact Nat.le_of_eq (nextHandle_resolve? hresolve).symm
  | polled handle => exact Nat.le_of_eq (nextHandle_poll ..).symm
  | _ => exact Nat.le_refl _

theorem Becomes.nextHandle_le (h : ledger.Becomes next) :
    ledger.nextHandle ≤ next.nextHandle := by
  induction h with
  | refl => exact Nat.le_refl _
  | tail _ hstep ih => exact Nat.le_trans ih hstep.nextHandle_le

/-- An outcome that is filed is the one found under its handle. -/
theorem Orderly.lookup_settled (h : ledger.Orderly) (hitem : (handle, outcome) ∈ ledger.settled) :
    ledger.settled.lookup handle = some outcome := by
  cases hlookup : ledger.settled.lookup handle with
  | none =>
    have hnone := List.lookup_eq_none_iff.mp hlookup (handle, outcome) hitem
    exact absurd rfl (bne_iff_ne.mp hnone)
  | some other =>
    have hsame : (handle, other) = (handle, outcome) :=
      List.inj_on_of_nodup_map h.nodup.of_append_right (mem_settled_of_lookup hlookup) hitem rfl
    exact congrArg (fun item => some item.2) hsame

end Ledger

end Kademlia
