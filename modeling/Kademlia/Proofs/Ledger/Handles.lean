import Kademlia.Node.Basic
import Mathlib.Data.List.Nodup

/-!
# Kademlia.Proofs.Ledger.Handles

What the operations of a ledger do to the handles that were given out. A handle is either with a
request that has not been answered or with an outcome (`Ledger.handles`); ticks, answers and closing
move handles from the one to the other, so none is lost and none is doubled. New handles come from
registering, which never meets a token that is in use (`Node.startRequest_eq_ok`).
-/

namespace Kademlia

/-! ### Draws -/

/-- A drawn transaction id is none that is in use. -/
theorem Draws.not_mem_of_freshWithin {tries : Nat} {used : List TransactionId}
    {draws rest : Draws} {transaction : TransactionId}
    (h : draws.freshWithin tries used = some (transaction, rest)) : transaction ∉ used := by
  induction tries generalizing draws with
  | zero => exact absurd h (by simp [freshWithin])
  | succ tries ih =>
    rw [freshWithin] at h
    dsimp only at h
    split at h
    · exact ih h
    · rename_i hfresh
      obtain ⟨rfl, -⟩ := Prod.mk.inj (Option.some.inj h)
      exact hfresh

/-- The request that an entry of the ledger stands for. -/
def Pending.opened (entry : Pending) : OpenedRequest :=
  ⟨entry.handle, entry.transaction, entry.datagram⟩

/-- An item that is alone with its key is taken out by its key. -/
theorem perm_cons_filter {α β : Type} [DecidableEq β] {key : α → β} {items : List α} {item : α}
    (hnodup : (items.map key).Nodup) (hitem : item ∈ items) :
    items.Perm (item :: items.filter (key · ≠ key item)) := by
  induction items with
  | nil => exact absurd hitem List.not_mem_nil
  | cons head rest ih =>
    obtain ⟨hhead, hrest⟩ := List.nodup_cons.mp hnodup
    rcases List.mem_cons.mp hitem with rfl | hitem
    · have hfilter : rest.filter (key · ≠ key item) = rest := by
        refine List.filter_eq_self.mpr fun other hother => decide_eq_true fun heq => ?_
        exact hhead (heq ▸ List.mem_map_of_mem hother)
      rw [List.filter_cons_of_neg (by simp), hfilter]
    · have hne : key head ≠ key item := fun heq => hhead (heq ▸ List.mem_map_of_mem hitem)
      rw [List.filter_cons_of_pos (by simpa using hne)]
      exact ((ih hrest hitem).cons head).trans (List.Perm.swap ..)

namespace Ledger

variable {ledger : Ledger} {handle other : Handle} {outcome : Outcome} {now : Time}

/-- The requests that were not answered. -/
def unanswered (ledger : Ledger) : List OpenedRequest := ledger.pending.map Pending.opened

/-- The handles of unanswered requests and of outcomes that were not handed out. -/
def handles (ledger : Ledger) : List Handle :=
  ledger.unanswered.map (·.handle) ++ ledger.settled.map Prod.fst

theorem transactions_eq (ledger : Ledger) :
    ledger.transactions = ledger.unanswered.map (·.transaction) := by
  rw [transactions, unanswered, List.map_map]
  rfl

/-- The ledger after a new request was noted. -/
def noted (ledger : Ledger) (transaction : TransactionId) (datagram : Datagram) (now : Time) :
    Ledger :=
  { ledger with
    pending := ledger.pending ++
      [⟨transaction, ledger.nextHandle, datagram, now, ledger.maxTries - 1⟩]
    nextHandle := ledger.nextHandle + 1 }

theorem unanswered_noted (ledger : Ledger) (transaction : TransactionId) (datagram : Datagram)
    (now : Time) :
    (ledger.noted transaction datagram now).unanswered =
      ledger.unanswered ++ [⟨ledger.nextHandle, transaction, datagram⟩] := by
  rw [unanswered, noted, List.map_append, unanswered]
  rfl

theorem register_eq_some (hopen : ledger.closed = false) {transaction : TransactionId}
    (hfresh : transaction ∉ ledger.transactions) (datagram : Datagram) (now : Time) :
    ledger.register transaction datagram now =
      some (ledger.noted transaction datagram now, ledger.nextHandle) := by
  rw [register, if_neg]
  · rfl
  · rw [hopen]
    intro h
    exact h.elim (absurd · (by decide)) hfresh

/-- Dropping a token drops the one request that has it. -/
theorem unanswered_perm_cons (hnodup : ledger.transactions.Nodup) {entry : Pending}
    (hentry : entry ∈ ledger.pending) :
    ledger.unanswered.Perm
      (entry.opened :: (ledger.dropTransaction entry.transaction).map Pending.opened) :=
  (perm_cons_filter hnodup hentry).map Pending.opened

theorem unanswered_withdraw (ledger : Ledger) (transaction : TransactionId) :
    (ledger.withdraw transaction).unanswered =
      ledger.unanswered.filter (·.transaction ≠ transaction) := by
  rw [unanswered, unanswered, List.filter_map]
  rfl

/-! ### Ticks and closing -/

theorem opened_afterTick (ledger : Ledger) (now : Time) (entry : Pending) :
    (ledger.afterTick now entry).opened = entry.opened := by
  unfold afterTick
  split <;> rfl

theorem unanswered_tick (ledger : Ledger) (now : Time) :
    (ledger.tick now).1.unanswered =
      (ledger.pending.filter (!ledger.isExpired now ·)).map Pending.opened := by
  rw [unanswered, tick, List.map_map]
  exact List.map_congr_left fun entry _ => ledger.opened_afterTick now entry

theorem unanswered_tick_sublist (ledger : Ledger) (now : Time) :
    (ledger.tick now).1.unanswered.Sublist ledger.unanswered := by
  rw [unanswered_tick]
  exact List.filter_sublist.map _

theorem map_fst_timeouts (entries : List Pending) :
    (timeouts entries).map Prod.fst = (entries.map Pending.opened).map (·.handle) := by
  rw [timeouts, List.map_map, List.map_map]
  rfl

theorem eq_timeout_of_mem_timeouts {entries : List Pending} {item : Handle × Outcome}
    (h : item ∈ timeouts entries) : item.2 = .failed .timeout := by
  obtain ⟨entry, -, rfl⟩ := List.mem_map.mp h
  rfl

/-- A tick moves the handles of requests that are given up. -/
theorem handles_tick_perm (ledger : Ledger) (now : Time) :
    (ledger.tick now).1.handles.Perm ledger.handles := by
  have hparts : (ledger.pending.filter (!ledger.isExpired now ·) ++
      ledger.pending.filter (ledger.isExpired now ·)).Perm ledger.pending :=
    List.perm_append_comm.trans (List.filter_append_perm ..)
  have hsettled : (ledger.tick now).1.settled =
      ledger.settled ++ timeouts (ledger.pending.filter (ledger.isExpired now ·)) := rfl
  rw [handles, unanswered_tick, hsettled, List.map_append, map_fst_timeouts]
  refine (List.perm_append_comm.append_left _).trans ?_
  rw [← List.append_assoc, ← List.map_append, ← List.map_append]
  exact ((hparts.map Pending.opened).map _).append_right _

/-- Closing moves the handles of all requests. -/
theorem handles_close_perm (ledger : Ledger) : ledger.close.handles.Perm ledger.handles := by
  have hsettled : ledger.close.settled = ledger.settled ++ timeouts ledger.pending := rfl
  have hunanswered : ledger.close.unanswered = [] := rfl
  rw [handles, hsettled, hunanswered, List.map_append, map_fst_timeouts, List.map_nil,
    List.nil_append, handles]
  exact List.perm_append_comm

/-! ### Outcomes -/

theorem nextHandle_resolve? {resolved : Ledger} {message : Message} {source : Endpoint}
    (h : ledger.resolve? message source = some resolved) :
    resolved.nextHandle = ledger.nextHandle := by
  simp only [resolve?, Option.bind_eq_bind, Option.bind_eq_some_iff] at h
  obtain ⟨outcome, -, entry, -, heq⟩ := h
  rw [← Option.some.inj heq]

@[simp] theorem nextHandle_poll (ledger : Ledger) (handle : Handle) :
    (ledger.poll handle).1.nextHandle = ledger.nextHandle := by
  unfold poll
  split
  · rfl
  · split <;> rfl

@[simp] theorem pending_poll (ledger : Ledger) (handle : Handle) :
    (ledger.poll handle).1.pending = ledger.pending := by
  unfold poll
  split
  · rfl
  · split <;> rfl

@[simp] theorem unanswered_poll (ledger : Ledger) (handle : Handle) :
    (ledger.poll handle).1.unanswered = ledger.unanswered := by
  rw [unanswered, pending_poll, unanswered]

@[simp] theorem closed_poll (ledger : Ledger) (handle : Handle) :
    (ledger.poll handle).1.closed = ledger.closed := by
  unfold poll
  split
  · rfl
  · split <;> rfl

theorem snd_poll (ledger : Ledger) (handle : Handle) :
    (ledger.poll handle).2 = (ledger.settled.lookup handle).or
      (if ledger.isPending handle then none else some (.failed .timeout)) := by
  unfold poll
  split
  · rename_i hsettled
    rw [hsettled, Option.some_or]
  · rename_i hsettled
    rw [hsettled, Option.none_or]
    split <;> rfl

/-- Handing out an outcome leaves those of other handles. -/
theorem lookup_settled_poll (ledger : Ledger) (h : other ≠ handle) :
    (ledger.poll handle).1.settled.lookup other = ledger.settled.lookup other := by
  unfold poll
  split
  · dsimp only
    induction ledger.settled with
    | nil => rfl
    | cons entry settled ih =>
      obtain ⟨filed, outcome⟩ := entry
      by_cases hfiled : filed = handle
      · have hne : (other == filed) = false := beq_eq_false_iff_ne.mpr (hfiled ▸ h)
        rw [List.filter_cons_of_neg (by simpa using hfiled), List.lookup_cons, hne]
        exact ih
      · rw [List.filter_cons_of_pos (by simpa using hfiled), List.lookup_cons, List.lookup_cons]
        split
        · rfl
        · exact ih
  · split <;> rfl

/-- What is handed out under one handle does not depend on what was handed out under another. -/
theorem poll_poll_of_ne (ledger : Ledger) (h : other ≠ handle) :
    ((ledger.poll handle).1.poll other).2 = (ledger.poll other).2 := by
  have hpending : (ledger.poll handle).1.isPending other = ledger.isPending other := by
    rw [isPending, pending_poll, isPending]
  rw [snd_poll, snd_poll, ledger.lookup_settled_poll h, hpending]

theorem mem_settled_of_lookup (h : ledger.settled.lookup handle = some outcome) :
    (handle, outcome) ∈ ledger.settled := by
  obtain ⟨before, after, heq, -⟩ := List.lookup_eq_some_iff.mp h
  rw [heq]
  exact List.mem_append_right _ List.mem_cons_self

theorem settled_poll_sublist (ledger : Ledger) (handle : Handle) :
    (ledger.poll handle).1.settled.Sublist ledger.settled := by
  unfold poll
  split
  · exact List.filter_sublist
  · split <;> exact List.Sublist.refl _

/-- Handing out an outcome takes it and no other. -/
theorem settled_perm_poll (hnodup : ledger.handles.Nodup)
    (hsettled : ledger.settled.lookup handle = some outcome) :
    ledger.settled.Perm ((handle, outcome) :: (ledger.poll handle).1.settled) := by
  have hpoll : (ledger.poll handle).1.settled = ledger.settled.filter (·.1 ≠ handle) := by
    rw [poll, hsettled]
  rw [hpoll]
  exact perm_cons_filter hnodup.of_append_right (mem_settled_of_lookup hsettled)

/-- Handing out an outcome takes away its handle. -/
theorem handles_perm_poll (hnodup : ledger.handles.Nodup)
    (hsettled : ledger.settled.lookup handle = some outcome) :
    ledger.handles.Perm (handle :: (ledger.poll handle).1.handles) := by
  have hsettle := (settled_perm_poll hnodup hsettled).map Prod.fst
  rw [handles, handles, unanswered_poll]
  exact (hsettle.append_left _).trans List.perm_middle

end Ledger

/-! ### Requests of a node -/

namespace Node

variable {node next : Node} {opened : OpenedRequest} {destination : Endpoint} {asked : Request}
  {now : Time}

theorem startRequest_of_closed (h : node.ledger.closed = true) (destination : Endpoint)
    (asked : Request) (now : Time) :
    node.startRequest destination asked now = .error .timeout := by
  rw [startRequest, if_pos h]

/-- A request that is started has a token that is not in use and the next handle. -/
theorem startRequest_eq_ok (h : node.startRequest destination asked now = .ok (next, opened)) :
    node.ledger.closed = false ∧ opened.transaction ∉ node.ledger.transactions ∧
      opened.handle = node.ledger.nextHandle ∧
      opened.datagram = ⟨destination, node.packet opened.transaction (.request asked)⟩ ∧
      ∃ draws, next = { node with
        ledger := node.ledger.noted opened.transaction opened.datagram now, draws } := by
  rw [startRequest] at h
  split at h
  · exact absurd h (by simp)
  rename_i hopen
  have hopen : node.ledger.closed = false := by simpa using hopen
  cases hdraw : node.draws.fresh node.ledger.transactions with
  | none =>
    rw [hdraw] at h
    exact absurd h (by simp)
  | some drawn =>
    obtain ⟨transaction, draws⟩ := drawn
    have hfresh := Draws.not_mem_of_freshWithin hdraw
    rw [hdraw] at h
    simp only [Ledger.register_eq_some hopen hfresh, Except.ok.injEq, Prod.mk.injEq] at h
    obtain ⟨rfl, rfl⟩ := h
    exact ⟨hopen, hfresh, rfl, rfl, draws, rfl⟩

theorem unanswered_startRequest
    (h : node.startRequest destination asked now = .ok (next, opened)) :
    next.ledger.unanswered = node.ledger.unanswered ++ [opened] := by
  obtain ⟨-, -, hhandle, -, draws, rfl⟩ := startRequest_eq_ok h
  rw [Ledger.unanswered_noted, ← hhandle]

theorem settled_startRequest
    (h : node.startRequest destination asked now = .ok (next, opened)) :
    next.ledger.settled = node.ledger.settled := by
  obtain ⟨-, -, -, -, draws, rfl⟩ := startRequest_eq_ok h
  rfl

end Node

end Kademlia
