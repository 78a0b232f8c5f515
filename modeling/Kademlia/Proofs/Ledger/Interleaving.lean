import Kademlia.Node.Receive
import Kademlia.Proofs.Ledger.Handles
import Mathlib.Data.List.Perm.Basic

/-!
# Kademlia.Proofs.Ledger.Interleaving

Threads that share a ledger, and why every request concludes exactly once all the same. A thread
that sends a request notes it in the ledger, hands the datagram to the socket, and gives out the
handle or withdraws the request; a thread that takes in an answer takes the request off the ledger
and files the outcome afterwards; others tick, shut the ledger down or take outcomes. Any of these
steps may come between the steps of another thread (`Exchange.Event`).

The only thing that is asked of the random tokens is that none repeats that of a request which is
being handed to the socket at the moment: such a request may have concluded already, and if its
token were given out anew, its withdrawal would hit the wrong entry.

What a step can do is said once, by `Exchange.Acts`. The invariant `Exchange.Tidy` says where each
handle is. Ticks, answers, shutdown and the taking of outcomes only move handles on
(`Exchange.Moved`), so only the three steps of sending need a look at the rest of it.
-/

namespace Kademlia

namespace Ledger

variable {ledger next : Ledger} {message : Message} {source : Endpoint} {opened : OpenedRequest}
  {outcome : Outcome}

/-- Takes the request that a message answers off the ledger, and tells its outcome. -/
def claim? (ledger : Ledger) (message : Message) (source : Endpoint) :
    Option (Ledger × OpenedRequest × Outcome) := do
  let outcome ← outcomeOf? message source
  let entry ← ledger.awaiting? message.transaction source
  return ({ ledger with pending := ledger.dropTransaction message.transaction },
    entry.opened, outcome)

/-- Files an outcome. -/
def file (ledger : Ledger) (handle : Handle) (outcome : Outcome) : Ledger :=
  { ledger with settled := ledger.settled ++ [(handle, outcome)] }

/-- Taking in an answer is both. -/
theorem resolve?_eq_map_claim? (ledger : Ledger) (message : Message) (source : Endpoint) :
    ledger.resolve? message source =
      (ledger.claim? message source).map fun (ledger, opened, outcome) =>
        ledger.file opened.handle outcome := by
  rw [resolve?, claim?]
  cases outcomeOf? message source with
  | none => rfl
  | some outcome =>
    cases ledger.awaiting? message.transaction source <;> rfl

theorem claim?_eq_some (h : ledger.claim? message source = some (next, opened, outcome)) :
    outcomeOf? message source = some outcome ∧ opened.transaction = message.transaction ∧
      opened.datagram.destination.answers source = true ∧
      ∃ entry ∈ ledger.pending, entry.opened = opened ∧
        next = { ledger with pending := ledger.dropTransaction entry.transaction } := by
  simp only [claim?, Option.bind_eq_bind, Option.bind_eq_some_iff] at h
  obtain ⟨outcome', houtcome, entry, hawaiting, heq⟩ := h
  obtain ⟨rfl, rfl, rfl⟩ := by simpa using heq
  obtain ⟨hfind, hanswers⟩ := Option.filter_eq_some_iff.mp hawaiting
  have htransaction : entry.transaction = message.transaction := by
    simpa using List.find?_some hfind
  exact ⟨houtcome, htransaction, hanswers, entry, List.mem_of_find?_eq_some hfind, rfl,
    by rw [htransaction]⟩

/-- The answer to an unanswered request is taken in. -/
theorem claim?_of_mem (hnodup : ledger.transactions.Nodup) {entry : Pending}
    (hentry : entry ∈ ledger.pending) (htransaction : entry.transaction = message.transaction)
    (hanswers : entry.datagram.destination.answers source = true)
    (houtcome : outcomeOf? message source = some outcome) :
    ledger.claim? message source =
      some ({ ledger with pending := ledger.dropTransaction message.transaction }, entry.opened,
        outcome) := by
  have hfind : ledger.find? message.transaction = some entry := by
    cases hfound : ledger.find? message.transaction with
    | none =>
      have hnone := List.find?_eq_none.mp hfound entry hentry
      exact absurd (decide_eq_true htransaction) hnone
    | some other =>
      have hother : other.transaction = message.transaction := by
        simpa using List.find?_some hfound
      have hmem := List.mem_of_find?_eq_some hfound
      exact congrArg some
        (List.inj_on_of_nodup_map hnodup hmem hentry (hother.trans htransaction.symm))
  rw [claim?, houtcome, awaiting?, hfind, Option.filter_some, if_pos hanswers]
  rfl

/-- A message that answers no unanswered request is not taken in. -/
theorem claim?_eq_none (h : ∀ opened ∈ ledger.unanswered,
    opened.transaction = message.transaction →
      opened.datagram.destination.answers source = false) :
    ledger.claim? message source = none := by
  cases hclaim : ledger.claim? message source with
  | none => rfl
  | some claimed =>
    obtain ⟨next, opened, outcome⟩ := claimed
    obtain ⟨-, htransaction, hanswers, entry, hentry, rfl, -⟩ := claim?_eq_some hclaim
    have hfalse := h entry.opened (List.mem_map_of_mem hentry) htransaction
    rw [hfalse] at hanswers
    exact absurd hanswers (by decide)

end Ledger

/-! ### Threads -/

/-- Threads that work with one ledger. -/
structure Exchange where
  node : Node
  /-- The requests that are being handed to the socket. -/
  sending : List OpenedRequest
  /-- The requests whose handles were given out. -/
  returned : List OpenedRequest
  /-- The requests that could not be sent. -/
  refused : List OpenedRequest
  /-- The requests whose answers were found, with the outcomes that are still to be filed. -/
  delivering : List (OpenedRequest × Outcome)
  /-- The outcomes that were taken. -/
  taken : List (Handle × Outcome)
  heard : List (Message × Endpoint)

namespace Exchange

/-- A step of one of the threads. -/
inductive Event where
  /-- A request is noted in the ledger. -/
  | note (destination : Endpoint) (asked : Request) (now : Time)
  /-- The socket has taken a datagram, and the handle is given out. -/
  | sent (index : Nat)
  /-- The socket has not taken a datagram, and the request is withdrawn. -/
  | refuse (index : Nat)
  /-- A message is looked up in the ledger. -/
  | hear (message : Message) (source : Endpoint)
  | file (index : Nat)
  /-- The ledger looks at the time. -/
  | tick (now : Time)
  | shutdown
  | take (handle : Handle)

/-- A new ledger, before any thread works with it. -/
def start (config : Config) (address : Endpoint) (draws : Draws) (now : Time) : Exchange :=
  ⟨.new config address draws now, [], [], [], [], [], []⟩

/-- The exchange with another ledger. -/
def withLedger (state : Exchange) (ledger : Ledger) : Exchange :=
  { state with node := { state.node with ledger } }

/-- The exchange with a request that is being handed to the socket. -/
def withOpened (state : Exchange) (node : Node) (opened : OpenedRequest) : Exchange :=
  { state with node, sending := state.sending ++ [opened] }

/-- The exchange after a handle was given out. -/
def withReturned (state : Exchange) (index : Nat) (opened : OpenedRequest) : Exchange :=
  { state with
    sending := state.sending.eraseIdx index
    returned := state.returned ++ [opened] }

/-- The exchange after a request was withdrawn. -/
def withRefused (state : Exchange) (index : Nat) (opened : OpenedRequest) : Exchange :=
  { state with
    node := state.node.withdraw opened
    sending := state.sending.eraseIdx index
    refused := state.refused ++ [opened] }

/-- The exchange after an outcome was taken. -/
def withTaken (state : Exchange) (handle : Handle) (outcome : Outcome) : Exchange :=
  { state with
    node := (state.node.poll handle).1
    taken := state.taken ++ [(handle, outcome)] }

/-- Makes a step. Nothing happens where there is nothing to do it to; nor does a request get the
token of one that is being handed to the socket. -/
def perform (state : Exchange) : Event → Exchange
  | .note destination asked now =>
    match state.node.startRequest destination asked now with
    | .error _ => state
    | .ok (node, opened) =>
      if opened.transaction ∈ state.sending.map (·.transaction) then state
      else state.withOpened node opened
  | .sent index =>
    match state.sending[index]? with
    | none => state
    | some opened => state.withReturned index opened
  | .refuse index =>
    match state.sending[index]? with
    | none => state
    | some opened => state.withRefused index opened
  | .hear message source =>
    let state := { state with heard := state.heard ++ [(message, source)] }
    match state.node.ledger.claim? message source with
    | none => state
    | some (ledger, opened, outcome) =>
      { state.withLedger ledger with delivering := state.delivering ++ [(opened, outcome)] }
  | .file index =>
    match state.delivering[index]? with
    | none => state
    | some (opened, outcome) =>
      { state.withLedger (state.node.ledger.file opened.handle outcome) with
        delivering := state.delivering.eraseIdx index }
  | .tick now => state.withLedger (state.node.ledger.tick now).1
  | .shutdown => state.withLedger state.node.ledger.close
  | .take handle =>
    match state.node.ledger.settled.lookup handle with
    | none => state
    | some outcome => state.withTaken handle outcome

/-- One step after the other. -/
def run (state : Exchange) (events : List Event) : Exchange := events.foldl perform state

/-- All requests that were noted. -/
def requests (state : Exchange) : List OpenedRequest :=
  state.sending ++ (state.returned ++ state.refused)

/-- The outcomes that were filed, taken or not. -/
def outcomes (state : Exchange) : List (Handle × Outcome) :=
  state.node.ledger.settled ++ state.taken

/-- The handles of unanswered requests, of outcomes that are to be filed and of outcomes. -/
def handles (state : Exchange) : List Handle :=
  state.node.ledger.handles ++ (state.delivering.map (·.1.handle) ++ state.taken.map Prod.fst)

/-- An answer came in that gives a request its outcome: with its token, from its destination. -/
def Heard (state : Exchange) (opened : OpenedRequest) (outcome : Outcome) : Prop :=
  ∃ message source, (message, source) ∈ state.heard ∧
    message.transaction = opened.transaction ∧
    opened.datagram.destination.answers source = true ∧
    Ledger.outcomeOf? message source = some outcome

/-- What a step can do. -/
inductive Acts (state : Exchange) : Exchange → Prop where
  | rest : Acts state state
  | noted {destination : Endpoint} {asked : Request} {now : Time} {node : Node}
      {opened : OpenedRequest}
      (hstart : state.node.startRequest destination asked now = .ok (node, opened))
      (hfresh : opened.transaction ∉ state.sending.map (·.transaction)) :
      Acts state (state.withOpened node opened)
  | sent {index : Nat} {opened : OpenedRequest} (hget : state.sending[index]? = some opened) :
      Acts state (state.withReturned index opened)
  | refused {index : Nat} {opened : OpenedRequest} (hget : state.sending[index]? = some opened) :
      Acts state (state.withRefused index opened)
  | unheeded (message : Message) (source : Endpoint) :
      Acts state { state with heard := state.heard ++ [(message, source)] }
  | claimed {message : Message} {source : Endpoint} {ledger : Ledger} {opened : OpenedRequest}
      {outcome : Outcome}
      (hclaim : state.node.ledger.claim? message source = some (ledger, opened, outcome)) :
      Acts state { state.withLedger ledger with
        delivering := state.delivering ++ [(opened, outcome)]
        heard := state.heard ++ [(message, source)] }
  | filed {index : Nat} {opened : OpenedRequest} {outcome : Outcome}
      (hget : state.delivering[index]? = some (opened, outcome)) :
      Acts state { state.withLedger (state.node.ledger.file opened.handle outcome) with
        delivering := state.delivering.eraseIdx index }
  | ticked (now : Time) : Acts state (state.withLedger (state.node.ledger.tick now).1)
  | closed : Acts state (state.withLedger state.node.ledger.close)
  | taken {handle : Handle} {outcome : Outcome}
      (hsettled : state.node.ledger.settled.lookup handle = some outcome) :
      Acts state (state.withTaken handle outcome)

variable {state next : Exchange} {opened : OpenedRequest} {outcome : Outcome} {node : Node}
  {ledger : Ledger} {message : Message} {source : Endpoint} {index : Nat} {handle : Handle}
  {destination : Endpoint} {asked : Request} {now : Time}

theorem perform_hear_none (hclaim : state.node.ledger.claim? message source = none) :
    state.perform (.hear message source) =
      { state with heard := state.heard ++ [(message, source)] } := by
  simp only [perform, hclaim]

theorem acts_perform (state : Exchange) (event : Event) : state.Acts (state.perform event) := by
  cases event with
  | note destination asked now =>
    rw [perform]
    rcases hstart : state.node.startRequest destination asked now with error | ⟨node, opened⟩
    · exact .rest
    dsimp only
    split
    · exact .rest
    · rename_i hfresh
      exact .noted hstart hfresh
  | sent index =>
    rw [perform]
    split
    · exact .rest
    · rename_i hget
      exact .sent hget
  | refuse index =>
    rw [perform]
    split
    · exact .rest
    · rename_i hget
      exact .refused hget
  | hear message source =>
    cases hclaim : state.node.ledger.claim? message source with
    | none =>
      rw [perform_hear_none hclaim]
      exact .unheeded message source
    | some claimed =>
      simp only [perform, hclaim]
      exact .claimed hclaim
  | file index =>
    rw [perform]
    split
    · exact .rest
    · rename_i hget
      exact .filed hget
  | tick now => exact .ticked now
  | shutdown => exact .closed
  | take handle =>
    rw [perform]
    split
    · exact .rest
    · rename_i hsettled
      exact .taken hsettled

/-- What every step keeps holds after any number of them. -/
theorem run_keeps (Keeps : Exchange → Prop)
    (hact : ∀ state next, Acts state next → Keeps state → Keeps next) (h : Keeps state)
    (events : List Event) : Keeps (state.run events) := by
  induction events generalizing state with
  | nil => exact h
  | cons event events ih => exact ih (hact state _ (state.acts_perform event) h)

/-! ### The invariant -/

/-- Where each request is. -/
structure Tidy (state : Exchange) : Prop where
  tokens : state.node.ledger.transactions.Nodup
  nodup : state.handles.Nodup
  lt : ∀ handle ∈ state.handles, handle < state.node.ledger.nextHandle
  requests_nodup : (state.requests.map (·.handle)).Nodup
  requests_lt : ∀ opened ∈ state.requests, opened.handle < state.node.ledger.nextHandle
  live : ∀ opened ∈ state.sending ++ state.returned, opened.handle ∈ state.handles
  known : ∀ opened ∈ state.node.ledger.unanswered, opened ∈ state.requests
  own : ∀ opened ∈ state.sending, ∀ other ∈ state.node.ledger.unanswered,
    other.transaction = opened.transaction → other = opened
  refused : ∀ opened ∈ state.refused, opened ∉ state.node.ledger.unanswered
  closed : state.node.ledger.closed = true → state.node.ledger.unanswered = []

theorem tidy_start (config : Config) (address : Endpoint) (draws : Draws) (now : Time) :
    (start config address draws now).Tidy := by
  constructor <;> simp [start, Node.new, Ledger.new, Ledger.transactions, Ledger.unanswered,
    Ledger.handles, handles, requests]

/-- Handles were moved on; no request was noted, and none was given out or refused. -/
structure Moved (state next : Exchange) : Prop where
  sending : next.sending = state.sending
  returned : next.returned = state.returned
  refused : next.refused = state.refused
  nextHandle : next.node.ledger.nextHandle = state.node.ledger.nextHandle
  handles : next.handles.Perm state.handles
  unanswered : next.node.ledger.unanswered.Sublist state.node.ledger.unanswered
  closed : next.node.ledger.closed = true →
    state.node.ledger.closed = true ∨ next.node.ledger.unanswered = []

theorem Moved.requests (h : state.Moved next) : next.requests = state.requests := by
  rw [Exchange.requests, h.sending, h.returned, h.refused, Exchange.requests]

theorem Tidy.moved (h : state.Tidy) (hmoved : state.Moved next) : next.Tidy where
  tokens := by
    have htokens := h.tokens
    rw [Ledger.transactions_eq] at htokens ⊢
    exact htokens.sublist (hmoved.unanswered.map _)
  nodup := hmoved.handles.nodup_iff.mpr h.nodup
  lt := by
    intro handle hhandle
    rw [hmoved.nextHandle]
    exact h.lt handle (hmoved.handles.subset hhandle)
  requests_nodup := by
    rw [hmoved.requests]
    exact h.requests_nodup
  requests_lt := by
    rw [hmoved.requests, hmoved.nextHandle]
    exact h.requests_lt
  live := by
    rw [hmoved.sending, hmoved.returned]
    intro opened hopened
    exact hmoved.handles.symm.subset (h.live opened hopened)
  known := by
    rw [hmoved.requests]
    intro opened hopened
    exact h.known opened (hmoved.unanswered.subset hopened)
  own := by
    rw [hmoved.sending]
    intro opened hopened other hother
    exact h.own opened hopened other (hmoved.unanswered.subset hother)
  refused := by
    rw [hmoved.refused]
    intro opened hopened hmem
    exact h.refused opened hopened (hmoved.unanswered.subset hmem)
  closed := by
    intro hclosed
    rcases hmoved.closed hclosed with hclosed | hempty
    · have hsub := hmoved.unanswered
      rw [h.closed hclosed] at hsub
      exact List.sublist_nil.mp hsub
    · exact hempty

/-! ### Steps that move handles on -/

theorem moved_ticked (state : Exchange) (now : Time) :
    state.Moved (state.withLedger (state.node.ledger.tick now).1) where
  sending := rfl
  returned := rfl
  refused := rfl
  nextHandle := rfl
  handles := (state.node.ledger.handles_tick_perm now).append_right _
  unanswered := state.node.ledger.unanswered_tick_sublist now
  closed := .inl

theorem moved_closed (state : Exchange) :
    state.Moved (state.withLedger state.node.ledger.close) where
  sending := rfl
  returned := rfl
  refused := rfl
  nextHandle := rfl
  handles := state.node.ledger.handles_close_perm.append_right _
  unanswered := List.nil_sublist _
  closed := fun _ => .inr rfl

theorem moved_taken (h : state.Tidy)
    (hsettled : state.node.ledger.settled.lookup handle = some outcome) :
    state.Moved (state.withTaken handle outcome) := by
  have hpoll := Ledger.handles_perm_poll h.nodup.of_append_left hsettled
  have hunanswered := state.node.ledger.unanswered_poll handle
  refine ⟨rfl, rfl, rfl, Ledger.nextHandle_poll .., List.perm_iff_count.mpr fun other => ?_,
    hunanswered ▸ List.Sublist.refl _, fun hclosed => .inl ?_⟩
  · have hcount := hpoll.count_eq other
    show ((state.node.ledger.poll handle).1.handles ++ (state.delivering.map (·.1.handle) ++
      (state.taken ++ [(handle, outcome)]).map Prod.fst)).count other = _
    rw [List.count_cons] at hcount
    simp only [handles, List.map_append, List.map_cons, List.map_nil, List.count_append,
      List.count_cons, List.count_nil] at hcount ⊢
    omega
  · rw [← Ledger.closed_poll state.node.ledger handle]
    exact hclosed

theorem moved_filed (hget : state.delivering[index]? = some (opened, outcome)) :
    state.Moved { state.withLedger (state.node.ledger.file opened.handle outcome) with
      delivering := state.delivering.eraseIdx index } := by
  obtain ⟨hlt, hitem⟩ := List.getElem?_eq_some_iff.mp hget
  have herase := (List.getElem_cons_eraseIdx_perm hlt).map (·.1.handle)
  rw [hitem, List.map_cons] at herase
  refine ⟨rfl, rfl, rfl, rfl, List.perm_iff_count.mpr fun other => ?_, List.Sublist.refl _, .inl⟩
  have hcount := herase.count_eq other
  show ((state.node.ledger.unanswered.map (·.handle) ++ (state.node.ledger.settled ++
      [(opened.handle, outcome)]).map Prod.fst) ++ ((state.delivering.eraseIdx index).map
        (·.1.handle) ++ state.taken.map Prod.fst)).count other = _
  simp only [handles, Ledger.handles, List.map_append, List.map_cons, List.map_nil,
    List.count_append, List.count_cons, List.count_nil] at hcount ⊢
  omega

theorem moved_claimed (h : state.Tidy)
    (hclaim : state.node.ledger.claim? message source = some (ledger, opened, outcome)) :
    state.Moved { state.withLedger ledger with
      delivering := state.delivering ++ [(opened, outcome)]
      heard := state.heard ++ [(message, source)] } := by
  obtain ⟨-, -, -, entry, hentry, rfl, rfl⟩ := Ledger.claim?_eq_some hclaim
  have htaken := (Ledger.unanswered_perm_cons h.tokens hentry).map (·.handle)
  refine ⟨rfl, rfl, rfl, rfl, List.perm_iff_count.mpr fun other => ?_,
    List.filter_sublist.map _, .inl⟩
  have hcount := htaken.count_eq other
  show ((((state.node.ledger.dropTransaction entry.transaction).map Pending.opened).map
      (·.handle) ++ state.node.ledger.settled.map Prod.fst) ++ ((state.delivering ++
        [(entry.opened, outcome)]).map (·.1.handle) ++ state.taken.map Prod.fst)).count other = _
  simp only [handles, Ledger.handles, List.map_append, List.map_cons, List.map_nil,
    List.count_append, List.count_cons, List.count_nil] at hcount ⊢
  omega

/-! ### Steps of sending -/

/-- Different requests have different handles. -/
theorem Tidy.eq_of_handle_eq (h : state.Tidy) {other : OpenedRequest}
    (hopened : opened ∈ state.requests) (hother : other ∈ state.requests)
    (heq : opened.handle = other.handle) : opened = other :=
  List.inj_on_of_nodup_map h.requests_nodup hopened hother heq

theorem requests_withOpened (state : Exchange) (node : Node) (opened : OpenedRequest) :
    (state.withOpened node opened).requests.Perm (opened :: state.requests) := by
  show (state.sending ++ [opened] ++ (state.returned ++ state.refused)).Perm _
  rw [List.append_assoc]
  exact List.perm_middle

theorem handles_withOpened
    (hstart : state.node.startRequest destination asked now = .ok (node, opened)) :
    (state.withOpened node opened).handles.Perm (opened.handle :: state.handles) := by
  refine List.perm_iff_count.mpr fun other => ?_
  show ((node.ledger.unanswered.map (·.handle) ++ node.ledger.settled.map Prod.fst) ++
    (state.delivering.map (·.1.handle) ++ state.taken.map Prod.fst)).count other = _
  rw [Node.unanswered_startRequest hstart, Node.settled_startRequest hstart]
  simp only [handles, Ledger.handles, List.map_append, List.map_cons, List.map_nil,
    List.count_append, List.count_cons, List.count_nil]
  omega

/-- A new request has a new handle. -/
theorem Tidy.nodup_withOpened (h : state.Tidy)
    (hstart : state.node.startRequest destination asked now = .ok (node, opened)) :
    (state.withOpened node opened).handles.Nodup ∧
      ((state.withOpened node opened).requests.map (·.handle)).Nodup := by
  obtain ⟨-, -, hhandle, -⟩ := Node.startRequest_eq_ok hstart
  constructor
  · refine (handles_withOpened hstart).nodup_iff.mpr (List.nodup_cons.mpr ⟨fun hmem => ?_, h.nodup⟩)
    exact Nat.ne_of_lt (h.lt opened.handle hmem) hhandle
  · refine ((requests_withOpened state node opened).map _).nodup_iff.mpr ?_
    refine List.nodup_cons.mpr ⟨fun hmem => ?_, h.requests_nodup⟩
    obtain ⟨other, hother, heq⟩ := List.mem_map.mp hmem
    exact Nat.ne_of_lt (h.requests_lt other hother) (heq.trans hhandle)

/-- A new request has a token of its own. -/
theorem Tidy.own_withOpened (h : state.Tidy)
    (hstart : state.node.startRequest destination asked now = .ok (node, opened))
    (hfresh : opened.transaction ∉ state.sending.map (·.transaction)) :
    ∀ other ∈ state.sending ++ [opened], ∀ entry ∈ node.ledger.unanswered,
      entry.transaction = other.transaction → entry = other := by
  obtain ⟨-, htoken, -⟩ := Node.startRequest_eq_ok hstart
  rw [Ledger.transactions_eq] at htoken
  rw [Node.unanswered_startRequest hstart]
  intro other hother entry hentry heq
  rcases List.mem_append.mp hother with hother | hother
  · rcases List.mem_append.mp hentry with hentry | hentry
    · exact h.own other hother entry hentry heq
    -- Here it counts that no token in a socket call is given out anew.
    · rw [List.mem_singleton.mp hentry] at heq
      exact absurd (heq ▸ List.mem_map_of_mem hother) hfresh
  · obtain rfl := List.mem_singleton.mp hother
    rcases List.mem_append.mp hentry with hentry | hentry
    · exact absurd (heq ▸ List.mem_map_of_mem hentry) htoken
    · exact List.mem_singleton.mp hentry

theorem Tidy.withOpened (h : state.Tidy)
    (hstart : state.node.startRequest destination asked now = .ok (node, opened))
    (hfresh : opened.transaction ∉ state.sending.map (·.transaction)) :
    (state.withOpened node opened).Tidy := by
  obtain ⟨hopen, htoken, hhandle, -, draws, hnode⟩ := Node.startRequest_eq_ok hstart
  have hunanswered := Node.unanswered_startRequest hstart
  have hhandles := handles_withOpened hstart
  have hrequests := requests_withOpened state node opened
  obtain ⟨hnodup, hrequests_nodup⟩ := h.nodup_withOpened hstart
  have hnext : node.ledger.nextHandle = state.node.ledger.nextHandle + 1 := by
    rw [hnode]
    rfl
  have hlt : opened.handle < node.ledger.nextHandle := by
    rw [hhandle, hnext]
    exact Nat.lt_succ_self _
  refine ⟨?_, hnodup, ?_, hrequests_nodup, ?_, ?_, ?_, h.own_withOpened hstart hfresh, ?_, ?_⟩
  -- Tokens: the drawn one is none of those in use.
  · show node.ledger.transactions.Nodup
    rw [Ledger.transactions_eq, hunanswered, List.map_append, ← Ledger.transactions_eq]
    refine List.nodup_append.mpr ⟨h.tokens, List.nodup_singleton _, ?_⟩
    intro token hused other hother heq
    have heq : token = opened.transaction := heq.trans (List.mem_singleton.mp hother)
    exact htoken (heq ▸ hused)
  · intro handle hmem
    rcases List.mem_cons.mp (hhandles.subset hmem) with rfl | hmem
    · exact hlt
    · exact Nat.lt_of_lt_of_eq (Nat.lt_succ_of_lt (h.lt handle hmem)) hnext.symm
  · intro other hmem
    rcases List.mem_cons.mp (hrequests.subset hmem) with rfl | hmem
    · exact hlt
    · exact Nat.lt_of_lt_of_eq (Nat.lt_succ_of_lt (h.requests_lt other hmem)) hnext.symm
  -- Whatever is being sent or was returned has its handle somewhere.
  · intro other hmem
    have hcases : other = opened ∨ other ∈ state.sending ++ state.returned := by
      rcases List.mem_append.mp hmem with hmem | hmem
      · rcases List.mem_append.mp hmem with hmem | hmem
        · exact .inr (List.mem_append_left _ hmem)
        · exact .inl (List.mem_singleton.mp hmem)
      · exact .inr (List.mem_append_right _ hmem)
    refine hhandles.symm.subset (List.mem_cons.mpr ?_)
    exact hcases.imp (congrArg OpenedRequest.handle) (h.live other)
  · intro other hmem
    have hcases : other ∈ state.node.ledger.unanswered ++ [opened] := hunanswered ▸ hmem
    refine hrequests.symm.subset (List.mem_cons.mpr ?_)
    rcases List.mem_append.mp hcases with hmem | hmem
    · exact .inr (h.known other hmem)
    · exact .inl (List.mem_singleton.mp hmem)
  -- A refused request is not the new one, whose handle was never given out.
  · intro other hother hentry
    have hcases : other ∈ state.node.ledger.unanswered ++ [opened] := hunanswered ▸ hentry
    rcases List.mem_append.mp hcases with hentry | hentry
    · exact h.refused other hother hentry
    · obtain rfl := List.mem_singleton.mp hentry
      have hknown : other ∈ state.requests :=
        List.mem_append_right _ (List.mem_append_right _ hother)
      exact Nat.ne_of_lt (h.requests_lt other hknown) hhandle
  · intro hclosed
    have hsame : node.ledger.closed = state.node.ledger.closed := by
      rw [hnode]
      rfl
    exact absurd (hopen.symm.trans (hsame.symm.trans hclosed)) (by decide)

/-- A request that leaves the socket call is still one of the requests. -/
theorem requests_perm_of_sent (hget : state.sending[index]? = some opened)
    (given refused : List OpenedRequest)
    (hplace : (given ++ refused).Perm (opened :: (state.returned ++ state.refused))) :
    (state.sending.eraseIdx index ++ (given ++ refused)).Perm state.requests := by
  obtain ⟨hlt, hitem⟩ := List.getElem?_eq_some_iff.mp hget
  have herase := List.getElem_cons_eraseIdx_perm hlt
  rw [hitem] at herase
  refine (hplace.append_left _).trans (List.perm_middle.trans ?_)
  exact herase.append_right (state.returned ++ state.refused)

theorem requests_withReturned (hget : state.sending[index]? = some opened) :
    (state.withReturned index opened).requests.Perm state.requests := by
  refine requests_perm_of_sent hget (state.returned ++ [opened]) state.refused ?_
  rw [List.append_assoc]
  exact List.perm_middle

theorem Tidy.withReturned (h : state.Tidy) (hget : state.sending[index]? = some opened) :
    (state.withReturned index opened).Tidy := by
  have hrequests := requests_withReturned hget
  have hsub : ∀ other ∈ state.sending.eraseIdx index, other ∈ state.sending :=
    fun other hother => List.mem_of_mem_eraseIdx hother
  refine ⟨h.tokens, h.nodup, h.lt, (hrequests.map _).nodup_iff.mpr h.requests_nodup, ?_, ?_, ?_, ?_,
    h.refused, h.closed⟩
  · intro other hother
    exact h.requests_lt other (hrequests.subset hother)
  · intro other hother
    refine h.live other ?_
    rcases List.mem_append.mp hother with hother | hother
    · exact List.mem_append_left _ (hsub other hother)
    rcases List.mem_append.mp hother with hother | hother
    · exact List.mem_append_right _ hother
    · rw [List.mem_singleton.mp hother]
      exact List.mem_append_left _ (List.mem_of_getElem? hget)
  · intro other hother
    exact hrequests.symm.subset (h.known other hother)
  · intro other hother
    exact h.own other (hsub other hother)

theorem requests_withRefused (hget : state.sending[index]? = some opened) :
    (state.withRefused index opened).requests.Perm state.requests := by
  refine requests_perm_of_sent hget state.returned (state.refused ++ [opened]) ?_
  rw [← List.append_assoc]
  exact List.perm_append_singleton opened _

theorem mem_handles_iff : handle ∈ state.handles ↔
    handle ∈ state.node.ledger.unanswered.map (·.handle) ∨
      handle ∈ state.node.ledger.settled.map Prod.fst ++
        (state.delivering.map (·.1.handle) ++ state.taken.map Prod.fst) := by
  rw [handles, Ledger.handles, List.append_assoc, List.mem_append]

/-- The withdrawal of a request takes away its own entry and no other. -/
theorem Tidy.mem_unanswered_withdraw (h : state.Tidy) (hopened : opened ∈ state.sending)
    {other : OpenedRequest} :
    other ∈ (state.node.withdraw opened).ledger.unanswered ↔
      other ∈ state.node.ledger.unanswered ∧ other ≠ opened := by
  rw [Node.withdraw, Ledger.unanswered_withdraw, List.mem_filter, decide_eq_true_iff]
  constructor
  · rintro ⟨hmem, hne⟩
    exact ⟨hmem, fun heq => hne (congrArg OpenedRequest.transaction heq)⟩
  · rintro ⟨hmem, hne⟩
    exact ⟨hmem, fun heq => hne (h.own opened hopened other hmem heq)⟩

/-- The withdrawn request is not among those that stay, for each request is there once. -/
theorem Tidy.handle_ne_of_withRefused (h : state.Tidy)
    (hget : state.sending[index]? = some opened) {other : OpenedRequest}
    (hother : other ∈ state.sending.eraseIdx index ++ state.returned) :
    other.handle ≠ opened.handle := by
  have hnodup := ((requests_withRefused hget).map (·.handle)).nodup_iff.mpr h.requests_nodup
  have hsplit : (state.withRefused index opened).requests =
      state.sending.eraseIdx index ++ state.returned ++ state.refused ++ [opened] := by
    simp only [requests, Exchange.withRefused, List.append_assoc]
  rw [hsplit, List.map_append] at hnodup
  refine (List.nodup_append.mp hnodup).2.2 _ (List.mem_map_of_mem ?_) _ (List.mem_singleton_self _)
  exact List.mem_append_left _ hother

/-- The handles of the requests that stay are where they were. -/
theorem Tidy.live_withRefused (h : state.Tidy) (hget : state.sending[index]? = some opened)
    {other : OpenedRequest} (hother : other ∈ state.sending.eraseIdx index ++ state.returned) :
    other.handle ∈ (state.withRefused index opened).handles := by
  have hne := h.handle_ne_of_withRefused hget hother
  have hstays : other ∈ state.sending ++ state.returned :=
    (List.mem_append.mp hother).elim
      (fun hother => List.mem_append_left _ (List.mem_of_mem_eraseIdx hother))
      (List.mem_append_right _)
  have hknown : other ∈ state.requests := by
    rw [requests, ← List.append_assoc]
    exact List.mem_append_left _ hstays
  have hlive := h.live other hstays
  rw [mem_handles_iff] at hlive ⊢
  refine hlive.imp_left fun hlive => ?_
  -- An entry with its handle is its own entry, and that one is not withdrawn.
  obtain ⟨entry, hentry, heq⟩ := List.mem_map.mp hlive
  obtain rfl := h.eq_of_handle_eq (h.known entry hentry) hknown heq
  refine List.mem_map_of_mem ((h.mem_unanswered_withdraw (List.mem_of_getElem? hget)).mpr ?_)
  exact ⟨hentry, fun heq => hne (congrArg OpenedRequest.handle heq)⟩

theorem Tidy.withRefused (h : state.Tidy) (hget : state.sending[index]? = some opened) :
    (state.withRefused index opened).Tidy := by
  have hrequests := requests_withRefused hget
  have hunanswered : (state.node.withdraw opened).ledger.unanswered.Sublist
      state.node.ledger.unanswered := by
    rw [Node.withdraw, Ledger.unanswered_withdraw]
    exact List.filter_sublist
  have hhandles : (state.withRefused index opened).handles.Sublist state.handles :=
    ((hunanswered.map _).append_right _).append_right _
  refine ⟨?_, h.nodup.sublist hhandles, fun handle hhandle => h.lt handle (hhandles.subset hhandle),
    (hrequests.map _).nodup_iff.mpr h.requests_nodup,
    fun other hother => h.requests_lt other (hrequests.subset hother),
    fun other hother => h.live_withRefused hget hother,
    fun other hother => hrequests.symm.subset (h.known other (hunanswered.subset hother)),
    ?_, ?_, ?_⟩
  · have htokens := h.tokens
    rw [Ledger.transactions_eq] at htokens ⊢
    exact htokens.sublist (hunanswered.map _)
  · intro other hother entry hentry
    exact h.own other (List.mem_of_mem_eraseIdx hother) entry (hunanswered.subset hentry)
  · intro other hother hentry
    obtain ⟨hentry, hne⟩ := (h.mem_unanswered_withdraw (List.mem_of_getElem? hget)).mp hentry
    rcases List.mem_append.mp hother with hother | hother
    · exact h.refused other hother hentry
    · exact hne (List.mem_singleton.mp hother)
  · intro hclosed
    have hempty := h.closed hclosed
    rw [hempty] at hunanswered
    exact List.sublist_nil.mp hunanswered

theorem Tidy.acts (h : state.Tidy) (hact : state.Acts next) : next.Tidy := by
  cases hact with
  | rest => exact h
  | noted hstart hfresh => exact h.withOpened hstart hfresh
  | sent hget => exact h.withReturned hget
  | refused hget => exact h.withRefused hget
  | unheeded message source =>
    exact ⟨h.tokens, h.nodup, h.lt, h.requests_nodup, h.requests_lt, h.live, h.known, h.own,
      h.refused, h.closed⟩
  | claimed hclaim => exact h.moved (moved_claimed h hclaim)
  | filed hget => exact h.moved (moved_filed hget)
  | ticked now => exact h.moved (moved_ticked state now)
  | closed => exact h.moved (moved_closed state)
  | taken hsettled => exact h.moved (moved_taken h hsettled)

theorem Tidy.run (h : state.Tidy) (events : List Event) : (state.run events).Tidy :=
  run_keeps Tidy (fun _ _ hact h => h.acts hact) h events

end Exchange

end Kademlia
