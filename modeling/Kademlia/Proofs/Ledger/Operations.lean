import Kademlia.Proofs.Ledger.Orderly

/-!
# Kademlia.Proofs.Ledger.Operations

What is done with a ledger, as a list of operations, and what each of them does to which request
(`Ledger.notices`). A request's `Ledger.story` is all that a list of operations does to it. An
operation does one of few things to an unanswered request (`Ledger.Turns`), and nothing to one that
has had its outcome.
-/

namespace Kademlia

namespace Ledger

/-! ### Operations -/

/-- Something that is done with a ledger. -/
inductive Operation where
  /-- A request is noted and handed to the socket, and withdrawn if the socket has not taken it. -/
  | send (transaction : TransactionId) (datagram : Datagram) (now : Time) (taken : Bool)
  | hear (message : Message) (source : Endpoint)
  | tick (now : Time)
  | close
  | poll (handle : Handle)

/-- The ledger after an operation. -/
def perform (ledger : Ledger) : Operation → Ledger
  | .send transaction datagram now taken =>
    match ledger.register transaction datagram now with
    | none => ledger
    | some (noted, _) => if taken then noted else noted.withdraw transaction
  | .hear message source => (ledger.resolve? message source).getD ledger
  | .tick now => (ledger.tick now).1
  | .close => ledger.close
  | .poll handle => (ledger.poll handle).1

/-- The ledger after one operation after the other. -/
def run (ledger : Ledger) (operations : List Operation) : Ledger := operations.foldl perform ledger

/-- The times at which the ledger looks at its requests. -/
def ticks (operations : List Operation) : List Time :=
  operations.filterMap fun
    | .tick now => some now
    | _ => none

/-- What an operation does to a request. -/
inductive Notice where
  /-- It is handed to the socket. -/
  | sent (now : Time) (datagram : Datagram)
  /-- It is answered. -/
  | answered (outcome : Outcome)
  /-- It was waited for in vain after its last sending. -/
  | expired (now : Time)
  /-- It is given up because the ledger closes. -/
  | dropped

/-- The outcome that a request is given. -/
def Notice.outcome? : Notice → Option Outcome
  | .sent .. => none
  | .answered outcome => some outcome
  | .expired _ | .dropped => some (.failed .timeout)

/-- When which datagram is handed to the socket. -/
def Notice.sending? : Notice → Option (Time × Datagram)
  | .sent now datagram => some (now, datagram)
  | _ => none

/-- What an operation does to which requests. -/
def notices (ledger : Ledger) : Operation → List (Handle × Notice)
  | .send transaction datagram now _ =>
    match ledger.register transaction datagram now with
    | none => []
    | some (_, handle) => [(handle, .sent now datagram)]
  | .hear message source =>
    match ledger.claim? message source with
    | none => []
    | some (_, opened, outcome) => [(opened.handle, .answered outcome)]
  | .tick now =>
    (ledger.pending.filter (ledger.isRetried now ·)).map
        (fun entry => (entry.handle, .sent now entry.datagram)) ++
      (ledger.pending.filter (ledger.isExpired now ·)).map
        (fun entry => (entry.handle, .expired now))
  | .close => ledger.pending.map fun entry => (entry.handle, .dropped)
  | .poll _ => []

/-- What an operation does to the request with a handle. -/
def noticesOf (ledger : Ledger) (handle : Handle) (operation : Operation) : List Notice :=
  ((ledger.notices operation).filter (·.1 = handle)).map Prod.snd

/-- What one operation after the other does to the request with a handle. -/
def story (ledger : Ledger) (handle : Handle) : List Operation → List Notice
  | [] => []
  | operation :: rest =>
    ledger.noticesOf handle operation ++ (ledger.perform operation).story handle rest

/-- The sendings in a story. -/
def sendings (story : List Notice) : List (Time × Datagram) := story.filterMap Notice.sending?

/-- The unanswered requests with a handle: one or none. -/
def held (ledger : Ledger) (handle : Handle) : List Pending :=
  ledger.pending.filter (·.handle = handle)

variable {ledger next : Ledger} {entry : Pending} {handle : Handle} {operation : Operation}
  {operations : List Operation}

theorem ticks_sublist_cons (operation : Operation) (rest : List Operation) :
    (ticks rest).Sublist (ticks (operation :: rest)) :=
  (List.sublist_cons_self operation rest).filterMap _

/-- A request that is taken has a new handle, and its token is not in use. -/
theorem eq_noted_of_register {transaction : TransactionId} {datagram : Datagram} {now : Time}
    (h : ledger.register transaction datagram now = some (next, handle)) :
    transaction ∉ ledger.transactions ∧ handle = ledger.nextHandle ∧
      next = ledger.noted transaction datagram now := by
  rw [register] at h
  split at h
  · exact absurd h (by simp)
  · rename_i hopen
    obtain ⟨rfl, rfl⟩ := Prod.mk.inj (Option.some.inj h)
    exact ⟨fun hused => hopen (.inr hused), rfl, rfl⟩

theorem exists_entry_of_register {transaction : TransactionId} {datagram : Datagram} {now : Time}
    (h : ledger.register transaction datagram now = some (next, handle)) :
    ∃ entry ∈ next.pending, entry.handle = handle ∧ entry.datagram = datagram ∧
      entry.sentAt = now ∧ entry.retries = ledger.maxTries - 1 := by
  obtain ⟨-, rfl, rfl⟩ := eq_noted_of_register h
  exact ⟨_, List.mem_append_right _ (List.mem_singleton_self _), rfl, rfl, rfl, rfl⟩

/-- The notices of a tick tell of the datagrams that it hands to the socket, and of no other. -/
theorem datagrams_tick (ledger : Ledger) (now : Time) :
    (ledger.tick now).2 =
      (sendings ((ledger.notices (.tick now)).map Prod.snd)).map Prod.snd := by
  simp [tick, notices, sendings, Notice.sending?, List.filterMap_map, Function.comp_def]
  intro notice entry _ _ hnotice
  rw [hnotice]

/-- The outcomes in the notices are those that are filed. -/
theorem settled_perform (ledger : Ledger) (hoperation : ∀ handle, operation ≠ .poll handle) :
    (ledger.perform operation).settled = ledger.settled ++
      (ledger.notices operation).filterMap fun item => item.2.outcome?.map (item.1, ·) := by
  cases operation with
  | send transaction datagram now taken =>
    rw [perform, notices]
    cases hregister : ledger.register transaction datagram now with
    | none => simp
    | some registered =>
      obtain ⟨next, handle⟩ := registered
      obtain ⟨-, -, rfl⟩ := eq_noted_of_register hregister
      cases taken <;> simp [noted, withdraw, Notice.outcome?]
  | hear message source =>
    rw [perform, notices, resolve?_eq_map_claim?]
    cases hclaim : ledger.claim? message source with
    | none => simp
    | some claimed =>
      obtain ⟨next, opened, outcome⟩ := claimed
      obtain ⟨-, -, -, entry, -, -, rfl⟩ := claim?_eq_some hclaim
      simp [file, Notice.outcome?]
  | tick now =>
    simp [perform, tick, notices, timeouts, Notice.outcome?, List.filterMap_map]
  | close =>
    simp [perform, close, notices, timeouts, Notice.outcome?, List.filterMap_map]
  | poll handle => exact absurd rfl (hoperation handle)

/-- The notices tell what operations come to: the sendings of a tick are the datagrams that it hands
to the socket, and the outcomes are those that are filed. -/
structure Told (ledger : Ledger) : Prop where
  handed : ∀ now, (ledger.tick now).2 =
    (sendings ((ledger.notices (.tick now)).map Prod.snd)).map Prod.snd
  filed : ∀ operation, (∀ handle, operation ≠ .poll handle) →
    (ledger.perform operation).settled = ledger.settled ++
      (ledger.notices operation).filterMap fun item => item.2.outcome?.map (item.1, ·)

theorem told (ledger : Ledger) : ledger.Told :=
  ⟨ledger.datagrams_tick, fun _ hoperation => ledger.settled_perform hoperation⟩

/-! ### What an operation does to a request -/

/-- Whatever is done, the ledger is one that comes from it by the operations of `Step`. -/
theorem becomes_perform (ledger : Ledger) (operation : Operation) :
    ledger.Becomes (ledger.perform operation) := by
  cases operation with
  | send transaction datagram now taken =>
    rw [perform]
    cases hregister : ledger.register transaction datagram now with
    | none => exact .refl
    | some registered =>
      obtain ⟨next, handle⟩ := registered
      obtain ⟨hfresh, -, rfl⟩ := eq_noted_of_register hregister
      have hnoted : ledger.Becomes (ledger.noted transaction datagram now) :=
        .single (.noted hfresh datagram now)
      cases taken with
      | true => exact hnoted
      | false => exact hnoted.tail (.withdrawn transaction)
  | hear message source =>
    rw [perform]
    cases hresolve : ledger.resolve? message source with
    | none => exact .refl
    | some next => exact .single (.resolved hresolve)
  | tick now => exact .single (.ticked now)
  | close => exact .single .closed
  | poll handle => exact .single (.polled handle)

theorem becomes_run (ledger : Ledger) (operations : List Operation) :
    ledger.Becomes (ledger.run operations) := by
  induction operations generalizing ledger with
  | nil => exact .refl
  | cons operation rest ih => exact (ledger.becomes_perform operation).trans (ih _)

theorem held_noted (ledger : Ledger) (transaction : TransactionId) (datagram : Datagram)
    (now : Time) (h : handle < ledger.nextHandle) :
    (ledger.noted transaction datagram now).held handle = ledger.held handle := by
  have hne : ledger.nextHandle ≠ handle := Nat.ne_of_gt h
  rw [held, noted, List.filter_append, List.filter_singleton]
  simp [hne, held]

theorem held_withdraw (ledger : Ledger) (transaction : TransactionId) (handle : Handle) :
    (ledger.withdraw transaction).held handle =
      (ledger.held handle).filter (·.transaction ≠ transaction) := by
  rw [held, withdraw, dropTransaction, List.filter_comm, held]

theorem held_tick (ledger : Ledger) (now : Time) (handle : Handle) :
    (ledger.tick now).1.held handle =
      ((ledger.held handle).filter (!ledger.isExpired now ·)).map (ledger.afterTick now) := by
  have hhandle (entry : Pending) : (ledger.afterTick now entry).handle = entry.handle :=
    congrArg OpenedRequest.handle (ledger.opened_afterTick now entry)
  simp only [held, tick, List.filter_map, Function.comp_def, hhandle]
  rw [List.filter_comm]

theorem noticesOf_tick (ledger : Ledger) (now : Time) (handle : Handle) :
    ledger.noticesOf handle (.tick now) =
      ((ledger.held handle).filter (ledger.isRetried now ·)).map (.sent now ·.datagram) ++
        ((ledger.held handle).filter (ledger.isExpired now ·)).map fun _ => .expired now := by
  simp only [noticesOf, notices, held, List.filter_append, List.map_append, List.filter_map,
    List.map_map, Function.comp_def]
  rw [List.filter_comm, List.filter_comm (p := (ledger.isExpired now ·))]

theorem noticesOf_close (ledger : Ledger) (handle : Handle) :
    ledger.noticesOf handle .close = (ledger.held handle).map fun _ => .dropped := by
  simp only [noticesOf, notices, held, List.filter_map, List.map_map, Function.comp_def]

theorem isPending_eq_false_iff : ledger.isPending handle = false ↔ ledger.held handle = [] := by
  simp [isPending, held, List.filter_eq_nil_iff]

/-- There is one unanswered request with a handle. -/
theorem Orderly.held_eq (h : ledger.Orderly) (hentry : entry ∈ ledger.pending) :
    ledger.held entry.handle = [entry] := by
  have hnodup : (ledger.pending.map (·.handle)).Nodup := by
    have hhandles := h.nodup.of_append_left
    rwa [unanswered, List.map_map] at hhandles
  have hsplit := (perm_cons_filter hnodup hentry).filter (·.handle = entry.handle)
  rw [List.filter_cons_of_pos (by simp), List.filter_filter] at hsplit
  simpa [held] using hsplit

/-- What a request's sendings come to with one operation: the notices that it is given, and the
unanswered request as it is afterwards, if it still is one. -/
inductive Turns (timeout : Duration) (entry : Pending) :
    Operation → List Notice → List Pending → Prop where
  | waits {operation : Operation}
      (hearly : ∀ now, operation = .tick now → now - entry.sentAt < timeout) :
      Turns timeout entry operation [] [entry]
  | repeats {now : Time} (hdue : timeout ≤ now - entry.sentAt) (hleft : 0 < entry.retries) :
      Turns timeout entry (.tick now) [.sent now entry.datagram]
        [{ entry with sentAt := now, retries := entry.retries - 1 }]
  | expires {now : Time} (hdue : timeout ≤ now - entry.sentAt) (hleft : entry.retries = 0) :
      Turns timeout entry (.tick now) [.expired now] []
  | answered (message : Message) (source : Endpoint) (outcome : Outcome) :
      Turns timeout entry (.hear message source) [.answered outcome] []
  | dropped : Turns timeout entry .close [.dropped] []

/-- With what ends a request it is not sent again. -/
theorem Turns.sendings_eq_nil {timeout : Duration} {notices : List Notice}
    (h : Turns timeout entry operation notices []) : sendings notices = [] := by
  cases h <;> rfl

theorem turns_tick (h : ledger.held entry.handle = [entry]) (now : Time) :
    Turns ledger.timeout entry (.tick now) (ledger.noticesOf entry.handle (.tick now))
      ((ledger.tick now).1.held entry.handle) := by
  rw [noticesOf_tick, held_tick, h]
  by_cases hdue : ledger.timeout ≤ now - entry.sentAt
  · rcases Nat.eq_zero_or_pos entry.retries with hleft | hleft
    · simpa [isRetried, isExpired, isDue, hdue, hleft] using Turns.expires hdue hleft
    · have hsome : entry.retries ≠ 0 := Nat.ne_of_gt hleft
      simpa [isRetried, isExpired, isDue, afterTick, hdue, hleft, hsome] using
        Turns.repeats hdue hleft
  · have hearly : ∀ other, Operation.tick now = .tick other →
        other - entry.sentAt < ledger.timeout :=
      fun other heq => Operation.tick.inj heq ▸ Nat.lt_of_not_le hdue
    simpa [isRetried, isExpired, isDue, afterTick, hdue] using Turns.waits hearly

theorem turns_hear (h : ledger.Orderly) (hentry : entry ∈ ledger.pending) (message : Message)
    (source : Endpoint) :
    Turns ledger.timeout entry (.hear message source)
      (ledger.noticesOf entry.handle (.hear message source))
      ((ledger.perform (.hear message source)).held entry.handle) := by
  have hheld := h.held_eq hentry
  rw [noticesOf, notices, perform, resolve?_eq_map_claim?]
  cases hclaim : ledger.claim? message source with
  | none => exact hheld ▸ .waits (by simp)
  | some claimed =>
    obtain ⟨next, opened, outcome⟩ := claimed
    obtain ⟨-, -, -, other, hother, rfl, rfl⟩ := claim?_eq_some hclaim
    show Turns _ _ _ _ ((ledger.withdraw other.transaction).held entry.handle)
    rw [held_withdraw, hheld]
    by_cases hsame : other.handle = entry.handle
    · have heq : other ∈ ledger.held entry.handle := List.mem_filter.mpr ⟨hother, by simpa⟩
      rw [hheld, List.mem_singleton] at heq
      simpa [heq, Pending.opened] using Turns.answered message source outcome
    · -- Another request is answered, and that one has another token.
      have hne : entry.transaction ≠ other.transaction := fun heq =>
        hsame (congrArg Pending.handle (List.inj_on_of_nodup_map h.tokens hentry hother heq)).symm
      have hwaits : Turns ledger.timeout entry (.hear message source) [] [entry] :=
        .waits (by simp)
      simpa [hsame, hne, Pending.opened] using hwaits

theorem turns_send (h : ledger.Orderly) (hentry : entry ∈ ledger.pending)
    (transaction : TransactionId) (datagram : Datagram) (now : Time) (taken : Bool) :
    Turns ledger.timeout entry (.send transaction datagram now taken)
      (ledger.noticesOf entry.handle (.send transaction datagram now taken))
      ((ledger.perform (.send transaction datagram now taken)).held entry.handle) := by
  have hheld := h.held_eq hentry
  rw [noticesOf, notices, perform]
  cases hregister : ledger.register transaction datagram now with
  | none => exact hheld ▸ .waits (by simp)
  | some registered =>
    obtain ⟨next, handle⟩ := registered
    obtain ⟨hfresh, rfl, rfl⟩ := eq_noted_of_register hregister
    have hlt := h.handle_lt hentry
    have hne : entry.transaction ≠ transaction := fun heq =>
      hfresh (heq ▸ List.mem_map_of_mem hentry)
    have hnotices : ledger.nextHandle ≠ entry.handle := Nat.ne_of_gt hlt
    have hnoted := hheld ▸ ledger.held_noted transaction datagram now hlt
    have hwaits : Turns ledger.timeout entry (.send transaction datagram now taken) [] [entry] :=
      .waits (by simp)
    cases taken <;> simpa [held_withdraw, hnoted, hne, hnotices] using hwaits

/-- What an operation does to an unanswered request. -/
theorem turns_perform (h : ledger.Orderly) (hentry : entry ∈ ledger.pending)
    (operation : Operation) :
    Turns ledger.timeout entry operation (ledger.noticesOf entry.handle operation)
      ((ledger.perform operation).held entry.handle) := by
  cases operation with
  | send transaction datagram now taken => exact turns_send h hentry transaction datagram now taken
  | hear message source => exact turns_hear h hentry message source
  | tick now => exact turns_tick (h.held_eq hentry) now
  | close =>
    rw [noticesOf_close, h.held_eq hentry]
    exact .dropped
  | poll handle =>
    have hheld : (ledger.perform (.poll handle)).held entry.handle = [entry] := by
      rw [perform, held, pending_poll, ← held, h.held_eq hentry]
    exact hheld ▸ .waits (by simp)

/-- A request ends with an operation, or it is unanswered after it. -/
theorem ends_or_lasts (h : ledger.Orderly) (hentry : entry ∈ ledger.pending)
    (operation : Operation) :
    ((ledger.perform operation).held entry.handle = [] ∧
        Turns ledger.timeout entry operation (ledger.noticesOf entry.handle operation) []) ∨
      ∃ next ∈ (ledger.perform operation).pending, next.handle = entry.handle ∧
        Turns ledger.timeout entry operation (ledger.noticesOf entry.handle operation) [next] := by
  have hturn := turns_perform h hentry operation
  rcases hheld : (ledger.perform operation).held entry.handle with _ | ⟨next, _ | ⟨other, more⟩⟩
  · exact .inl ⟨rfl, hheld ▸ hturn⟩
  · have hnext : next ∈ (ledger.perform operation).held entry.handle := by simp [hheld]
    obtain ⟨hmem, hhandle⟩ := List.mem_filter.mp hnext
    exact .inr ⟨next, hmem, of_decide_eq_true hhandle, hheld ▸ hturn⟩
  -- Two requests are never held under one handle.
  · rw [hheld] at hturn
    generalize ledger.noticesOf entry.handle operation = notices at hturn
    cases hturn

/-! ### The story of a request -/

/-- A handle that was given out and has no unanswered request gets none, and no further notices. -/
theorem noticesOf_of_held_eq_nil (hlt : handle < ledger.nextHandle)
    (hheld : ledger.held handle = []) (operation : Operation) :
    ledger.noticesOf handle operation = [] ∧ (ledger.perform operation).held handle = [] := by
  cases operation with
  | send transaction datagram now taken =>
    rw [noticesOf, notices, perform]
    cases hregister : ledger.register transaction datagram now with
    | none => exact ⟨rfl, hheld⟩
    | some registered =>
      obtain ⟨next, given⟩ := registered
      obtain ⟨-, rfl, rfl⟩ := eq_noted_of_register hregister
      have hnoted := hheld ▸ ledger.held_noted transaction datagram now hlt
      cases taken <;> simp [held_withdraw, hnoted, Nat.ne_of_gt hlt]
  | hear message source =>
    rw [noticesOf, notices, perform, resolve?_eq_map_claim?]
    cases hclaim : ledger.claim? message source with
    | none => exact ⟨rfl, hheld⟩
    | some claimed =>
      obtain ⟨next, opened, outcome⟩ := claimed
      obtain ⟨-, -, -, other, hother, rfl, rfl⟩ := claim?_eq_some hclaim
      have hne : other.handle ≠ handle := by
        simpa using List.filter_eq_nil_iff.mp hheld other hother
      have hwithdraw : (ledger.withdraw other.transaction).held handle = [] := by
        rw [held_withdraw, hheld, List.filter_nil]
      exact ⟨by simp [Pending.opened, hne], hwithdraw⟩
  | tick now =>
    rw [noticesOf_tick, perform, held_tick, hheld]
    exact ⟨rfl, rfl⟩
  | close =>
    rw [noticesOf_close, hheld]
    exact ⟨rfl, rfl⟩
  | poll other =>
    refine ⟨rfl, ?_⟩
    rw [perform, held, pending_poll, ← held, hheld]

theorem story_of_held_eq_nil (hlt : handle < ledger.nextHandle)
    (hheld : ledger.held handle = []) (operations : List Operation) :
    ledger.story handle operations = [] ∧ (ledger.run operations).held handle = [] := by
  induction operations generalizing ledger with
  | nil => exact ⟨rfl, hheld⟩
  | cons operation rest ih =>
    obtain ⟨hnotices, hnext⟩ := noticesOf_of_held_eq_nil hlt hheld operation
    obtain ⟨hstory, hrun⟩ :=
      ih (Nat.lt_of_lt_of_le hlt (ledger.becomes_perform operation).nextHandle_le) hnext
    exact ⟨by rw [story, hnotices, hstory, List.nil_append], hrun⟩

/-- The outcomes that an operation gives to a request are filed under its handle. -/
theorem filed_of_noticesOf {outcome : Outcome}
    (h : outcome ∈ (ledger.noticesOf handle operation).filterMap Notice.outcome?) :
    (handle, outcome) ∈ (ledger.perform operation).settled := by
  obtain ⟨notice, hnotice, houtcome⟩ := List.mem_filterMap.mp h
  obtain ⟨item, hitem, rfl⟩ := List.mem_map.mp hnotice
  obtain ⟨hmem, hhandle⟩ := List.mem_filter.mp hitem
  have hpoll : ∀ polled, operation ≠ .poll polled := by
    rintro polled rfl
    exact absurd hmem List.not_mem_nil
  rw [settled_perform ledger hpoll]
  refine List.mem_append_right _ (List.mem_filterMap.mpr ⟨item, hmem, ?_⟩)
  rw [houtcome, ← of_decide_eq_true hhandle, Option.map_some]

/-- A notice of an outcome comes with the filing of it. -/
theorem filed_of_mem_story {notice : Notice} {outcome : Outcome}
    (h : notice ∈ ledger.story handle operations) (houtcome : notice.outcome? = some outcome) :
    ∃ early operation late, operations = early ++ operation :: late ∧
      (handle, outcome) ∈ ((ledger.run early).perform operation).settled := by
  induction operations generalizing ledger with
  | nil => exact absurd h List.not_mem_nil
  | cons operation rest ih =>
    rcases List.mem_append.mp h with h | h
    · exact ⟨[], operation, rest, rfl,
        filed_of_noticesOf (List.mem_filterMap.mpr ⟨notice, h, houtcome⟩)⟩
    · obtain ⟨early, later, late, rfl, hfiled⟩ := ih h
      exact ⟨operation :: early, later, late, rfl, hfiled⟩

end Ledger

end Kademlia
