import Kademlia.Proofs.Ledger.Interleaving

/-!
# Kademlia.Proofs.Ledger.Conclusion

Every request concludes exactly once, however the threads interleave (`Exchange.concludes_once`).
The count comes from `Exchange.Tidy`: the handle of a request that was sent is at one place, and
each place is an entry of the ledger, an outcome that is still to be filed, or an outcome. What the
outcome says comes from `Exchange.Faithful`, which goes through the same steps.
-/

namespace Kademlia

namespace Exchange

variable {state next : Exchange} {opened : OpenedRequest} {outcome : Outcome} {node : Node}
  {message : Message} {source : Endpoint} {handle : Handle} {destination : Endpoint}
  {asked : Request} {now : Time}

/-! ### Where outcomes come from -/

/-- Where each outcome comes from. -/
structure Faithful (state : Exchange) : Prop where
  delivering : ∀ item ∈ state.delivering, item.1 ∈ state.requests ∧ state.Heard item.1 item.2
  outcomes : ∀ item ∈ state.outcomes, item.2 = .failed .timeout ∨
    ∃ opened ∈ state.requests, opened.handle = item.1 ∧ state.Heard opened item.2

theorem faithful_start (config : Config) (address : Endpoint) (draws : Draws) (now : Time) :
    (start config address draws now).Faithful := by
  constructor <;> simp [start, Node.new, Ledger.new, outcomes]

theorem Heard.mono (h : state.Heard opened outcome) (hheard : state.heard ⊆ next.heard) :
    next.Heard opened outcome := by
  obtain ⟨message, source, hmem, hrest⟩ := h
  exact ⟨message, source, hheard hmem, hrest⟩

/-- Outcomes stay faithful if each new one is. -/
theorem Faithful.mono (h : state.Faithful) (hrequests : state.requests ⊆ next.requests)
    (hheard : state.heard ⊆ next.heard)
    (hdelivering : ∀ item ∈ next.delivering, item ∈ state.delivering ∨
      (item.1 ∈ next.requests ∧ next.Heard item.1 item.2))
    (houtcomes : ∀ item ∈ next.outcomes, item ∈ state.outcomes ∨ item.2 = .failed .timeout ∨
      ∃ opened ∈ next.requests, opened.handle = item.1 ∧ next.Heard opened item.2) :
    next.Faithful where
  delivering := by
    intro item hitem
    rcases hdelivering item hitem with hitem | hitem
    · obtain ⟨hrequest, hanswer⟩ := h.delivering item hitem
      exact ⟨hrequests hrequest, hanswer.mono hheard⟩
    · exact hitem
  outcomes := by
    intro item hitem
    rcases houtcomes item hitem with hitem | hitem
    · refine (h.outcomes item hitem).imp_right ?_
      rintro ⟨opened, hopened, hhandle, hanswer⟩
      exact ⟨opened, hrequests hopened, hhandle, hanswer.mono hheard⟩
    · exact hitem

/-- Outcomes are filed behind those that are there. -/
theorem mem_outcomes_of_filed {filed : List (Handle × Outcome)} {item : Handle × Outcome}
    (h : item ∈ state.node.ledger.settled ++ filed ++ state.taken) :
    item ∈ state.outcomes ∨ item ∈ filed := by
  rcases List.mem_append.mp h with h | h
  · rcases List.mem_append.mp h with h | h
    · exact .inl (List.mem_append_left _ h)
    · exact .inr h
  · exact .inl (List.mem_append_right _ h)

/-- Taking an outcome leaves it one of the outcomes. -/
theorem Tidy.outcomes_withTaken (h : state.Tidy)
    (hsettled : state.node.ledger.settled.lookup handle = some outcome) :
    (state.withTaken handle outcome).outcomes.Perm state.outcomes := by
  have hsplit := Ledger.settled_perm_poll h.nodup.of_append_left hsettled
  show ((state.node.ledger.poll handle).1.settled ++ (state.taken ++ [(handle, outcome)])).Perm _
  refine (List.perm_append_singleton (handle, outcome) state.taken).append_left _ |>.trans ?_
  exact List.perm_middle.trans (hsplit.symm.append_right state.taken)

theorem Faithful.acts (h : state.Faithful) (htidy : state.Tidy) (hact : state.Acts next) :
    next.Faithful := by
  cases hact with
  | rest => exact h
  | @noted _ _ _ node opened hstart _ =>
    have hrequests := (requests_withOpened state node opened).symm.subset
    refine h.mono (List.Subset.trans (List.subset_cons_self ..) hrequests) (List.Subset.refl _)
      (fun _ => .inl) fun item hitem => .inl ?_
    rw [Exchange.outcomes, ← Node.settled_startRequest hstart]
    exact hitem
  | sent hget =>
    exact h.mono (requests_withReturned hget).symm.subset (List.Subset.refl _) (fun _ => .inl)
      fun _ => .inl
  | refused hget =>
    exact h.mono (requests_withRefused hget).symm.subset (List.Subset.refl _) (fun _ => .inl)
      fun _ => .inl
  | unheeded message source =>
    exact h.mono (List.Subset.refl _) (List.subset_append_left ..) (fun _ => .inl) fun _ => .inl
  | @claimed message source _ _ _ hclaim =>
    obtain ⟨houtcome, htoken, hanswers, entry, hentry, rfl, rfl⟩ := Ledger.claim?_eq_some hclaim
    refine h.mono (List.Subset.refl _) (List.subset_append_left ..) (fun item hitem => ?_)
      fun _ => .inl
    rcases List.mem_append.mp hitem with hitem | hitem
    · exact .inl hitem
    · obtain rfl := List.mem_singleton.mp hitem
      exact .inr ⟨htidy.known entry.opened (List.mem_map_of_mem hentry), message, source,
        List.mem_append_right _ (List.mem_singleton_self _), htoken.symm, hanswers, houtcome⟩
  | @filed _ opened outcome hget =>
    obtain ⟨hrequest, hanswer⟩ := h.delivering _ (List.mem_of_getElem? hget)
    refine h.mono (List.Subset.refl _) (List.Subset.refl _)
      (fun item hitem => .inl (List.mem_of_mem_eraseIdx hitem)) fun item hitem => ?_
    refine (mem_outcomes_of_filed hitem).imp_right fun hitem => .inr ?_
    obtain rfl := List.mem_singleton.mp hitem
    exact ⟨opened, hrequest, rfl, hanswer⟩
  -- What a tick or a shutdown files are timeouts.
  | ticked now =>
    refine h.mono (List.Subset.refl _) (List.Subset.refl _) (fun _ => .inl) fun item hitem => ?_
    exact (mem_outcomes_of_filed hitem).imp_right fun hitem =>
      .inl (Ledger.eq_timeout_of_mem_timeouts hitem)
  | closed =>
    refine h.mono (List.Subset.refl _) (List.Subset.refl _) (fun _ => .inl) fun item hitem => ?_
    exact (mem_outcomes_of_filed hitem).imp_right fun hitem =>
      .inl (Ledger.eq_timeout_of_mem_timeouts hitem)
  | taken hsettled =>
    exact h.mono (List.Subset.refl _) (List.Subset.refl _) (fun _ => .inl) fun item hitem =>
      .inl ((htidy.outcomes_withTaken hsettled).subset hitem)

/-! ### Exactly once -/

/-- The number of entries that the ledger has for a handle. -/
def entryCount (state : Exchange) (handle : Handle) : Nat :=
  state.node.ledger.pending.countP (·.handle == handle)

/-- The number of outcomes that are still to be filed for a handle. -/
def deliveryCount (state : Exchange) (handle : Handle) : Nat :=
  state.delivering.countP (·.1.handle == handle)

/-- The number of outcomes that were filed for a handle. -/
def outcomeCount (state : Exchange) (handle : Handle) : Nat :=
  state.outcomes.countP (·.1 == handle)

theorem count_handles (state : Exchange) (handle : Handle) :
    state.handles.count handle =
      state.entryCount handle + state.deliveryCount handle + state.outcomeCount handle := by
  simp only [handles, Ledger.handles, Ledger.unanswered, List.count,
    List.countP_map, entryCount, deliveryCount, outcomeCount, outcomes, List.countP_append]
  simp only [Function.comp_def, Pending.opened]
  omega

theorem Tidy.count_eq_one (h : state.Tidy) (hopened : opened ∈ state.returned) :
    state.entryCount opened.handle + state.deliveryCount opened.handle +
      state.outcomeCount opened.handle = 1 := by
  rw [← count_handles]
  exact List.count_eq_one_of_mem h.nodup (h.live opened (List.mem_append_right _ hopened))

/-! ### Finality and shutdown -/

/-- No step loses an outcome. -/
theorem Tidy.outcomes_subset (h : state.Tidy) (hact : state.Acts next) :
    state.outcomes ⊆ next.outcomes := by
  have hfiled : ∀ filed : List (Handle × Outcome),
      state.outcomes ⊆ state.node.ledger.settled ++ filed ++ state.taken := by
    intro filed item hitem
    rw [List.append_assoc]
    rcases List.mem_append.mp hitem with hitem | hitem
    · exact List.mem_append_left _ hitem
    · exact List.mem_append_right _ (List.mem_append_right _ hitem)
  cases hact with
  | rest | sent | refused | unheeded => exact List.Subset.refl _
  | noted hstart =>
    intro item hitem
    rw [outcomes, ← Node.settled_startRequest hstart] at hitem
    exact hitem
  | claimed hclaim =>
    obtain ⟨-, -, -, entry, -, -, rfl⟩ := Ledger.claim?_eq_some hclaim
    exact List.Subset.refl _
  | filed | ticked | closed => exact hfiled _
  | taken hsettled => exact (h.outcomes_withTaken hsettled).symm.subset

theorem Tidy.outcomes_subset_run (h : state.Tidy) (events : List Event) :
    state.outcomes ⊆ (state.run events).outcomes := by
  refine (run_keeps (fun later => later.Tidy ∧ state.outcomes ⊆ later.outcomes) ?_
    ⟨h, List.Subset.refl _⟩ events).2
  rintro later next hact ⟨htidy, hsub⟩
  exact ⟨htidy.acts hact, List.Subset.trans hsub (htidy.outcomes_subset hact)⟩

/-- A closed ledger stays closed. -/
theorem Acts.closed_of_closed (hact : state.Acts next)
    (hclosed : state.node.ledger.closed = true) : next.node.ledger.closed = true := by
  cases hact with
  | rest | sent | refused | unheeded | filed | ticked => exact hclosed
  | noted hstart =>
    rw [Node.startRequest_of_closed hclosed] at hstart
    exact absurd hstart (by simp)
  | claimed hclaim =>
    obtain ⟨-, -, -, entry, -, -, rfl⟩ := Ledger.claim?_eq_some hclaim
    exact hclosed
  | closed => rfl
  | taken => exact (Ledger.closed_poll ..).trans hclosed

theorem closed_run (hclosed : state.node.ledger.closed = true) (events : List Event) :
    (state.run events).node.ledger.closed = true :=
  run_keeps (·.node.ledger.closed = true) (fun _ _ hact => hact.closed_of_closed) hclosed events

theorem Faithful.run (h : state.Faithful) (htidy : state.Tidy) (events : List Event) :
    (state.run events).Faithful :=
  (run_keeps (fun later => later.Tidy ∧ later.Faithful)
    (fun _ _ hact hkept => ⟨hkept.1.acts hact, hkept.2.acts hkept.1 hact⟩) ⟨htidy, h⟩ events).2

/-! ### The main result -/

/-- What the threads of an exchange may rely on. -/
structure Conclusive (state : Exchange) : Prop where
  /-- A request is noted behind the others, under a token that none of them has. -/
  noted : ∀ destination asked now node opened,
    state.node.startRequest destination asked now = .ok (node, opened) →
      opened.transaction ∉ state.node.ledger.transactions ∧
        node.ledger.pending = state.node.ledger.pending ++ [⟨opened.transaction, opened.handle,
          opened.datagram, now, state.node.ledger.maxTries - 1⟩]
  /-- A request whose handle was given out has its entry and no outcome, or no entry and one
  outcome, which is filed or is with the thread that took the entry. -/
  once : ∀ opened ∈ state.returned,
    (state.entryCount opened.handle = 1 ∧ state.deliveryCount opened.handle = 0 ∧
        state.outcomeCount opened.handle = 0) ∨
      (state.entryCount opened.handle = 0 ∧
        state.deliveryCount opened.handle + state.outcomeCount opened.handle = 1)
  /-- Its outcome is that of an answer with its token from its destination, or that time ran out. -/
  sound : ∀ opened ∈ state.returned, ∀ outcome, (opened.handle, outcome) ∈ state.outcomes →
    outcome = .failed .timeout ∨ state.Heard opened outcome
  /-- Its outcome is final. -/
  final : ∀ later, state.outcomes ⊆ (state.run later).outcomes
  /-- A message that is not the answer to an unanswered request changes nothing, and its sender is
  not noted. -/
  unheeded : ∀ message source,
    (∀ opened ∈ state.node.ledger.unanswered, opened.transaction = message.transaction →
      opened.datagram.destination.answers source = false) →
    state.perform (.hear message source) =
        { state with heard := state.heard ++ [(message, source)] } ∧
      ∀ now, state.node.receiveAnswer message source now = (state.node, [])
  /-- An answer to an unanswered request concludes it. -/
  heeded : ∀ message source outcome, ∀ opened ∈ state.node.ledger.unanswered,
    opened.transaction = message.transaction →
      opened.datagram.destination.answers source = true →
        Ledger.outcomeOf? message source = some outcome →
          (state.perform (.hear message source)).delivering =
              state.delivering ++ [(opened, outcome)] ∧
            (state.perform (.hear message source)).entryCount opened.handle = 0
  /-- Taking a request off the ledger and filing its outcome comes to what the node does as it takes
  in an answer. -/
  whole : ∀ message source, state.node.ledger.resolve? message source =
    (state.node.ledger.claim? message source).map fun (ledger, opened, outcome) =>
      ledger.file opened.handle outcome
  /-- So a thread whose two steps nothing comes between has done the same. -/
  undisturbed : ∀ message source,
    ((state.perform (.hear message source)).perform (.file state.delivering.length)).node.ledger =
      (state.node.ledger.resolve? message source).getD state.node.ledger
  /-- A request that could not be sent has no entry. -/
  refused : ∀ opened ∈ state.refused, state.entryCount opened.handle = 0
  /-- After a shutdown there is no entry, and no request is sent. -/
  shut : ∀ later, ((state.perform .shutdown).run later).node.ledger.pending = [] ∧
    ∀ destination asked now, ((state.perform .shutdown).run later).node.startRequest destination
      asked now = .error .timeout

theorem Tidy.once (h : state.Tidy) (hopened : opened ∈ state.returned) :
    (state.entryCount opened.handle = 1 ∧ state.deliveryCount opened.handle = 0 ∧
        state.outcomeCount opened.handle = 0) ∨
      (state.entryCount opened.handle = 0 ∧
        state.deliveryCount opened.handle + state.outcomeCount opened.handle = 1) := by
  have hcount := h.count_eq_one hopened
  omega

theorem Faithful.sound (h : state.Faithful) (htidy : state.Tidy) (hopened : opened ∈ state.returned)
    (houtcome : (opened.handle, outcome) ∈ state.outcomes) :
    outcome = .failed .timeout ∨ state.Heard opened outcome := by
  refine (h.outcomes _ houtcome).imp_right ?_
  rintro ⟨other, hother, hhandle, hheard⟩
  have hknown : opened ∈ state.requests :=
    List.mem_append_right _ (List.mem_append_left _ hopened)
  obtain rfl := htidy.eq_of_handle_eq hother hknown hhandle
  exact hheard

theorem Tidy.entryCount_of_refused (h : state.Tidy) (hopened : opened ∈ state.refused) :
    state.entryCount opened.handle = 0 := by
  refine List.countP_eq_zero.mpr fun entry hentry heq => ?_
  have hunanswered : entry.opened ∈ state.node.ledger.unanswered := List.mem_map_of_mem hentry
  have hknown : opened ∈ state.requests :=
    List.mem_append_right _ (List.mem_append_right _ hopened)
  have hsame : entry.opened = opened :=
    h.eq_of_handle_eq (h.known _ hunanswered) hknown (eq_of_beq heq)
  exact h.refused opened hopened (hsame ▸ hunanswered)

theorem Tidy.pending_of_closed (h : state.Tidy) (hclosed : state.node.ledger.closed = true) :
    state.node.ledger.pending = [] :=
  List.map_eq_nil_iff.mp (h.closed hclosed)

/-- Noting a request leaves the entries that are there. -/
theorem pending_of_noted (hstart : state.node.startRequest destination asked now =
      .ok (node, opened)) :
    opened.transaction ∉ state.node.ledger.transactions ∧
      node.ledger.pending = state.node.ledger.pending ++ [⟨opened.transaction, opened.handle,
        opened.datagram, now, state.node.ledger.maxTries - 1⟩] := by
  obtain ⟨-, hfresh, hhandle, -, draws, rfl⟩ := Node.startRequest_eq_ok hstart
  rw [hhandle]
  exact ⟨hfresh, rfl⟩

theorem hear_of_no_match (h : ∀ opened ∈ state.node.ledger.unanswered,
    opened.transaction = message.transaction →
      opened.datagram.destination.answers source = false) :
    state.perform (.hear message source) =
        { state with heard := state.heard ++ [(message, source)] } ∧
      ∀ now, state.node.receiveAnswer message source now = (state.node, []) := by
  have hclaim := Ledger.claim?_eq_none h
  refine ⟨perform_hear_none hclaim, fun now => ?_⟩
  rw [Node.receiveAnswer, Ledger.resolve?_eq_map_claim?, hclaim]
  rfl

/-- Both steps of a thread that takes in an answer, one right after the other. -/
theorem ledger_file_hear (state : Exchange) (message : Message) (source : Endpoint) :
    ((state.perform (.hear message source)).perform (.file state.delivering.length)).node.ledger =
      (state.node.ledger.resolve? message source).getD state.node.ledger := by
  rw [Ledger.resolve?_eq_map_claim?]
  cases hclaim : state.node.ledger.claim? message source with
  | none =>
    rw [perform_hear_none hclaim]
    simp [perform]
  | some claimed =>
    obtain ⟨ledger, opened, outcome⟩ := claimed
    simp [perform, hclaim, withLedger]

theorem Tidy.hear_of_match (h : state.Tidy) (hopened : opened ∈ state.node.ledger.unanswered)
    (htoken : opened.transaction = message.transaction)
    (hanswers : opened.datagram.destination.answers source = true)
    (houtcome : Ledger.outcomeOf? message source = some outcome) :
    (state.perform (.hear message source)).delivering = state.delivering ++ [(opened, outcome)] ∧
      (state.perform (.hear message source)).entryCount opened.handle = 0 := by
  obtain ⟨entry, hentry, rfl⟩ := List.mem_map.mp hopened
  have hclaim := Ledger.claim?_of_mem h.tokens hentry htoken hanswers houtcome
  have hdelivering : (state.perform (.hear message source)).delivering =
      state.delivering ++ [(entry.opened, outcome)] := by
    simp only [perform, hclaim]
  have hdelivered : 0 < (state.perform (.hear message source)).deliveryCount
      entry.opened.handle := by
    rw [deliveryCount, hdelivering]
    refine List.countP_pos_iff.mpr ⟨(entry.opened, outcome), ?_, beq_self_eq_true _⟩
    exact List.mem_append_right _ (List.mem_singleton_self _)
  -- The handle is at one place only, and that is with the outcome.
  have hnodup := (h.acts (state.acts_perform (.hear message source))).nodup
  have hcount := List.nodup_iff_count_le_one.mp hnodup entry.opened.handle
  rw [count_handles] at hcount
  exact ⟨hdelivering, by omega⟩

theorem Tidy.shut (h : state.Tidy) (later : List Event) :
    ((state.perform .shutdown).run later).node.ledger.pending = [] ∧
      ∀ destination asked now, ((state.perform .shutdown).run later).node.startRequest destination
        asked now = .error .timeout := by
  have hclosed : ((state.perform .shutdown).run later).node.ledger.closed = true :=
    closed_run rfl later
  have hlater := (h.acts (state.acts_perform .shutdown)).run later
  exact ⟨hlater.pending_of_closed hclosed, Node.startRequest_of_closed hclosed⟩

/-- Every request concludes exactly once, in whatever order the threads make their steps. -/
theorem concludes_once (config : Config) (address : Endpoint) (draws : Draws) (now : Time)
    (events : List Event) : ((start config address draws now).run events).Conclusive := by
  have htidy := (tidy_start config address draws now).run events
  have hfaithful := (faithful_start config address draws now).run (tidy_start ..) events
  generalize (start config address draws now).run events = state at htidy hfaithful
  constructor
  case noted =>
    intro destination asked now node opened hstart
    exact pending_of_noted hstart
  case once =>
    intro opened hopened
    exact htidy.once hopened
  case sound =>
    intro opened hopened outcome houtcome
    exact hfaithful.sound htidy hopened houtcome
  case final => exact htidy.outcomes_subset_run
  case unheeded =>
    intro message source h
    exact hear_of_no_match h
  case heeded =>
    intro message source outcome opened hopened htoken hanswers houtcome
    exact htidy.hear_of_match hopened htoken hanswers houtcome
  case whole => exact state.node.ledger.resolve?_eq_map_claim?
  case undisturbed => exact state.ledger_file_hear
  case refused =>
    intro opened hopened
    exact htidy.entryCount_of_refused hopened
  case shut => exact htidy.shut

end Exchange

end Kademlia
