import Kademlia.Proofs.Ledger.Accounts
import Kademlia.Proofs.Ledger.Retries

/-!
# Kademlia.Proofs.Ledger.Waiting

Whoever waits for the outcome of a request looks at the ledger time and again and takes the first
outcome that there is, until patience is at an end (`Ledger.wait?`). The patience is reckoned from
the settings alone. If the ledger looks at its requests at least once in every timeout, it lasts:
the caller gets the outcome that the request ends with (`Ledger.wait?_eq_conclusion`). But the
number of sendings counts as a number of 32 bits, so it does not last if a request may be sent more
often than that (`Ledger.wait?_of_too_many_tries`).

At any time a request is unanswered, or it has been given the one outcome that is then found under
its handle (`Ledger.Standing`). So the first outcome that is found is the first that was given.
-/

namespace Kademlia

namespace Ledger

variable {ledger : Ledger} {entry : Pending} {handle : Handle} {outcome : Outcome}
  {outcomes : List Outcome} {operation : Operation} {earlier later : List Operation}

/-! ### Conclusions -/

/-- The outcomes that a request is given. -/
def conclusions (ledger : Ledger) (handle : Handle) (operations : List Operation) : List Outcome :=
  (ledger.story handle operations).filterMap Notice.outcome?

theorem run_append (ledger : Ledger) (earlier later : List Operation) :
    ledger.run (earlier ++ later) = (ledger.run earlier).run later := List.foldl_append

theorem story_append (ledger : Ledger) (handle : Handle) (earlier later : List Operation) :
    ledger.story handle (earlier ++ later) =
      ledger.story handle earlier ++ (ledger.run earlier).story handle later := by
  induction earlier generalizing ledger with
  | nil => rfl
  | cons operation earlier ih =>
    rw [List.cons_append, story, story, ih, List.append_assoc]
    rfl

theorem conclusions_append (ledger : Ledger) (handle : Handle) (earlier later : List Operation) :
    ledger.conclusions handle (earlier ++ later) =
      ledger.conclusions handle earlier ++ (ledger.run earlier).conclusions handle later := by
  rw [conclusions, story_append, List.filterMap_append, conclusions, conclusions]

theorem conclusions_cons (ledger : Ledger) (handle : Handle) (operation : Operation)
    (rest : List Operation) :
    ledger.conclusions handle (operation :: rest) =
      (ledger.noticesOf handle operation).filterMap Notice.outcome? ++
        (ledger.perform operation).conclusions handle rest := by
  rw [conclusions, story, List.filterMap_append, conclusions]

/-- A request that is unanswered after an operation is given no outcome by it. -/
theorem Turns.outcomes_eq_nil {timeout : Duration} {notices : List Notice} {next : Pending}
    (h : Turns timeout entry operation notices [next]) :
    notices.filterMap Notice.outcome? = [] := by
  cases h <;> rfl

/-- With the operation that ends it, a request is given one outcome. -/
theorem Turns.exists_outcome {timeout : Duration} {notices : List Notice}
    (h : Turns timeout entry operation notices []) :
    ∃ outcome, notices.filterMap Notice.outcome? = [outcome] := by
  cases h <;> exact ⟨_, rfl⟩

/-! ### Outcomes that nobody has taken -/

/-- Nobody is handed the outcome under a handle: whoever asks for it asks too early. -/
def Untaken (ledger : Ledger) (handle : Handle) : List Operation → Prop
  | [] => True
  | operation :: rest =>
    (operation = .poll handle → (ledger.poll handle).2 = none) ∧
      (ledger.perform operation).Untaken handle rest

theorem Untaken.of_append (h : ledger.Untaken handle (earlier ++ later)) :
    ledger.Untaken handle earlier := by
  induction earlier generalizing ledger with
  | nil => trivial
  | cons operation earlier ih => exact ⟨h.1, ih h.2⟩

/-- A filed outcome stays until it is handed out. -/
theorem Orderly.mem_settled_perform (h : ledger.Orderly)
    (hitem : (handle, outcome) ∈ ledger.settled)
    (huntaken : operation = .poll handle → (ledger.poll handle).2 = none) :
    (handle, outcome) ∈ (ledger.perform operation).settled := by
  by_cases hpoll : ∃ other, operation = .poll other
  · obtain ⟨other, rfl⟩ := hpoll
    have hlookup := h.lookup_settled hitem
    have hne : handle ≠ other := by
      rintro rfl
      have hnone := huntaken rfl
      rw [Ledger.snd_poll, hlookup, Option.some_or] at hnone
      cases hnone
    exact mem_settled_of_lookup ((ledger.lookup_settled_poll hne).trans hlookup)
  · rw [settled_perform ledger fun other heq => hpoll ⟨other, heq⟩]
    exact List.mem_append_left _ hitem

theorem Orderly.mem_settled_run (h : ledger.Orderly) (hitem : (handle, outcome) ∈ ledger.settled)
    (huntaken : ledger.Untaken handle later) :
    (handle, outcome) ∈ (ledger.run later).settled := by
  induction later generalizing ledger with
  | nil => exact hitem
  | cons operation rest ih =>
    exact ih (h.becomes (ledger.becomes_perform operation))
      (h.mem_settled_perform hitem huntaken.1) huntaken.2

/-! ### How a request stands -/

/-- How a request stands with a ledger, if it was given these outcomes. -/
inductive Standing (ledger : Ledger) (handle : Handle) : List Outcome → Prop where
  | unanswered (h : ledger.isPending handle = true) : Standing ledger handle []
  | concluded {outcome : Outcome} (h : (handle, outcome) ∈ ledger.settled) :
      Standing ledger handle [outcome]

/-- A request is given no second outcome. -/
theorem Standing.eq_singleton (h : ledger.Standing handle outcomes) (hmem : outcome ∈ outcomes) :
    outcomes = [outcome] := by
  cases h with
  | unanswered => exact absurd hmem List.not_mem_nil
  | concluded => rw [List.mem_singleton.mp hmem]

/-- What is handed out for a request is the outcome that it was given. -/
theorem Standing.snd_poll (h : ledger.Standing handle outcomes) (horderly : ledger.Orderly) :
    (ledger.poll handle).2 = outcomes.head? := by
  rw [Ledger.snd_poll]
  cases h with
  | unanswered h =>
    cases hlookup : ledger.settled.lookup handle with
    | none => rw [h, Option.none_or, if_pos rfl, List.head?_nil]
    | some outcome =>
      rw [horderly.isPending_eq_false (mem_settled_of_lookup hlookup)] at h
      cases h
  | concluded h => rw [horderly.lookup_settled h, Option.some_or, List.head?_cons]

/-- While nobody takes its outcome, a request is unanswered or has its one outcome. -/
theorem standing_run (h : ledger.Orderly) (hentry : entry ∈ ledger.pending)
    (huntaken : ledger.Untaken entry.handle later) :
    (ledger.run later).Standing entry.handle (ledger.conclusions entry.handle later) := by
  induction later generalizing ledger entry with
  | nil => exact .unanswered (isPending_iff.mpr ⟨entry, hentry, rfl⟩)
  | cons operation rest ih =>
    have hbecomes := ledger.becomes_perform operation
    rw [conclusions_cons]
    rcases ends_or_lasts h hentry operation with ⟨hheld, hturn⟩ | ⟨next, hnext, hhandle, hturn⟩
    · -- The request ends here. Its outcome is filed, and stays where it is.
      obtain ⟨outcome, houtcome⟩ := hturn.exists_outcome
      have hlt := Nat.lt_of_lt_of_le (h.handle_lt hentry) hbecomes.nextHandle_le
      have hfiled : (entry.handle, outcome) ∈ (ledger.perform operation).settled :=
        filed_of_noticesOf (houtcome ▸ List.mem_singleton_self _)
      rw [houtcome, conclusions, (story_of_held_eq_nil hlt hheld rest).1]
      exact .concluded ((h.becomes hbecomes).mem_settled_run hfiled huntaken.2)
    · rw [hturn.outcomes_eq_nil, List.nil_append, ← hhandle]
      exact ih (h.becomes hbecomes) hnext (hhandle ▸ huntaken.2)

/-! ### Looking for an outcome -/

/-- The outcome that a caller takes who looks at one ledger after the other: the first that there
is, and after the last look that the time is up. -/
def firstOutcome (handle : Handle) : List Ledger → Outcome
  | [] => .failed .timeout
  | ledger :: rest => (ledger.poll handle).2.getD (firstOutcome handle rest)

/-- The ledger as it is at first and after each operation. -/
def views (ledger : Ledger) : List Operation → List Ledger
  | [] => [ledger]
  | operation :: rest => ledger :: (ledger.perform operation).views rest

/-- Whoever looks after each operation takes the outcome that the request was given. -/
theorem firstOutcome_views (h : ledger.Orderly) (hentry : entry ∈ ledger.pending)
    (huntaken : ledger.Untaken entry.handle (earlier ++ later)) :
    firstOutcome entry.handle ((ledger.run earlier).views later) =
      (ledger.conclusions entry.handle (earlier ++ later)).head?.getD (.failed .timeout) := by
  have hpoll {earlier later : List Operation}
      (huntaken : ledger.Untaken entry.handle (earlier ++ later)) :
      ((ledger.run earlier).poll entry.handle).2 =
        (ledger.conclusions entry.handle earlier).head? :=
    (standing_run h hentry huntaken.of_append).snd_poll (h.becomes (ledger.becomes_run earlier))
  induction later generalizing earlier with
  | nil => rw [views, firstOutcome, hpoll huntaken, firstOutcome, List.append_nil]
  | cons operation later ih =>
    have hsplit : earlier ++ operation :: later = (earlier ++ [operation]) ++ later := by simp
    have hrun : (ledger.run earlier).perform operation = ledger.run (earlier ++ [operation]) := by
      rw [run_append]
      rfl
    rw [views, firstOutcome, hpoll huntaken, hrun, ih (hsplit ▸ huntaken), ← hsplit,
      conclusions_append, List.head?_append]
    cases (ledger.conclusions entry.handle earlier).head? <;> rfl

/-! ### Patience -/

/-- The time that an operation takes from the clock. -/
def Operation.time? : Operation → Option Time
  | .send _ _ now _ | .tick now => some now
  | .hear .. | .close | .poll _ => none

/-- Something that is done with a ledger, and when. -/
structure Event where
  now : Time
  operation : Operation
  /-- An operation that takes its time from the clock takes this one. -/
  timely : operation.time?.getD now = now

/-- What is done with a ledger, whenever it is. -/
def Event.operations (events : List Event) : List Operation := events.map Event.operation

/-- The outcome of a request for a caller who starts to wait for it at some time, if these events
come then. There is none if the end of the caller's patience cannot be reckoned. -/
def wait? (ledger : Ledger) (handle : Handle) (now : Time) (events : List Event) :
    Option Outcome :=
  (ledger.patience?.bind (Time.after? now ·)).map fun deadline =>
    firstOutcome handle (ledger.views (Event.operations (events.takeWhile (·.now ≤ deadline))))

/-- There is a time in every period of a length that is between a start and an end. -/
def Dense (times : List Time) (period : Duration) (start stop : Time) : Prop :=
  ∀ now, start ≤ now → now + period ≤ stop → ∃ time ∈ times, now < time ∧ time ≤ now + period

namespace Event

variable {events : List Event} {deadline : Time}

theorem operations_append (earlier later : List Event) :
    operations (earlier ++ later) = operations earlier ++ operations later := List.map_append

/-- Ticks are among the times of events. -/
theorem ticks_sublist (events : List Event) :
    (ticks (operations events)).Sublist (events.map Event.now) := by
  induction events with
  | nil => exact .slnil
  | cons event rest ih =>
    obtain ⟨now, operation, htimely⟩ := event
    cases operation with
    | tick time =>
      obtain rfl : time = now := htimely
      exact ih.cons_cons time
    | send | hear | close | poll => exact ih.cons now

/-- From the first event on that comes after a deadline, they all do. -/
theorem lt_of_mem_dropWhile (hsorted : (events.map Event.now).Pairwise (· ≤ ·)) {event : Event}
    (h : event ∈ events.dropWhile (·.now ≤ deadline)) : deadline < event.now := by
  induction events with
  | nil => exact absurd h List.not_mem_nil
  | cons first rest ih =>
    obtain ⟨hfirst, hrest⟩ := List.pairwise_cons.mp hsorted
    by_cases hle : first.now ≤ deadline
    · rw [List.dropWhile_cons_of_pos (by simpa using hle)] at h
      exact ih hrest h
    · rw [List.dropWhile_cons_of_neg (by simpa using hle)] at h
      have hlt := Nat.lt_of_not_le hle
      rcases List.mem_cons.mp h with rfl | h
      · exact hlt
      · exact Nat.lt_of_lt_of_le hlt (hfirst _ (List.mem_map_of_mem h))

end Event

/-- How long a caller has patience, if the sendings can be counted and the time reckoned. -/
theorem patience?_eq (htries : ledger.maxTries < 1 <<< 32)
    (hlimit : ledger.timeout * ledger.maxTries * 2 < Duration.limit) :
    ledger.patience? = some (ledger.timeout * ledger.maxTries * 2) := by
  have hhalf : ledger.timeout * ledger.maxTries < Duration.limit :=
    Nat.lt_of_le_of_lt (Nat.le_mul_of_pos_right _ Nat.two_pos) hlimit
  rw [patience?, maxWait?, Nat.mod_eq_of_lt htries, Duration.times?, if_pos hhalf,
    Option.bind_some, Duration.times?, if_pos hlimit]

/-- Patience does not depend on what is done with a ledger. -/
theorem patience?_run (ledger : Ledger) (operations : List Operation) :
    (ledger.run operations).patience? = ledger.patience? := by
  obtain ⟨htimeout, htries⟩ := (ledger.becomes_run operations).settings
  rw [patience?, maxWait?, htimeout, htries, patience?, maxWait?]

/-- Whoever waits looks at the ledger after everything that comes up to the end of patience. -/
theorem wait?_eq {patience : Duration} {now : Time} {events : List Event}
    (hpatience : ledger.patience? = some patience) (hclock : now + patience < Time.limit) :
    ledger.wait? handle now events = some (firstOutcome handle
      (ledger.views (Event.operations (events.takeWhile (·.now ≤ now + patience))))) := by
  rw [wait?, hpatience, Option.bind_some, Time.after?, if_pos hclock, Option.map_some]

/-- A request that is registered is in an orderly ledger with the settings that it began with, and
may be sent again as often as they say. -/
theorem exists_entry_of_run {timeout : Duration} {maxTries : Nat} {before : List Operation}
    {transaction : TransactionId} {datagram : Datagram} {start : Time}
    (hsend : ((new timeout maxTries).run before).register transaction datagram start =
      some (ledger, handle)) :
    ledger.Orderly ∧ ledger.timeout = timeout ∧ ledger.maxTries = max maxTries 1 ∧
      ∃ entry ∈ ledger.pending, entry.handle = handle ∧ entry.sentAt = start ∧
        entry.retries + 1 = max maxTries 1 := by
  have hbefore := (new timeout maxTries).becomes_run before
  obtain ⟨entry, hentry, hhandle, -, hstart, hretries⟩ := exists_entry_of_register hsend
  have hnoted : ((new timeout maxTries).run before).Becomes ledger := by
    have hperform := becomes_perform ((new timeout maxTries).run before)
      (.send transaction datagram start true)
    rwa [perform, hsend] at hperform
  have hbecomes : (new timeout maxTries).Becomes ledger := hbefore.trans hnoted
  refine ⟨(orderly_new timeout maxTries).becomes hbecomes, hbecomes.settings.1,
    hbecomes.settings.2, entry, hentry, hhandle, hstart, ?_⟩
  rw [hretries, hbefore.settings.2]
  exact Nat.sub_add_cancel (Nat.le_max_right ..)

/-- With a tick in every timeout, a request is given its one outcome by the time when each sending
has taken two timeouts. -/
theorem exists_conclusion (h : ledger.Orderly) (hentry : entry ∈ ledger.pending)
    {earlier later : List Event} {deadline : Time}
    (hsorted : (entry.sentAt :: (earlier ++ later).map Event.now).Pairwise (· ≤ ·))
    (huntaken : ledger.Untaken entry.handle (Event.operations (earlier ++ later)))
    (hdense : Dense (ticks (Event.operations (earlier ++ later))) ledger.timeout entry.sentAt
      deadline)
    (hdeadline : entry.sentAt + (entry.retries + 1) * (ledger.timeout + ledger.timeout) ≤ deadline)
    (hlater : ∀ event ∈ later, deadline < event.now) :
    ∃ outcome, ledger.conclusions entry.handle (Event.operations earlier) = [outcome] ∧
      ledger.conclusions entry.handle (Event.operations (earlier ++ later)) = [outcome] := by
  have hticks := hsorted.sublist ((Event.ticks_sublist (earlier ++ later)).cons_cons entry.sentAt)
  have hstanding := standing_run h hentry huntaken
  rw [Event.operations_append] at hdense huntaken hticks hstanding ⊢
  have hrest : ∀ tick ∈ ticks (Event.operations later), deadline < tick := by
    intro tick htick
    obtain ⟨event, hevent, rfl⟩ := List.mem_map.mp ((Event.ticks_sublist later).subset htick)
    exact hlater event hevent
  have hunfolds := unfolds_story h hentry (Event.operations earlier)
  obtain ⟨-, notice, hnotice, houtcome⟩ := hunfolds.prompt hticks
    (fun now hnow => hdense now (Nat.le_trans (Nat.le_add_right ..) hnow)) hdeadline hrest
  obtain ⟨outcome, houtcome⟩ := Option.ne_none_iff_exists'.mp houtcome
  have hmem : outcome ∈ ledger.conclusions entry.handle (Event.operations earlier) :=
    List.mem_filterMap.mpr ⟨notice, hnotice, houtcome⟩
  refine ⟨outcome, (standing_run h hentry huntaken.of_append).eq_singleton hmem,
    hstanding.eq_singleton ?_⟩
  rw [conclusions_append]
  exact List.mem_append_left _ hmem

/-- **Waiting does not give up early.** If the ledger looks at its requests at least once in every
timeout, a request ends in one way, and whoever waits for it gets that outcome, however the other
operations on the ledger come in between. The sendings have to be counted with 32 bits, and the
clock has to get to the end of the caller's patience. -/
theorem wait?_eq_conclusion (timeout : Duration) (maxTries : Nat) (before : List Operation)
    {transaction : TransactionId} {datagram : Datagram} {start called : Time}
    {early late : List Event}
    (hsend : ((new timeout maxTries).run before).register transaction datagram start =
      some (ledger, handle))
    (hsorted : (start :: early.map Event.now ++ called :: late.map Event.now).Pairwise (· ≤ ·))
    (huntaken : ledger.Untaken handle (Event.operations (early ++ late)))
    (hdense : Dense (ticks (Event.operations (early ++ late))) timeout start
      (called + timeout * max maxTries 1 * 2))
    (htries : maxTries < 1 <<< 32) (hclock : called + timeout * max maxTries 1 * 2 < Time.limit) :
    ∃ outcome, ledger.conclusions handle (Event.operations (early ++ late)) = [outcome] ∧
      (ledger.run (Event.operations early)).wait? handle called late = some outcome := by
  obtain ⟨horderly, rfl, hcount, entry, hentry, rfl, rfl, hretries⟩ := exists_entry_of_run hsend
  have hfew : ledger.maxTries < 1 <<< 32 := hcount ▸ Nat.max_lt.mpr ⟨htries, by decide⟩
  rw [← hcount] at hdense hclock hretries
  have hlimit : ledger.timeout * ledger.maxTries * 2 < Duration.limit :=
    Nat.lt_trans (Nat.lt_of_le_of_lt (Nat.le_add_left ..) hclock) (by decide)
  have hpatience := (ledger.patience?_run (Event.operations early)).trans (patience?_eq hfew hlimit)
  rw [wait?_eq hpatience hclock]
  obtain ⟨-, hcall, hbefore⟩ := List.pairwise_append.mp hsorted
  have hstart : entry.sentAt ≤ called := hbefore _ List.mem_cons_self _ List.mem_cons_self
  have htimes : (entry.sentAt :: (early ++ late).map Event.now).Pairwise (· ≤ ·) := by
    refine hsorted.sublist ?_
    rw [List.map_append]
    exact (List.sublist_cons_self called _).append_left (entry.sentAt :: early.map Event.now)
  have hlong : entry.sentAt + (entry.retries + 1) * (ledger.timeout + ledger.timeout) ≤
      called + ledger.timeout * ledger.maxTries * 2 :=
    calc entry.sentAt + (entry.retries + 1) * (ledger.timeout + ledger.timeout)
        = entry.sentAt + ledger.timeout * ledger.maxTries * 2 := by rw [hretries]; ring
      _ ≤ called + ledger.timeout * ledger.maxTries * 2 := Nat.add_le_add_right hstart _
  generalize called + ledger.timeout * ledger.maxTries * 2 = deadline at hdense hlong ⊢
  -- What comes up to the deadline is seen, and what comes after it is not.
  have hsplit : (early ++ late.takeWhile (·.now ≤ deadline)) ++
      late.dropWhile (·.now ≤ deadline) = early ++ late := by
    rw [List.append_assoc, List.takeWhile_append_dropWhile]
  rw [← hsplit] at htimes huntaken hdense ⊢
  obtain ⟨outcome, hseen, hgiven⟩ := exists_conclusion horderly hentry htimes huntaken hdense hlong
    fun event hevent => Event.lt_of_mem_dropWhile (List.pairwise_cons.mp hcall).2 hevent
  rw [Event.operations_append, Event.operations_append] at huntaken
  rw [Event.operations_append] at hseen
  refine ⟨outcome, hgiven, congrArg some ?_⟩
  rw [firstOutcome_views horderly hentry huntaken.of_append, hseen, List.head?_cons,
    Option.getD_some]

/-- A request of two tries that is answered after the second one. -/
theorem wait?_eq_conclusion_of_two_tries :
    let peer : Endpoint := ⟨.unspecified, 2⟩
    let pong : Message := ⟨.ofNat 7, .zero, .response .pong⟩
    let early : List Event := [⟨1, .poll 1, rfl⟩, ⟨2, .tick 2, rfl⟩]
    let late : List Event := [⟨3, .hear pong peer, rfl⟩, ⟨4, .tick 4, rfl⟩, ⟨6, .tick 6, rfl⟩,
      ⟨8, .tick 8, rfl⟩, ⟨10, .tick 10, rfl⟩]
    ∃ ledger, ((new 2 2).run [.send (.ofNat 5) ⟨peer, []⟩ 0 true]).register (.ofNat 7)
        ⟨peer, [1]⟩ 0 = some (ledger, 1) ∧
      (ledger.run (Event.operations early)).wait? 1 2 late =
        some (.replied ⟨⟨.zero, peer⟩, .pong⟩) := by
  intro peer pong early late
  refine ⟨_, rfl, ?_⟩
  have hdense : ∀ now ≤ 8, ∃ tick ∈ [2, 4, 6, 8, 10], now < tick ∧ tick ≤ now + 2 := by decide
  obtain ⟨outcome, hgiven, hwait⟩ := @wait?_eq_conclusion _ _ 2 2
    [.send (.ofNat 5) ⟨peer, []⟩ 0 true] (.ofNat 7) ⟨peer, [1]⟩ 0 2 early late rfl (by decide)
    ⟨fun _ => rfl, nofun, nofun, nofun, nofun, nofun, nofun, trivial⟩
    (fun now _ hupto => hdense now (Nat.le_of_add_le_add_right hupto)) (by decide) (by decide)
  have hreply : [outcome] = [.replied ⟨⟨.zero, peer⟩, .pong⟩] :=
    hgiven.symm.trans (by decide +kernel)
  exact hwait.trans (congrArg some (List.singleton_inj.mp hreply))

/-- With as many tries as there are numbers of 32 bits, a caller has no patience at all, and gives
up a request that has not even been sent again and is answered after that. -/
theorem wait?_of_too_many_tries :
    let peer : Endpoint := ⟨.unspecified, 2⟩
    let pong : Message := ⟨.ofNat 7, .zero, .response .pong⟩
    let events : List Event := [⟨5000, .tick 5000, rfl⟩, ⟨5001, .hear pong peer, rfl⟩]
    ∃ ledger, (new 5000 (1 <<< 32)).register (.ofNat 7) ⟨peer, [1]⟩ 0 = some (ledger, 0) ∧
      (0 :: events.map Event.now).Pairwise (· ≤ ·) ∧
      ledger.Untaken 0 (Event.operations events) ∧
      Dense (ticks (Event.operations events)) 5000 0 5001 ∧
      ledger.wait? 0 0 events = some (.failed .timeout) ∧ ledger.isPending 0 = true ∧
      ledger.conclusions 0 (Event.operations events) = [.replied ⟨⟨.zero, peer⟩, .pong⟩] := by
  intro peer pong events
  refine ⟨_, rfl, by decide, ⟨nofun, nofun, trivial⟩, ?_, by decide +kernel, rfl, rfl⟩
  intro now _ hupto
  have hnow : now ≤ 1 := Nat.le_of_add_le_add_right hupto
  exact ⟨5000, List.mem_singleton_self _, Nat.lt_of_le_of_lt hnow (by decide),
    Nat.le_add_left 5000 now⟩

end Ledger

end Kademlia
