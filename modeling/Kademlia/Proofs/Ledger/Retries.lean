import Kademlia.Proofs.Ledger.Operations
import Mathlib.Tactic.Ring

/-!
# Kademlia.Proofs.Ledger.Retries

How often and when a request is sent, and by when it has its outcome, whatever else is done with the
ledger meanwhile (`Ledger.punctual_story`). The story of an unanswered request goes on turn by turn
(`Ledger.Unfolds`). What carries the results is that each further sending takes one from the retries
that are left and starts the wait anew.
-/

namespace Kademlia

namespace Ledger

variable {ledger next : Ledger} {entry : Pending} {handle : Handle} {operation : Operation}
  {operations : List Operation}

/-- How the story of an unanswered request goes on, and the request as it is left, if it still is
unanswered. -/
inductive Unfolds (timeout : Duration) :
    Pending → List Operation → List Notice → List Pending → Prop where
  | still (entry : Pending) : Unfolds timeout entry [] [] [entry]
  | lasts {entry next : Pending} {operation : Operation} {rest : List Operation}
      {notices story : List Notice} {left : List Pending}
      (hturn : Turns timeout entry operation notices [next])
      (hrest : Unfolds timeout next rest story left) :
      Unfolds timeout entry (operation :: rest) (notices ++ story) left
  | ends {entry : Pending} {operation : Operation} {notices : List Notice}
      (hturn : Turns timeout entry operation notices []) (rest : List Operation) :
      Unfolds timeout entry (operation :: rest) notices []

theorem unfolds_story (h : ledger.Orderly) (hentry : entry ∈ ledger.pending)
    (operations : List Operation) :
    Unfolds ledger.timeout entry operations (ledger.story entry.handle operations)
      ((ledger.run operations).held entry.handle) := by
  induction operations generalizing ledger entry with
  | nil =>
    rw [run, List.foldl_nil, h.held_eq hentry]
    exact .still entry
  | cons operation rest ih =>
    have hbecomes := ledger.becomes_perform operation
    show Unfolds _ _ _ (_ ++ _) (((ledger.perform operation).run rest).held _)
    rcases ends_or_lasts h hentry operation with ⟨hheld, hturn⟩ | ⟨next, hnext, hhandle, hturn⟩
    · have hlt := Nat.lt_of_lt_of_le (h.handle_lt hentry) hbecomes.nextHandle_le
      obtain ⟨hstory, hrun⟩ := story_of_held_eq_nil hlt hheld rest
      rw [hstory, hrun, List.append_nil]
      exact .ends hturn rest
    · have hrest := ih (h.becomes hbecomes) hnext
      rw [hbecomes.settings.1, hhandle] at hrest
      exact .lasts hturn hrest

variable {timeout period : Duration} {rest : List Operation} {story : List Notice}
  {left : List Pending}

theorem Unfolds.length_sendings_le (h : Unfolds timeout entry operations story left) :
    (sendings story).length ≤ entry.retries := by
  induction h with
  | still => exact Nat.zero_le _
  | lasts hturn _ ih =>
    cases hturn with
    | waits => exact ih
    | repeats hdue hleft =>
      calc (sendings (_ ++ _)).length
          ≤ _ - 1 + 1 := Nat.succ_le_succ ih
        _ = _ := Nat.sub_add_cancel hleft
  | ends hturn =>
    rw [hturn.sendings_eq_nil]
    exact Nat.zero_le _

/-- A request is sent again as it was sent first. -/
theorem Unfolds.datagram_eq (h : Unfolds timeout entry operations story left) :
    ∀ sending ∈ sendings story, sending.2 = entry.datagram := by
  induction h with
  | still => exact List.forall_mem_nil _
  | lasts hturn _ ih =>
    cases hturn with
    | waits => exact ih
    | repeats => exact List.forall_mem_cons.mpr ⟨rfl, ih⟩
  | ends hturn =>
    rw [hturn.sendings_eq_nil]
    exact List.forall_mem_nil _

/-- After an outcome nothing is sent, and there is no other outcome. -/
theorem Unfolds.eq_nil_of_outcome (h : Unfolds timeout entry operations story left)
    {early late : List Notice} {notice : Notice} (hstory : story = early ++ notice :: late)
    (houtcome : notice.outcome? ≠ none) : late = [] := by
  induction h generalizing early with
  | still => simp at hstory
  | lasts hturn _ ih =>
    cases hturn with
    | waits => exact ih hstory
    | repeats =>
      cases early with
      | nil =>
        obtain ⟨rfl, -⟩ := List.cons.inj hstory
        exact absurd rfl houtcome
      | cons _ early => exact ih (List.cons.inj hstory).2
  | ends hturn =>
    cases hturn <;> cases early <;> simp_all

/-- A tick at which a wait is over comes after the whole of it. -/
theorem add_timeout_le {sentAt now : Time} {times : List Time}
    (hsorted : (sentAt :: now :: times).Pairwise (· ≤ ·)) (hdue : timeout ≤ now - sentAt) :
    sentAt + timeout ≤ now :=
  Nat.add_le_of_le_sub' ((List.pairwise_cons.mp hsorted).1 now List.mem_cons_self) hdue

/-- The later sendings are that many timeouts apart, at the least. -/
theorem Unfolds.le_of_getElem?_sendings (h : Unfolds timeout entry operations story left)
    (hsorted : (entry.sentAt :: ticks operations).Pairwise (· ≤ ·)) {index : Nat}
    {sending : Time × Datagram} (hget : (sendings story)[index]? = some sending) :
    entry.sentAt + (index + 1) * timeout ≤ sending.1 := by
  induction h generalizing index with
  | still => exact absurd hget (by simp [sendings])
  | @lasts entry _ operation rest _ _ _ hturn _ ih =>
    cases hturn with
    | waits =>
      exact ih (hsorted.sublist ((ticks_sublist_cons operation rest).cons_cons _)) hget
    | @repeats now hdue =>
      have hnow := add_timeout_le hsorted hdue
      cases index with
      | zero =>
        obtain rfl := Option.some.inj hget
        simpa using hnow
      | succ index =>
        calc entry.sentAt + (index + 1 + 1) * timeout
            = entry.sentAt + timeout + (index + 1) * timeout := by ring
          _ ≤ now + (index + 1) * timeout := Nat.add_le_add_right hnow _
          _ ≤ sending.1 := ih (List.pairwise_cons.mp hsorted).2 hget
  | ends hturn =>
    rw [hturn.sendings_eq_nil] at hget
    exact absurd hget (by simp)

/-- A request is given up after it was sent as often as it could be, and a timeout later. -/
theorem Unfolds.of_expired (h : Unfolds timeout entry operations story left)
    (hsorted : (entry.sentAt :: ticks operations).Pairwise (· ≤ ·)) {now : Time}
    (hexpired : .expired now ∈ story) :
    (sendings story).length = entry.retries ∧
      entry.sentAt + (entry.retries + 1) * timeout ≤ now := by
  induction h with
  | still => exact absurd hexpired List.not_mem_nil
  | @lasts entry _ operation rest _ _ _ hturn _ ih =>
    cases hturn with
    | waits =>
      exact ih (hsorted.sublist ((ticks_sublist_cons operation rest).cons_cons _)) hexpired
    | @repeats last hdue hleft =>
      obtain ⟨hlength, hnow⟩ := ih (List.pairwise_cons.mp hsorted).2
        ((List.mem_cons.mp hexpired).resolve_left (by simp))
      have hretries : entry.retries - 1 + 1 = entry.retries := Nat.sub_add_cancel hleft
      refine ⟨(congrArg (· + 1) hlength).trans hretries, ?_⟩
      calc entry.sentAt + (entry.retries + 1) * timeout
          = entry.sentAt + timeout + entry.retries * timeout := by ring
        _ ≤ last + entry.retries * timeout := Nat.add_le_add_right (add_timeout_le hsorted hdue) _
        _ ≤ now := by simpa only [hretries] using hnow
  | @ends entry _ _ hturn rest =>
    cases hturn with
    | @expires last hdue hleft =>
      obtain rfl : now = last := by simpa using hexpired
      refine ⟨hleft.symm, ?_⟩
      rw [hleft, Nat.zero_add, Nat.one_mul]
      exact add_timeout_le hsorted hdue
    | answered => simp at hexpired
    | dropped => simp at hexpired

/-- A request has its outcome in time, if there is a tick in every period from the end of its first
wait on. Each sending takes a timeout and a period at most. -/
theorem Unfolds.prompt (h : Unfolds timeout entry operations story left)
    (hsorted : (entry.sentAt :: ticks (operations ++ rest)).Pairwise (· ≤ ·)) {deadline : Time}
    (hdense : ∀ now, entry.sentAt + timeout ≤ now → now + period ≤ deadline →
      ∃ tick ∈ ticks (operations ++ rest), now < tick ∧ tick ≤ now + period)
    (hdeadline : entry.sentAt + (entry.retries + 1) * (timeout + period) ≤ deadline)
    (hrest : ∀ tick ∈ ticks rest, deadline < tick) :
    left = [] ∧ ∃ notice ∈ story, notice.outcome? ≠ none := by
  have hfirst : ∀ {sentAt : Time} {retries : Nat},
      sentAt + (retries + 1) * (timeout + period) ≤ deadline →
        sentAt + timeout + period ≤ deadline := by
    intro sentAt retries hle
    refine Nat.le_trans ?_ hle
    rw [Nat.add_assoc]
    exact Nat.add_le_add_left (Nat.le_mul_of_pos_left _ (Nat.succ_pos _)) _
  induction h with
  | still entry =>
    obtain ⟨tick, htick, -, hle⟩ := hdense _ (Nat.le_refl _) (hfirst hdeadline)
    exact absurd (hrest tick htick) (Nat.not_lt_of_le (Nat.le_trans hle (hfirst hdeadline)))
  | @lasts entry _ operation later _ _ _ hturn _ ih =>
    cases hturn with
    | waits hearly =>
      refine ih (hsorted.sublist ((ticks_sublist_cons operation _).cons_cons _)) ?_ hdeadline
      -- A tick that comes too early is none of those that are looked for.
      intro now hnow hupto
      obtain ⟨tick, htick, hlt, hle⟩ := hdense now hnow hupto
      obtain ⟨performed, hmem, hperformed⟩ := List.mem_filterMap.mp htick
      rcases List.mem_cons.mp hmem with rfl | hmem
      · have hearly := hearly tick (by cases performed <;> simp_all)
        have hlate := Nat.le_sub_of_add_le' (Nat.le_trans hnow (Nat.le_of_lt hlt))
        exact absurd hearly (Nat.not_lt_of_le hlate)
      · exact ⟨tick, List.mem_filterMap.mpr ⟨performed, hmem, hperformed⟩, hlt, hle⟩
    | @repeats last hdue hleft =>
      obtain ⟨hle, htail⟩ := List.pairwise_cons.mp hsorted
      have hlast : entry.sentAt ≤ last := hle last List.mem_cons_self
      have htimely : last ≤ entry.sentAt + timeout + period := by
        obtain ⟨tick, htick, -, hupto⟩ := hdense _ (Nat.le_refl _) (hfirst hdeadline)
        rcases List.mem_cons.mp htick with rfl | htick
        · exact hupto
        · exact Nat.le_trans ((List.pairwise_cons.mp htail).1 tick htick) hupto
      have hretries : entry.retries - 1 + 1 = entry.retries := Nat.sub_add_cancel hleft
      have hlater : ∀ now, last + timeout ≤ now → now + period ≤ deadline →
          ∃ tick ∈ ticks (later ++ rest), now < tick ∧ tick ≤ now + period := by
        intro now hnow hupto
        obtain ⟨tick, htick, hlt, hle⟩ :=
          hdense now (Nat.le_trans (Nat.add_le_add_right hlast _) hnow) hupto
        rcases List.mem_cons.mp htick with rfl | htick
        · exact absurd hlt (Nat.not_lt_of_le (Nat.le_trans (Nat.le_add_right ..) hnow))
        · exact ⟨tick, htick, hlt, hle⟩
      have hbound : last + (entry.retries - 1 + 1) * (timeout + period) ≤ deadline := by
        rw [hretries]
        calc last + entry.retries * (timeout + period)
            ≤ entry.sentAt + timeout + period + entry.retries * (timeout + period) :=
              Nat.add_le_add_right htimely _
          _ = entry.sentAt + (entry.retries + 1) * (timeout + period) := by ring
          _ ≤ deadline := hdeadline
      obtain ⟨hnil, notice, hnotice, houtcome⟩ := ih htail hlater hbound
      exact ⟨hnil, notice, List.mem_append_right _ hnotice, houtcome⟩
  | ends hturn =>
    refine ⟨rfl, ?_⟩
    cases hturn <;> exact ⟨_, List.mem_singleton_self _, by simp [Notice.outcome?]⟩

/-- What can be said of every request's sendings. -/
structure Punctual (timeout : Duration) (tries : Nat) (start : Time) (datagram : Datagram)
    (story : List Notice) : Prop where
  first : story.head? = some (.sent start datagram)
  /-- It is not sent more often than allowed. -/
  budget : (sendings story).length ≤ tries
  /-- It is always the same datagram. -/
  verbatim : ∀ sending ∈ sendings story, sending.2 = datagram
  paced : ∀ index sending, (sendings story)[index]? = some sending →
    start + index * timeout ≤ sending.1
  /-- Nobody gives a request up before it was sent as often as allowed and waited for. -/
  exhausted : ∀ now, .expired now ∈ story →
    (sendings story).length = tries ∧ start + tries * timeout ≤ now
  /-- Nothing comes after the outcome. -/
  final : ∀ early notice late, story = early ++ notice :: late → notice.outcome? ≠ none →
    late = []

theorem Unfolds.punctual (h : Unfolds timeout entry operations story left)
    (hsorted : (entry.sentAt :: ticks operations).Pairwise (· ≤ ·)) :
    Punctual timeout (entry.retries + 1) entry.sentAt entry.datagram
      (.sent entry.sentAt entry.datagram :: story) where
  first := rfl
  budget := Nat.succ_le_succ h.length_sendings_le
  verbatim := List.forall_mem_cons.mpr ⟨rfl, h.datagram_eq⟩
  paced := by
    intro index sending hget
    cases index with
    | zero =>
      obtain rfl := Option.some.inj hget
      rw [Nat.zero_mul, Nat.add_zero]
    | succ index => exact h.le_of_getElem?_sendings hsorted hget
  exhausted := by
    intro now hexpired
    have hlater := (List.mem_cons.mp hexpired).resolve_left (by simp)
    exact (h.of_expired hsorted hlater).imp_left (congrArg (· + 1))
  final := by
    intro early notice late hstory houtcome
    cases early with
    | nil =>
      obtain ⟨rfl, -⟩ := List.cons.inj hstory
      exact absurd rfl houtcome
    | cons _ early => exact h.eq_nil_of_outcome (List.cons.inj hstory).2 houtcome

/-- A request is sent at most as often as allowed, each time after another timeout, and given up
after a timeout more. If the ledger looks at it at least once in every period, it has its outcome
when each sending has taken a timeout and a period. All of this holds whatever else is done with the
ledger, as long as its clock does not go back. The story that it is said of is what the ledger does,
since its notices tell what it hands to the socket and files at any time. -/
theorem punctual_story (timeout : Duration) (maxTries : Nat) (before : List Operation)
    {transaction : TransactionId} {datagram : Datagram} {start : Time}
    (hsend : ((new timeout maxTries).run before).register transaction datagram start =
      some (ledger, handle))
    {later : List Operation} (hsorted : (start :: ticks later).Pairwise (· ≤ ·)) :
    (∀ operations, ((new timeout maxTries).run operations).Told) ∧
      Punctual timeout (max maxTries 1) start datagram
        (((new timeout maxTries).run before).story handle
          (.send transaction datagram start true :: later)) ∧
      ∀ period, (∀ now, start ≤ now →
          now + period ≤ start + max maxTries 1 * (timeout + period) →
            ∃ tick ∈ ticks later, now < tick ∧ tick ≤ now + period) →
        ∀ operations rest, later = operations ++ rest →
          (∀ tick ∈ ticks rest, start + max maxTries 1 * (timeout + period) < tick) →
            (ledger.run operations).isPending handle = false ∧
              ∃ early operation late outcome, operations = early ++ operation :: late ∧
                (handle, outcome) ∈ ((ledger.run early).perform operation).settled := by
  have hbefore := (new timeout maxTries).becomes_run before
  obtain ⟨entry, hentry, rfl, rfl, rfl, hretries⟩ := exists_entry_of_register hsend
  have hnoted : ((new timeout maxTries).run before).Becomes ledger := by
    have hperform := becomes_perform ((new timeout maxTries).run before)
      (.send transaction entry.datagram entry.sentAt true)
    rwa [perform, hsend] at hperform
  have hbecomes : (new timeout maxTries).Becomes ledger := hbefore.trans hnoted
  have hunfolds := unfolds_story ((orderly_new timeout maxTries).becomes hbecomes) hentry
  rw [hbecomes.settings.1] at hunfolds
  have htries : entry.retries + 1 = max maxTries 1 := by
    rw [hretries, hbefore.settings.2]
    exact Nat.sub_add_cancel (Nat.le_max_right ..)
  have hstory : ((new timeout maxTries).run before).story entry.handle
      (.send transaction entry.datagram entry.sentAt true :: later) =
        .sent entry.sentAt entry.datagram :: ledger.story entry.handle later := by
    simp [story, noticesOf, notices, perform, hsend]
  rw [hstory, ← htries]
  refine ⟨fun _ => told _, (hunfolds later).punctual hsorted, ?_⟩
  rintro period hdense operations rest rfl hrest
  obtain ⟨hheld, notice, hnotice, houtcome⟩ := (hunfolds operations).prompt hsorted
    (fun now hnow => hdense now (Nat.le_trans (Nat.le_add_right ..) hnow)) (Nat.le_refl _) hrest
  obtain ⟨outcome, houtcome⟩ := Option.ne_none_iff_exists'.mp houtcome
  obtain ⟨early, operation, late, heq, hfiled⟩ := filed_of_mem_story hnotice houtcome
  exact ⟨isPending_eq_false_iff.mpr hheld, early, operation, late, outcome, heq, hfiled⟩

/-- A request that nobody answers is sent twice and is given up in time, at ticks three apart. -/
theorem punctual_story_of_two_tries :
    ∃ ledger, ((new 2 2).run [.send (.ofNat 5) ⟨⟨.unspecified, 1⟩, []⟩ 0 true]).register (.ofNat 7)
        ⟨⟨.unspecified, 2⟩, [1]⟩ 0 = some (ledger, 1) ∧
      [0, 3, 6, 9].Pairwise (· ≤ ·) ∧
      Punctual 2 2 0 ⟨⟨.unspecified, 2⟩, [1]⟩
        [.sent 0 ⟨⟨.unspecified, 2⟩, [1]⟩, .sent 3 ⟨⟨.unspecified, 2⟩, [1]⟩, .expired 6] ∧
      (∀ now ≤ 7, ∃ tick ∈ [3, 6, 9], now < tick ∧ tick ≤ now + 3) ∧
      (ledger.run [.tick 3, .poll 1, .tick 6, .tick 9]).isPending 1 = false := by
  have hdense : ∀ now ≤ 7, ∃ tick ∈ [3, 6, 9], now < tick ∧ tick ≤ now + 3 := by decide
  have h := @punctual_story _ _ 2 2 [.send (.ofNat 5) ⟨⟨.unspecified, 1⟩, []⟩ 0 true] (.ofNat 7)
    ⟨⟨.unspecified, 2⟩, [1]⟩ 0 rfl [.tick 3, .poll 1, .tick 6, .tick 9] (by decide)
  refine ⟨_, rfl, by decide, h.2.1, hdense, ?_⟩
  refine (h.2.2 3 (fun now _ hupto => hdense now ?_) _ [] (List.append_nil _).symm
    (List.forall_mem_nil _)).1
  exact Nat.le_of_add_le_add_right hupto

end Ledger

end Kademlia
