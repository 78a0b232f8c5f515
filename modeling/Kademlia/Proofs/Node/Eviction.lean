import Kademlia.Proofs.Ledger.Accounts
import Kademlia.Proofs.Node.Awaiting
import Kademlia.Proofs.Node.Provenance

/-!
# Kademlia.Proofs.Node.Eviction

Who stays when a tick concludes the ping of a stalest contact. Only the answer to this very ping
counts: the contact stays if and only if it is a response and bears the contact's id
(`Node.contains_tick_iff`). A contact that was heard of in any other way since the ping was sent is
given up all the same.

Behind this stands an account of the requests of all probes, kept by everything that may happen to
a node (`Course.Accounted.perform`). The answers that were taken in for a request are listed in
`Course.answersTo`. No caller takes an outcome away from a probe, for the handles lent to callers
are others, and the tick that finds an outcome concludes the ping.
-/

namespace Kademlia

/-! ### Accounts -/

namespace Node

variable {node next : Node} {lent : Handle → Prop} {heard : Handle → List Outcome} {now : Time}
  {lost : Outgoing → Bool}

/-- The requests of all probes are accounted for by the answers that were heard, and none of their
handles is lent to a caller. Whatever handle comes next, nothing was heard for it and nobody has
it. -/
structure Accounted (node : Node) (lent : Handle → Prop) (heard : Handle → List Outcome) :
    Prop where
  unheard : ∀ handle, node.ledger.nextHandle ≤ handle → heard handle = []
  lent_lt : ∀ handle, lent handle → handle < node.ledger.nextHandle
  not_lent : ∀ probe ∈ node.probes, ¬ lent probe.handle
  account : ∀ probe ∈ node.probes, node.ledger.Account probe.handle (heard probe.handle)

namespace Accounted

theorem mono (h : node.Accounted lent heard) (hprobes : next.probes ⊆ node.probes)
    (hle : node.ledger.nextHandle ≤ next.ledger.nextHandle)
    (haccount : ∀ probe ∈ next.probes, ∀ heard, node.ledger.Account probe.handle heard →
      next.ledger.Account probe.handle heard) : next.Accounted lent heard where
  unheard := fun handle hnext => h.unheard handle (Nat.le_trans hle hnext)
  lent_lt := fun handle hlent => Nat.lt_of_lt_of_le (h.lent_lt handle hlent) hle
  not_lent := fun probe hprobe => h.not_lent probe (hprobes hprobe)
  account := fun probe hprobe => haccount probe hprobe _ (h.account probe (hprobes hprobe))

/-- Only probes and requests matter. -/
theorem congr (h : node.Accounted lent heard) (hprobes : next.probes = node.probes)
    (hledger : next.ledger = node.ledger) : next.Accounted lent heard := by
  refine h.mono (hprobes ▸ List.Subset.refl _) (Nat.le_of_eq (by rw [hledger])) ?_
  rw [hledger]
  exact fun _ _ _ haccount => haccount

/-! #### Requests -/

theorem opened (h : node.Accounted lent heard) {opened : OpenedRequest} {destination : Endpoint}
    {asked : Request} (hstart : node.startRequest destination asked now = .ok (next, opened)) :
    next.Accounted lent heard := by
  obtain ⟨-, -, -, -, draws, rfl⟩ := startRequest_eq_ok hstart
  exact h.mono (List.Subset.refl _) (Nat.le_succ _) fun _ _ _ haccount => haccount.noted _ _ now

theorem withdrawn (h : node.Accounted lent heard)
    (hlt : ∀ probe ∈ node.probes, probe.handle < node.ledger.nextHandle) {opened : OpenedRequest}
    {destination : Endpoint} {asked : Request}
    (hstart : node.startRequest destination asked now = .ok (next, opened)) :
    (next.withdraw opened).Accounted lent heard := by
  obtain ⟨-, hfresh, -, -, draws, rfl⟩ := startRequest_eq_ok hstart
  exact h.mono (List.Subset.refl _) (Nat.le_succ _) fun probe hprobe _ haccount =>
    haccount.noted_withdraw hfresh (hlt probe hprobe) _ now

/-! #### Contacts -/

theorem addProbe (h : node.Accounted lent heard) {probe : Probe} (hlent : ¬ lent probe.handle)
    (hheard : heard probe.handle = []) (hpending : node.ledger.isPending probe.handle = true) :
    { node with probes := node.probes ++ [probe] }.Accounted lent heard := by
  refine ⟨h.unheard, h.lent_lt, fun other hother => ?_, fun other hother => ?_⟩ <;>
    rcases List.mem_append.mp hother with hother | hother
  · exact h.not_lent other hother
  · rwa [List.mem_singleton.mp hother]
  · exact h.account other hother
  · rw [List.mem_singleton.mp hother, hheard]
    exact .unanswered hpending

theorem startProbe (h : node.Accounted lent heard)
    (hlt : ∀ probe ∈ node.probes, probe.handle < node.ledger.nextHandle) (suspect : Contact)
    (now : Time) (lost : Outgoing → Bool) :
    (afterSending lost (node.startProbe suspect now)).Accounted lent heard := by
  rw [Node.startProbe]
  rcases hstart : node.startRequest suspect.address .ping now with error | ⟨next, opened⟩
  · exact h.congr rfl rfl
  have hopened := h.opened hstart
  have hwithdrawn := h.withdrawn hlt hstart
  obtain ⟨-, -, hhandle, -, draws, rfl⟩ := startRequest_eq_ok hstart
  show (if lost (.probe suspect opened) then _ else _ : Node).Accounted lent heard
  split
  -- The ping is lost: its probe and its request go.
  · refine hwithdrawn.mono (fun probe hprobe => ?_) (Nat.le_refl _) fun _ _ _ haccount => haccount
    obtain ⟨hprobe, hne⟩ := List.mem_filter.mp hprobe
    refine (List.mem_append.mp hprobe).resolve_right fun hprobe => ?_
    rw [List.mem_singleton.mp hprobe] at hne
    exact of_decide_eq_true hne rfl
  · refine hopened.addProbe (fun hlent => ?_) (h.unheard opened.handle (Nat.le_of_eq hhandle.symm))
      (Ledger.isPending_iff.mpr ⟨_, List.mem_append_right _ (List.mem_singleton_self _),
        hhandle.symm⟩)
    exact Nat.lt_irrefl _ (hhandle ▸ h.lent_lt opened.handle hlent)

theorem addContact (h : node.Accounted lent heard)
    (hlt : ∀ probe ∈ node.probes, probe.handle < node.ledger.nextHandle) (contact : Contact)
    (now : Time) (lost : Outgoing → Bool) :
    (afterSending lost (node.addContact contact now)).Accounted lent heard := by
  cases hsuspect : (node.table.update contact now).2.suspect? with
  | none =>
    rw [addContact_of_no_suspect hsuspect]
    exact h.congr rfl rfl
  | some suspect =>
    have hupdated : { node with table := (node.table.update contact now).1 }.Accounted lent heard :=
      h.congr rfl rfl
    rw [addContact_of_suspect hsuspect]
    exact hupdated.startProbe hlt suspect now lost

/-! #### Packets -/

/-- Where nothing is brought, the accounts stay as they are. -/
theorem silent (h : node.Accounted lent heard) {brought : Handle → Option Outcome}
    (hsilent : ∀ handle, brought handle = none) :
    node.Accounted lent fun handle => heard handle ++ (brought handle).toList := by
  simp only [hsilent, Option.toList_none, List.append_nil]
  exact h

/-- What a message means to a request is added to the account of that request. -/
theorem hear (h : node.Accounted lent heard) (horderly : node.ledger.Orderly) {ledger : Ledger}
    {message : Message} {source : Endpoint}
    (hledger : (node.ledger.resolve? message source).getD node.ledger = ledger)
    (records : RecordStore) :
    { node with records, ledger }.Accounted lent fun handle =>
      heard handle ++ (node.ledger.answerTo? handle message source).toList := by
  have hnext : ledger.nextHandle = node.ledger.nextHandle :=
    hledger ▸ node.ledger.nextHandle_getD_resolve? message source
  refine ⟨fun handle hle => ?_, fun handle hlent => ?_, h.not_lent, fun probe hprobe => ?_⟩
  · have hle : node.ledger.nextHandle ≤ handle := Nat.le_trans (Nat.le_of_eq hnext.symm) hle
    rw [h.unheard handle hle, horderly.answerTo?_eq_none hle, Option.toList_none, List.append_nil]
  · exact Nat.lt_of_lt_of_le (h.lent_lt handle hlent) (Nat.le_of_eq hnext.symm)
  · rw [← hledger]
    exact (h.account probe hprobe).hear horderly message source

/-! #### Callers -/

theorem ownStep (h : node.Accounted lent heard) (hstep : node.OwnStep now next) :
    next.Accounted lent heard :=
  h.congr (by cases hstep <;> rfl) hstep.ledger

/-- Handles may be lent that no probe has. -/
theorem lend (h : node.Accounted lent heard) {more : Handle → Prop}
    (hmore : ∀ handle, more handle → lent handle ∨
      handle < node.ledger.nextHandle ∧ ∀ probe ∈ node.probes, probe.handle ≠ handle) :
    node.Accounted more heard where
  unheard := h.unheard
  lent_lt := fun handle hlent => (hmore handle hlent).elim (h.lent_lt handle) And.left
  not_lent := fun probe hprobe hlent =>
    (hmore _ hlent).elim (h.not_lent probe hprobe) fun hfree => hfree.2 probe hprobe rfl
  account := h.account

/-- The caller gets the handle of the request that was sent. -/
theorem request (h : node.Accounted lent heard)
    (hlt : ∀ probe ∈ node.probes, probe.handle < node.ledger.nextHandle) (now : Time)
    (destination : Endpoint) (asked : Request) (sent : Bool) :
    (Course.request node now destination asked sent).1.Accounted
      (fun handle => lent handle ∨
        (Course.request node now destination asked sent).2 = .ok handle) heard := by
  rw [Course.request]
  rcases hstart : node.startRequest destination asked now with error | ⟨next, opened⟩
  · exact h.lend fun handle => Or.imp_right (by simp)
  cases sent with
  | true =>
    refine (h.opened hstart).lend fun handle => Or.imp_right fun hgiven => ?_
    obtain ⟨-, -, hhandle, -, draws, rfl⟩ := startRequest_eq_ok hstart
    obtain rfl : opened.handle = handle := Except.ok.inj hgiven
    rw [hhandle]
    exact ⟨Nat.lt_succ_self _, fun probe hprobe => Nat.ne_of_lt (hlt probe hprobe)⟩
  | false => exact (h.withdrawn hlt hstart).lend fun handle => Or.imp_right (by simp)

/-- A caller takes the outcome of a request that was lent to him. -/
theorem poll (h : node.Accounted lent heard) {handle : Handle} (hlent : lent handle) :
    (node.poll handle).1.Accounted lent heard := by
  refine h.mono (List.Subset.refl _) (Nat.le_of_eq (Ledger.nextHandle_poll ..).symm) ?_
  intro probe hprobe heard haccount
  exact haccount.poll_of_ne fun heq => h.not_lent probe hprobe (heq ▸ hlent)

/-- An activity goes on. -/
theorem advance {α : Type} {dialogue : Dialogue α} (h : node.Accounted lent heard)
    (hlt : ∀ probe ∈ node.probes, probe.handle < node.ledger.nextHandle)
    (hown : dialogue.AwaitsOwn lent) (now : Time) (sent : Bool) :
    ∃ more, (∀ handle, lent handle → more handle) ∧
      (Course.advance node now sent dialogue).1.Accounted more heard ∧
      (Course.advance node now sent dialogue).2.AwaitsOwn more := by
  cases dialogue with
  | done value => exact ⟨lent, fun _ hlent => hlent, h, trivial⟩
  | step deed next =>
    exact ⟨lent, fun _ hlent => hlent, h.ownStep (deed.ownStep node now), hown _⟩
  | request destination asked next =>
    exact ⟨_, fun _ hlent => .inl hlent, h.request hlt now destination asked sent, hown _⟩
  | await handle next =>
    have hpolled := h.poll hown.1
    rw [Course.advance]
    rcases hpoll : node.poll handle with ⟨polled, outcome | outcome⟩
    · exact ⟨lent, fun _ hlent => hlent, h, hown⟩
    · rw [hpoll] at hpolled
      exact ⟨lent, fun _ hlent => hlent, hpolled, hown.2 _⟩

end Accounted

/-! #### Ticks -/

theorem pending_foldl_reviewProbe (probes : List Probe) (node : Node) :
    (probes.foldl reviewProbe node).ledger.pending = node.ledger.pending := by
  induction probes generalizing node with
  | nil => rfl
  | cons probe probes ih => rw [List.foldl_cons, ih, ledger_reviewProbe, Ledger.pending_poll]

/-- What is found for a probe does not depend on what was found for others. -/
theorem poll_foldl_reviewProbe {probes : List Probe} {handle : Handle}
    (h : handle ∉ probes.map Probe.handle) (node : Node) :
    ((probes.foldl reviewProbe node).ledger.poll handle).2 = (node.ledger.poll handle).2 := by
  induction probes generalizing node with
  | nil => rfl
  | cons probe probes ih =>
    rw [List.map_cons, List.mem_cons, not_or] at h
    rw [List.foldl_cons, ih h.2, ledger_reviewProbe, Ledger.poll_poll_of_ne _ h.1]

/-- Probes that stay under way are still waited for. -/
theorem Accounted.tick (h : node.Accounted lent heard) (hprobing : node.Probing)
    (horderly : node.ledger.Orderly) (now : Time) (lost : Outgoing → Bool) :
    (afterSending lost (node.tick now)).Accounted lent heard := by
  have hprobes := probes_foldl_reviewProbe hprobing.nodup (node.beforeReview now)
  rw [afterSending_tick]
  refine h.mono (fun probe hprobe => ?_) ?_ fun probe hprobe heard haccount => ?_
  · rw [hprobes] at hprobe
    exact List.mem_of_mem_filter hprobe
  · rw [nextHandle_foldl_reviewProbe]
    exact Nat.le_refl _
  · rw [hprobes] at hprobe
    have hpoll : ((node.ledger.tick now).1.poll probe.handle).2 = none :=
      Option.isNone_iff_eq_none.mp (List.mem_filter.mp hprobe).2
    have hfound := (haccount.tick now).snd_poll (horderly.tick now)
    rw [hpoll] at hfound
    obtain ⟨hpending, rfl⟩ := hfound
    refine .unanswered ?_
    rw [Ledger.isPending, pending_foldl_reviewProbe]
    exact hpending

end Node

/-! ### Courses -/

namespace Course

variable {course : Course} {heard : Handle → List Outcome}

/-- What a happening brings for the request with a handle. -/
def answerTo? (course : Course) (handle : Handle) : Happening → Option Outcome
  | .receive packet source _ =>
    (course.node.accepted? packet source).bind (course.node.ledger.answerTo? handle · source)
  | _ => none

/-- The answers to the request with a handle that are taken in, one after the other. -/
def answersTo (course : Course) (handle : Handle) : List Happening → List Outcome
  | [] => []
  | happening :: rest =>
    (course.answerTo? handle happening).toList ++ (course.perform happening).answersTo handle rest

/-- The requests of all probes are accounted for, and no activity waits for one of them. -/
structure Accounted (course : Course) (heard : Handle → List Outcome) : Prop where
  sturdy : course.Sturdy
  probing : course.node.Probing
  account : ∃ lent, course.node.Accounted lent heard ∧
    ∀ dialogue ∈ course.activities, dialogue.AwaitsOwn lent

theorem accounted_start (config : Config) (address : Endpoint) (draws : Draws) (now : Time) :
    (start config address draws now).Accounted fun _ => [] where
  sturdy := sturdy_start config address draws now
  probing := Node.probing_new config address draws now
  account := ⟨fun _ => False, ⟨fun _ _ => rfl, fun _ => False.elim, List.forall_mem_nil _,
    List.forall_mem_nil _⟩, List.forall_mem_nil _⟩

namespace Accounted

/-- A packet adds to the account of the request that it answers. -/
theorem receive (h : course.Accounted heard) {lent : Handle → Prop}
    (haccount : course.node.Accounted lent heard) (packet : Bytes) (source : Endpoint)
    (lost : Outgoing → Bool) :
    (course.perform (.receive packet source lost)).node.Accounted lent fun handle =>
      heard handle ++ (course.answerTo? handle (.receive packet source lost)).toList := by
  cases haccepted : course.node.accepted? packet source with
  | none =>
    rw [perform, Node.receive_of_not_accepted haccepted]
    refine haccount.silent fun handle => ?_
    rw [answerTo?, haccepted, Option.bind_none]
  | some message =>
    have hanswer : ∀ handle, course.answerTo? handle (.receive packet source lost) =
        course.node.ledger.answerTo? handle message source := by
      intro handle
      rw [answerTo?, haccepted, Option.bind_some]
    obtain ⟨records, ledger, hledger, hreceive⟩ := Node.exists_afterSending_of_accepted
      h.sturdy.orderly haccepted course.now lost
    have hhandle : ledger.nextHandle = course.node.ledger.nextHandle :=
      hledger ▸ course.node.ledger.nextHandle_getD_resolve? message source
    have hlt : ∀ probe ∈ course.node.probes, probe.handle < ledger.nextHandle := by
      rw [hhandle]
      exact h.probing.handles
    rw [perform]
    simp only [hanswer, hreceive]
    exact (haccount.hear h.sturdy.orderly hledger records).addContact hlt _ course.now lost

theorem proceed (h : course.Accounted heard) (index : Nat) (sent : Bool) :
    ∃ lent, (course.perform (.proceed index sent)).node.Accounted lent heard ∧
      ∀ dialogue ∈ (course.perform (.proceed index sent)).activities,
        dialogue.AwaitsOwn lent := by
  obtain ⟨lent, haccount, hown⟩ := h.account
  rw [perform]
  cases hget : course.activities[index]? with
  | none => exact ⟨lent, haccount, hown⟩
  | some dialogue =>
    have hmem := List.mem_of_getElem? hget
    obtain ⟨more, hmore, hnext, hrest⟩ := haccount.advance h.probing.handles
      (hown dialogue hmem) course.now sent
    refine ⟨more, hnext, fun other hother => ?_⟩
    rcases List.mem_or_eq_of_mem_set hother with hother | rfl
    · exact (hown other hother).mono hmore
    · exact hrest

theorem giveUp (h : course.Accounted heard) (index : Nat) :
    ∃ lent, (course.perform (.giveUp index)).node.Accounted lent heard ∧
      ∀ dialogue ∈ (course.perform (.giveUp index)).activities, dialogue.AwaitsOwn lent := by
  obtain ⟨lent, haccount, hown⟩ := h.account
  rw [perform]
  cases hget : course.activities[index]? with
  | none => exact ⟨lent, haccount, hown⟩
  | some dialogue =>
    refine ⟨lent, haccount, fun other hother => ?_⟩
    rcases List.mem_or_eq_of_mem_set hother with hother | rfl
    · exact hown other hother
    · exact awaitsOwn_abandon (hown dialogue (List.mem_of_getElem? hget))

theorem perform (h : course.Accounted heard) (happening : Happening) :
    (course.perform happening).Accounted fun handle =>
      heard handle ++ (course.answerTo? handle happening).toList := by
  refine ⟨h.sturdy.undergo (.happens happening),
    (h.probing.moves (course.moves_perform happening)).1, ?_⟩
  obtain ⟨lent, haccount, hown⟩ := h.account
  cases happening with
  | receive packet source lost => exact ⟨lent, h.receive haccount packet source lost, hown⟩
  | pass span => exact ⟨lent, haccount.silent fun _ => rfl, hown⟩
  | addContact contact lost =>
    have hadded := haccount.addContact h.probing.handles contact course.now lost
    exact ⟨lent, hadded.silent fun _ => rfl, hown⟩
  | tick lost =>
    have hticked := haccount.tick h.probing h.sturdy.orderly course.now lost
    exact ⟨lent, hticked.silent fun _ => rfl, hown⟩
  | begin activity =>
    refine ⟨lent, haccount.silent fun _ => rfl, fun dialogue hmem => ?_⟩
    rcases List.mem_append.mp hmem with hmem | hmem
    · exact hown dialogue hmem
    · rw [List.mem_singleton.mp hmem]
      exact activity.awaitsOwn_dialogue lent
  | proceed index sent =>
    obtain ⟨lent, haccount, hown⟩ := h.proceed index sent
    exact ⟨lent, haccount.silent fun _ => rfl, hown⟩
  | giveUp index =>
    obtain ⟨lent, haccount, hown⟩ := h.giveUp index
    exact ⟨lent, haccount.silent fun _ => rfl, hown⟩

theorem run (h : course.Accounted heard) (happenings : List Happening) :
    (course.run happenings).Accounted fun handle =>
      heard handle ++ course.answersTo handle happenings := by
  induction happenings generalizing course heard with
  | nil =>
    simp only [answersTo, List.append_nil]
    exact h
  | cons happening happenings ih =>
    have hrest := ih (h.perform happening)
    simp only [List.append_assoc] at hrest
    exact hrest

end Accounted

end Course

/-! ### Conclusions -/

/-- Who has the slot of a bucket is in the bucket. -/
theorem RoutingTable.Pinging.contains {table : RoutingTable} {ids : List Id} {id : Id}
    (h : table.Pinging ids) (hid : id ∈ ids) : table.contains id = true := by
  rw [RoutingTable.contains, Bucket.holds_iff]
  exact (h.staffed _ (table.bucketOf_mem id)).pinged id (h.pinging_bucketOf hid)

namespace Node

variable {node : Node} {probe : Probe} {id : Id} {outcome : Outcome}

/-- The review of a probe leaves other contacts where they are. -/
theorem contains_reviewProbe (hwf : node.table.WellFormed) (hne : id ≠ probe.contact.id)
    (hin : node.table.contains id = true) : (node.reviewProbe probe).table.contains id = true := by
  cases hpoll : (node.ledger.poll probe.handle).2 with
  | none =>
    rw [reviewProbe_of_none hpoll]
    exact hin
  | some outcome =>
    rw [reviewProbe_of_some hpoll, concludeProbe]
    split
    · exact hwf.contains_pingAnswered.trans hin
    · exact hwf.contains_evict hne hin

theorem contains_foldl_reviewProbe {probes : List Probe} (hwf : node.table.WellFormed)
    (hne : ∀ probe ∈ probes, id ≠ probe.contact.id) (hin : node.table.contains id = true) :
    (probes.foldl reviewProbe node).table.contains id = true := by
  induction probes generalizing node with
  | nil => exact hin
  | cons probe probes ih =>
    obtain ⟨hprobe, hprobes⟩ := List.forall_mem_cons.mp hne
    exact ih ((node.tended_reviewProbe probe).table.wellFormed hwf) hprobes
      (contains_reviewProbe hwf hprobe hin)

/-- In the midst of a tick: the node when it comes to a probe, and the probes that follow. -/
theorem Probing.exists_tick_eq (h : node.Probing) (now : Time) (lost : Outgoing → Bool)
    (hprobe : probe ∈ node.probes) :
    ∃ (mid : Node) (after : List Probe),
      afterSending lost (node.tick now) = after.foldl reviewProbe (mid.reviewProbe probe) ∧
      mid.table.WellFormed ∧ mid.table.contains probe.contact.id = true ∧
      (mid.ledger.poll probe.handle).2 = ((node.ledger.tick now).1.poll probe.handle).2 ∧
      ∀ other ∈ after, probe.contact.id ≠ other.contact.id := by
  obtain ⟨before, after, hprobes⟩ := List.append_of_mem hprobe
  have hids := h.nodup_ids
  have hhandles := h.nodup
  rw [hprobes, List.map_append, List.nodup_append] at hids hhandles
  have hstart : (node.beforeReview now).table.Pinging
      (((node.beforeReview now).probes ++ (before ++ probe :: after)).map (·.contact.id)) := by
    rw [← hprobes]
    exact h.table
  obtain ⟨hpinging, -⟩ := pinging_foldl_reviewProbe before (probe :: after) hstart
  refine ⟨before.foldl reviewProbe (node.beforeReview now), after, ?_, hpinging.wellFormed,
    hpinging.contains ?_, poll_foldl_reviewProbe (fun hmem => ?_) _, fun other hother heq => ?_⟩
  · rw [afterSending_tick, hprobes, List.foldl_append, List.foldl_cons]
  · exact List.mem_map_of_mem (List.mem_append_right _ List.mem_cons_self)
  · exact hhandles.2.2 _ hmem _ List.mem_cons_self rfl
  · exact (List.nodup_cons.mp hids.2.1).1 (List.mem_map.mpr ⟨other, hother, heq.symm⟩)

/-- **What a conclusion comes to**: the contact stays if the outcome is a response that bears its
id, and goes otherwise. -/
theorem Probing.contains_tick (h : node.Probing) {now : Time} {lost : Outgoing → Bool}
    (hprobe : probe ∈ node.probes)
    (hpoll : ((node.ledger.tick now).1.poll probe.handle).2 = some outcome) :
    (afterSending lost (node.tick now)).table.contains probe.contact.id =
      outcome.isReplyFrom probe.contact.id := by
  obtain ⟨mid, after, htick, hwf, hin, hmid, hothers⟩ := h.exists_tick_eq now lost hprobe
  have hreview := reviewProbe_of_some (hmid.trans hpoll)
  have hnext := (mid.tended_reviewProbe probe).table.wellFormed hwf
  rw [htick]
  cases hreply : outcome.isReplyFrom probe.contact.id with
  | true =>
    refine contains_foldl_reviewProbe hnext hothers ?_
    rw [hreview, concludeProbe, if_pos hreply]
    exact hwf.contains_pingAnswered.trans hin
  | false =>
    have hgone : ∀ entry ∈ (mid.reviewProbe probe).table.known, entry.id ≠ probe.contact.id := by
      rw [hreview, concludeProbe, if_neg (by rw [hreply]; decide)]
      exact fun entry hentry => hwf.id_ne_of_evict hin hentry
    have hlast : (after.foldl reviewProbe (mid.reviewProbe probe)).table.WellFormed :=
      htick ▸ (h.tick now lost).1.table.wellFormed
    exact hlast.not_contains fun entry hentry =>
      hgone entry (known_foldl_reviewProbe_subset after _ hentry)

/-- **Who stays.** In every course of a node, the tick that concludes a ping leaves the contact in
the table if and only if the answer that was taken in for this ping is a response that bears the
contact's id. -/
theorem contains_tick_iff (config : Config) (address : Endpoint) (draws : Draws) (start : Time)
    (happenings : List Happening) :
    let begun := Course.start config address draws start
    let course := begun.run happenings
    ∀ lost, ∀ probe ∈ course.node.probes,
      ((course.node.ledger.tick course.now).1.poll probe.handle).2.isSome = true →
        ((course.perform (.tick lost)).node.table.contains probe.contact.id = true ↔
          ∃ outcome ∈ begun.answersTo probe.handle happenings,
            outcome.isReplyFrom probe.contact.id = true) := by
  intro begun course lost probe hprobe hconcluded
  have haccounted : course.Accounted fun handle => begun.answersTo handle happenings :=
    (Course.accounted_start config address draws start).run happenings
  obtain ⟨lent, haccount, -⟩ := haccounted.account
  obtain ⟨outcome, hpoll⟩ := Option.isSome_iff_exists.mp hconcluded
  have hfound := ((haccount.account probe hprobe).tick course.now).snd_poll
    (haccounted.sturdy.orderly.tick course.now)
  rw [hpoll] at hfound
  have hcontains : (course.perform (.tick lost)).node.table.contains probe.contact.id =
      outcome.isReplyFrom probe.contact.id :=
    haccounted.probing.contains_tick hprobe hpoll
  rw [hcontains]
  dsimp only at hfound
  rcases hfound with heard | ⟨heard, rfl⟩ <;> rw [heard]
  · simp
  · simp [Outcome.isReplyFrom]

/-- Twenty-one contacts of the same half of the ids are added: one more than their bucket takes, so
the first of them, the node 2^383, is pinged. -/
def crowding : List Happening :=
  (List.range 21).map fun number =>
    .addContact ⟨⟨BitVec.ofNat _ (2 ^ 383 + number)⟩, ⟨⟨10, 0, 0, 2⟩, 4444⟩⟩ fun _ => false

/-- A packet of the node 2^383. -/
def suspectPacket (transaction : Nat) (body : Body) : Bytes :=
  Message.encode ⟨.ofNat transaction, ⟨BitVec.ofNat _ (2 ^ 383)⟩, body⟩

theorem contains_tick_iff_of_answered :
    let begun := Course.start { id := some .zero } ⟨⟨10, 0, 0, 1⟩, 4444⟩ (.ofLists [] []) 0
    let happenings := crowding ++
      [.receive (suspectPacket 1 (.response .pong)) ⟨⟨10, 0, 0, 2⟩, 4444⟩ fun _ => false]
    let course := begun.run happenings
    ∃ probe ∈ course.node.probes,
      ((course.node.ledger.tick course.now).1.poll probe.handle).2.isSome = true ∧
        (course.perform (.tick fun _ => false)).node.table.contains probe.contact.id = true := by
  intro begun happenings course
  let suspect : Contact := ⟨⟨BitVec.ofNat _ (2 ^ 383)⟩, ⟨⟨10, 0, 0, 2⟩, 4444⟩⟩
  have hprobe : ⟨suspect, 0⟩ ∈ course.node.probes := by decide +kernel
  have hconcluded : ((course.node.ledger.tick course.now).1.poll 0).2.isSome = true := by
    decide +kernel
  have hanswered : ∃ outcome ∈ begun.answersTo 0 happenings,
      outcome.isReplyFrom suspect.id = true := by
    decide +kernel
  exact ⟨⟨suspect, 0⟩, hprobe, hconcluded, (contains_tick_iff { id := some .zero }
    ⟨⟨10, 0, 0, 1⟩, 4444⟩ (.ofLists [] []) 0 happenings _ _ hprobe hconcluded).mpr hanswered⟩

/-- A contact that was heard of after it was pinged, but has not answered the ping, is given up. -/
theorem evicts_heard :
    let begun := Course.start { id := some .zero, maxTries := 1 } ⟨⟨10, 0, 0, 1⟩, 4444⟩
      (.ofLists [] []) 0
    let packet := suspectPacket 7 (.request .ping)
    let pinging := begun.run crowding
    let course := pinging.run [.receive packet ⟨⟨10, 0, 0, 2⟩, 4444⟩ fun _ => false, .pass 5000]
    ∃ probe ∈ pinging.node.probes,
      (pinging.node.accepted? packet ⟨⟨10, 0, 0, 2⟩, 4444⟩).map Message.sender =
          some probe.contact.id ∧
        probe ∈ course.node.probes ∧
        ((course.node.ledger.tick course.now).1.poll probe.handle).2.isSome = true ∧
        (course.perform (.tick fun _ => false)).node.table.contains probe.contact.id = false := by
  decide +kernel

end Node

end Kademlia
