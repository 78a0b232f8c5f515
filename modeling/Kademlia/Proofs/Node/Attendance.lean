import Kademlia.Proofs.Node.Life

/-!
# Kademlia.Proofs.Node.Attendance

The life of a node, with one activity attended to: what it asks, what it hears, and what it ends
with (`Attended`). Before the activity and between any two parts of it anything may happen to the
node.

What such an activity does follows from a contract (`Dialogue.Contract`): what it may rely on when
it looks at the node and when it hears an outcome, and what it owes whenever it sends a request.
`Dialogue.Ensures` says of a dialogue, branch by branch, that it honours a contract and what holds
of its value; its laws go along the way in which dialogues are put together. `Attended.honours_run`
carries this over to every life.
-/

namespace Kademlia

namespace Dialogue

/-- What an activity may rely on, and what it owes. -/
structure Contract where
  /-- What is known of the node whenever the activity looks at it. -/
  sees : Node → Prop
  /-- What is known of the outcomes that the activity hears. -/
  hears : Outcome → Prop
  /-- What has to be true of the requests that the activity sends. -/
  asks : Endpoint → Request → Prop

/-- As long as it can rely on the contract, the dialogue honours it, and its value and the outcomes
heard on the way to it are as wanted. -/
inductive Ensures {α : Type} (contract : Contract) :
    Dialogue α → (List Outcome → α → Prop) → Prop where
  | done {value : α} {Post : List Outcome → α → Prop} (h : Post [] value) :
      Ensures contract (.done value) Post
  | step {β : Type} {deed : Node.Deed β} {next : β → Dialogue α}
      {Post : List Outcome → α → Prop}
      (h : ∀ node now, contract.sees node →
        Ensures contract (next (deed.perform node now).1) Post) :
      Ensures contract (.step deed next) Post
  | request {destination : Endpoint} {asked : Request}
      {next : Except RequestError Handle → Dialogue α} {Post : List Outcome → α → Prop}
      (hasks : contract.asks destination asked)
      (h : ∀ result, Ensures contract (next result) Post) :
      Ensures contract (.request destination asked next) Post
  | await {handle : Handle} {next : Outcome → Dialogue α} {Post : List Outcome → α → Prop}
      (h : ∀ outcome, contract.hears outcome →
        Ensures contract (next outcome) fun heard value => Post (outcome :: heard) value) :
      Ensures contract (.await handle next) Post

variable {α β : Type} {contract : Contract} {dialogue : Dialogue α}

/-! ### Laws -/

theorem Ensures.mono {Post Weaker : List Outcome → α → Prop} (h : dialogue.Ensures contract Post)
    (hweaker : ∀ heard value, Post heard value → Weaker heard value) :
    dialogue.Ensures contract Weaker := by
  induction h generalizing Weaker with
  | done hpost => exact .done (hweaker [] _ hpost)
  | step _ ih => exact .step fun node now hsees => ih node now hsees hweaker
  | request hasks _ ih => exact .request hasks fun result => ih result hweaker
  | await _ ih =>
    refine .await fun outcome hhears => ih outcome hhears ?_
    intro heard value
    exact hweaker (outcome :: heard) value

theorem Ensures.bind {next : α → Dialogue β} {Post : List Outcome → β → Prop}
    (h : dialogue.Ensures contract fun heard value =>
      (next value).Ensures contract fun more => Post (heard ++ more)) :
    (dialogue >>= next).Ensures contract Post := by
  show (dialogue.bind next).Ensures contract Post
  induction dialogue generalizing Post with
  | done value =>
    cases h with
    | done h => exact h
  | step deed rest ih =>
    cases h with
    | step h => exact .step fun node now hsees => ih _ (h node now hsees)
  | request destination asked rest ih =>
    cases h with
    | request hasks h => exact .request hasks fun result => ih result (h result)
  | await handle rest ih =>
    cases h with
    | await h => exact .await fun outcome hhears => ih outcome (h outcome hhears)

theorem ensures_pure {value : α} {Post : List Outcome → α → Prop} (h : Post [] value) :
    (pure value : Dialogue α).Ensures contract Post :=
  .done h

theorem ensures_does {deed : Node.Deed α} {Post : List Outcome → α → Prop}
    (h : ∀ node now, contract.sees node → Post [] (deed.perform node now).1) :
    (does deed).Ensures contract Post :=
  .step fun node now hsees => .done (h node now hsees)

theorem ensures_look {view : Node → Time → α} {Post : List Outcome → α → Prop}
    (h : ∀ node now, contract.sees node → Post [] (view node now)) :
    (look view).Ensures contract Post :=
  ensures_does h

theorem ensures_send {destination : Endpoint} {asked : Request}
    {Post : List Outcome → Except RequestError Handle → Prop}
    (h : contract.asks destination asked) (hpost : ∀ result, Post [] result) :
    (send destination asked).Ensures contract Post :=
  .request h fun result => .done (hpost result)

theorem ensures_outcome {handle : Handle} {Post : List Outcome → Outcome → Prop}
    (h : ∀ outcome, contract.hears outcome → Post [outcome] outcome) :
    (outcome handle).Ensures contract Post :=
  .await fun outcome hhears => .done (h outcome hhears)

theorem ensures_sendAll {asked : Request} {destinations : List Endpoint}
    {Post : List Outcome → List Handle → Prop}
    (h : ∀ destination ∈ destinations, contract.asks destination asked)
    (hpost : ∀ handles, Post [] handles) : (sendAll asked destinations).Ensures contract Post := by
  induction destinations generalizing Post with
  | nil => exact ensures_pure (hpost [])
  | cons destination rest ih =>
    refine Ensures.bind (ensures_send (h destination List.mem_cons_self) fun sent => ?_)
    refine Ensures.bind (ih (fun other hother => h other (List.mem_cons_of_mem _ hother)) ?_)
    intro handles
    cases sent with
    | ok handle => exact ensures_pure (hpost (handle :: handles))
    | error error => exact ensures_pure (hpost handles)

theorem ensures_outcomes {handles : List Handle} {Post : List Outcome → List Outcome → Prop}
    (h : ∀ outcomes, (∀ outcome ∈ outcomes, contract.hears outcome) → Post outcomes outcomes) :
    (outcomes handles).Ensures contract Post := by
  induction handles generalizing Post with
  | nil => exact ensures_pure (h [] (List.forall_mem_nil _))
  | cons handle rest ih =>
    refine Ensures.bind (ensures_outcome fun outcome hhears => Ensures.bind (ih ?_))
    intro others hothers
    refine ensures_pure ?_
    show Post (outcome :: (others ++ [])) (outcome :: others)
    rw [List.append_nil]
    exact h (outcome :: others) (List.forall_mem_cons.mpr ⟨hhears, hothers⟩)

theorem ensures_each {act : α → Dialogue Unit} {items : List α}
    (h : ∀ item ∈ items, (act item).Ensures contract fun _ _ => True) :
    (each act items).Ensures contract fun _ _ => True := by
  induction items with
  | nil => exact ensures_pure trivial
  | cons item rest ih =>
    refine Ensures.bind ((h item List.mem_cons_self).mono fun _ _ _ => ?_)
    exact ih fun other hother => h other (List.mem_cons_of_mem _ hother)

/-! ### The next part of a dialogue -/

/-- What a dialogue has ended with. -/
def result? : Dialogue α → Option α
  | .done value => some value
  | _ => none

/-- The request that a dialogue is about to send. -/
def asks : Dialogue α → List (Endpoint × Request)
  | .request destination asked _ => [(destination, asked)]
  | _ => []

/-- The outcome that a dialogue waits for, if it is there. -/
def hears (node : Node) : Dialogue α → List Outcome
  | .await handle _ => (node.poll handle).2.toList
  | _ => []

/-- The outcome that a dialogue which has lost its patience takes for granted. -/
def presumes : Dialogue α → List Outcome
  | .await _ _ => [.failed .timeout]
  | _ => []

end Dialogue

/-- A node in its life, and an activity that is attended to. -/
structure Attended (α : Type) where
  course : Course
  /-- What is left of the activity. -/
  dialogue : Dialogue α
  /-- The requests that the activity has sent, with their destinations. -/
  asked : List (Endpoint × Request)
  /-- The outcomes that the activity has heard. -/
  heard : List Outcome

namespace Attended

/-- What may happen next. -/
inductive Beat where
  /-- Something happens that is not the activity's doing. -/
  | other (incident : Incident)
  /-- The activity goes on. -/
  | proceed (sent : Bool)
  /-- The activity loses its patience. -/
  | giveUp

variable {α : Type}

/-- The activity begins. -/
def start (course : Course) (dialogue : Dialogue α) : Attended α := ⟨course, dialogue, [], []⟩

/-- Something happens. -/
def perform (state : Attended α) : Beat → Attended α
  | .other incident => { state with course := state.course.undergo incident }
  | .proceed sent =>
    let (node, rest) := Course.advance state.course.node state.course.now sent state.dialogue
    { course := { state.course with node }
      dialogue := rest
      asked := state.asked ++ state.dialogue.asks
      heard := state.heard ++ state.dialogue.hears state.course.node }
  | .giveUp =>
    { state with
      dialogue := Course.abandon state.dialogue
      heard := state.heard ++ state.dialogue.presumes }

/-- One thing happens after the other. -/
def run (state : Attended α) (beats : List Beat) : Attended α := beats.foldl perform state

theorem turns_perform (state : Attended α) (beat : Beat) :
    state.course.node.Turns state.course.now (state.perform beat).course.node := by
  cases beat with
  | other incident => exact state.course.turns_undergo incident
  | proceed sent => exact .moves (Course.moves_advance state.dialogue ..)
  | giveUp => exact .moves .rest

/-- What all turns of a node keep holds throughout its life. -/
theorem run_keeps (Keeps : Node → Prop)
    (hturn : ∀ now node next, Node.Turns now node next → Keeps node → Keeps next)
    {state : Attended α} (hstart : Keeps state.course.node) (beats : List Beat) :
    Keeps (state.run beats).course.node := by
  induction beats generalizing state with
  | nil => exact hstart
  | cons beat beats ih => exact ih (hturn _ _ _ (state.turns_perform beat) hstart)

/-- What the activity has asked is as the contract says, and what is left of it will be. -/
structure Honours (contract : Dialogue.Contract) (Post : List Outcome → α → Prop)
    (state : Attended α) : Prop where
  asked : ∀ item ∈ state.asked, contract.asks item.1 item.2
  rest : state.dialogue.Ensures contract fun more => Post (state.heard ++ more)

variable {contract : Dialogue.Contract} {Post : List Outcome → α → Prop} {state : Attended α}
  {dialogue : Dialogue α}

theorem honours_start (h : dialogue.Ensures contract Post) (course : Course) :
    (start course dialogue).Honours contract Post :=
  ⟨List.forall_mem_nil _, h⟩

theorem Honours.proceed (h : state.Honours contract Post) (sent : Bool)
    (hsees : contract.sees state.course.node)
    (hhears : ∀ handle outcome, (state.course.node.poll handle).2 = some outcome →
      contract.hears outcome) : (state.perform (.proceed sent)).Honours contract Post := by
  obtain ⟨course, dialogue, asked, heard⟩ := state
  obtain ⟨hasked, hrest⟩ := h
  dsimp only at hasked hrest hsees hhears
  cases hrest with
  | done hpost =>
    simp only [perform, Course.advance, Dialogue.asks, Dialogue.hears, List.append_nil]
    exact ⟨hasked, .done hpost⟩
  | step hnext =>
    simp only [perform, Course.advance, Dialogue.asks, Dialogue.hears, List.append_nil]
    exact ⟨hasked, hnext course.node course.now hsees⟩
  | request hasks hnext =>
    simp only [perform, Course.advance, Dialogue.asks, Dialogue.hears, List.append_nil]
    refine ⟨fun item hitem => ?_, hnext _⟩
    rcases List.mem_append.mp hitem with hitem | hitem
    · exact hasked item hitem
    · rw [List.mem_singleton.mp hitem]
      exact hasks
  | @await handle next _ hnext =>
    rcases hpoll : course.node.poll handle with ⟨polled, outcome | outcome⟩
    · simp only [perform, Course.advance, Dialogue.asks, Dialogue.hears, hpoll, List.append_nil,
        Option.toList_none]
      exact ⟨hasked, .await hnext⟩
    · simp only [perform, Course.advance, Dialogue.asks, Dialogue.hears, hpoll, List.append_nil,
        Option.toList_some]
      refine ⟨hasked, (hnext outcome (hhears handle outcome (by rw [hpoll]))).mono ?_⟩
      intro more value hpost
      rwa [List.append_assoc]

theorem Honours.giveUp (h : state.Honours contract Post)
    (htimeout : contract.hears (.failed .timeout)) :
    (state.perform .giveUp).Honours contract Post := by
  obtain ⟨course, dialogue, asked, heard⟩ := state
  obtain ⟨hasked, hrest⟩ := h
  dsimp only at hasked hrest
  cases dialogue with
  | await handle next =>
    cases hrest with
    | await hnext =>
      refine ⟨hasked, (hnext _ htimeout).mono fun more value hpost => ?_⟩
      show Post (heard ++ [.failed .timeout] ++ more) value
      rwa [List.append_assoc]
  | _ =>
    simp only [perform, Course.abandon, Dialogue.presumes, List.append_nil]
    exact ⟨hasked, hrest⟩

/-- **Contracts are honoured**, whatever else happens to the node, if it can be relied on them at
every moment. -/
theorem honours_run (h : state.Honours contract Post) (beats : List Beat)
    (hsees : ∀ before, before <+: beats → contract.sees (state.run before).course.node)
    (hhears : ∀ before, before <+: beats → ∀ handle outcome,
      ((state.run before).course.node.poll handle).2 = some outcome → contract.hears outcome)
    (htimeout : contract.hears (.failed .timeout)) : (state.run beats).Honours contract Post := by
  induction beats generalizing state with
  | nil => exact h
  | cons beat beats ih =>
    have hnext : (state.perform beat).Honours contract Post := by
      cases beat with
      | other incident => exact ⟨h.asked, h.rest⟩
      | proceed sent => exact h.proceed sent (hsees [] List.nil_prefix) (hhears [] List.nil_prefix)
      | giveUp => exact h.giveUp htimeout
    refine ih hnext (fun before hbefore => ?_) fun before hbefore => ?_
    · exact hsees (beat :: before) (List.prefix_cons_inj beat |>.mpr hbefore)
    · exact hhears (beat :: before) (List.prefix_cons_inj beat |>.mpr hbefore)

/-- What an activity ends with is as wanted. -/
theorem Honours.of_result (h : state.Honours contract Post) {value : α}
    (hresult : state.dialogue.result? = some value) : Post state.heard value := by
  obtain ⟨course, dialogue, asked, heard⟩ := state
  cases h.rest with
  | done hpost =>
    rw [List.append_nil] at hpost
    exact Option.some.inj hresult ▸ hpost
  | step hnext => exact absurd hresult (by simp [Dialogue.result?])
  | request hasks hnext => exact absurd hresult (by simp [Dialogue.result?])
  | await hnext => exact absurd hresult (by simp [Dialogue.result?])

end Attended

end Kademlia
