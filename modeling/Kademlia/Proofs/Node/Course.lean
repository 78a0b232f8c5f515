import Kademlia.Node.Maintain
import Kademlia.Node.Receive

/-!
# Kademlia.Proofs.Node.Course

The course of a node before it is shut down: everything that may happen to it, in any order. Packets
arrive, time passes, ticks fall, and callers begin activities, which go on side by side and wait for
outcomes while other things happen. Whoever chooses what happens also chooses what the peers do,
which datagrams cannot be sent and how long anybody waits.

An activity is a `Dialogue`, and most of what it does to the node's state is none of its business
to say: it sends requests and takes their outcomes. The few steps of its own are the deeds of
`Node.Deed`, and `Node.OwnStep` is what they do to the state. `Activity.conforms_dialogue` says what
an activity may go so far as to do: it sends no requests but those that can be served, unless its
caller hands in another, and it publishes no keys unless that is what it is for. So all that happens
to a node is one of a few moves (`Node.Moves`, `Course.moves_perform`), and what all moves keep
holds throughout every course (`Course.run_keeps`).
-/

namespace Kademlia

/-! ### What dialogues do -/

/-- What an activity does to the node's state in a step of its own. -/
inductive Node.OwnStep (now : Time) (node : Node) : Node → Prop where
  | look : OwnStep now node node
  | touch (target : Id) : OwnStep now node { node with table := node.table.touch target now }
  | publish (key : Id) : OwnStep now node (node.publishOwn key now).2
  | sweep : OwnStep now node (node.sweepRecords now)
  | draw (upkeep : Upkeep) : OwnStep now node (Node.takeDuties upkeep node now).2

theorem Node.Deed.ownStep {β : Type} (deed : Node.Deed β) (node : Node) (now : Time) :
    node.OwnStep now (deed.perform node now).2 := by
  cases deed with
  | look view => exact .look
  | seed target => exact .touch target
  | publish key => exact .publish key
  | sweep => exact .sweep
  | draw upkeep => exact .draw upkeep

/-- How far an activity may go: what it may ask of others, and which keys it may publish. -/
structure Scope where
  asks : Request → Prop
  publishes : Id → Prop

/-- All that can be served may be asked. -/
def Scope.Serves (scope : Scope) : Prop := ∀ asked : Request, asked.Servable → scope.asks asked

namespace Dialogue

/-- Whatever is answered, a dialogue stays within a scope. -/
def Conforms {α : Type} (scope : Scope) : Dialogue α → Prop
  | .done _ => True
  | .step deed next =>
    (∀ key, deed.publishes? = some key → scope.publishes key) ∧
      ∀ seen, (next seen).Conforms scope
  | .request _ asked next => scope.asks asked ∧ ∀ result, (next result).Conforms scope
  | .await _ next => ∀ outcome, (next outcome).Conforms scope

variable {α β : Type} {dialogue : Dialogue α} {scope : Scope}

theorem Conforms.mono (h : dialogue.Conforms scope) {wider : Scope}
    (hasks : ∀ asked, scope.asks asked → wider.asks asked)
    (hpublishes : ∀ key, scope.publishes key → wider.publishes key) : dialogue.Conforms wider := by
  induction dialogue with
  | done value => trivial
  | step deed rest ih =>
    exact ⟨fun key hkey => hpublishes key (h.1 key hkey), fun seen => ih seen (h.2 seen)⟩
  | request destination asked rest ih =>
    exact ⟨hasks asked h.1, fun result => ih result (h.2 result)⟩
  | await handle rest ih => exact fun outcome => ih outcome (h outcome)

/-! ### Laws -/

theorem Conforms.bind (h : dialogue.Conforms scope) {next : α → Dialogue β}
    (hnext : ∀ value, (next value).Conforms scope) : (dialogue >>= next).Conforms scope := by
  show (dialogue.bind next).Conforms scope
  induction dialogue with
  | done value => exact hnext value
  | step deed rest ih => exact ⟨h.1, fun seen => ih seen (h.2 seen)⟩
  | request destination asked rest ih => exact ⟨h.1, fun result => ih result (h.2 result)⟩
  | await handle rest ih => exact fun outcome => ih outcome (h outcome)

theorem conforms_pure (value : α) : (pure value : Dialogue α).Conforms scope := trivial

theorem conforms_does {deed : Node.Deed α} (h : deed.publishes? = none) :
    (does deed).Conforms scope :=
  ⟨fun key hkey => absurd (h.symm.trans hkey) (by simp), fun _ => trivial⟩

theorem conforms_publish {key : Id} (h : scope.publishes key) :
    (does (.publish key)).Conforms scope :=
  ⟨fun _ hkey => Option.some.inj hkey ▸ h, fun _ => trivial⟩

theorem conforms_look (view : Node → Time → α) : (look view).Conforms scope := conforms_does rfl

theorem conforms_send (destination : Endpoint) {asked : Request} (h : scope.asks asked) :
    (send destination asked).Conforms scope :=
  ⟨h, fun _ => trivial⟩

theorem conforms_outcome (handle : Handle) : (outcome handle).Conforms scope := fun _ => trivial

theorem conforms_sendAll {asked : Request} (h : scope.asks asked) (destinations : List Endpoint) :
    (sendAll asked destinations).Conforms scope := by
  induction destinations with
  | nil => exact conforms_pure _
  | cons destination rest ih =>
    refine (conforms_send destination h).bind fun sent => ih.bind fun handles => ?_
    cases sent <;> exact conforms_pure _

theorem conforms_outcomes (handles : List Handle) : (outcomes handles).Conforms scope := by
  induction handles with
  | nil => exact conforms_pure _
  | cons handle rest ih =>
    exact (conforms_outcome handle).bind fun _ => ih.bind fun _ => conforms_pure _

theorem conforms_each {act : α → Dialogue Unit} (h : ∀ item, (act item).Conforms scope)
    (items : List α) : (each act items).Conforms scope := by
  induction items with
  | nil => exact conforms_pure _
  | cons item rest ih => exact (h item).bind fun _ => ih

end Dialogue

/-! ### What nodes do -/

namespace Node

open Dialogue

variable {scope : Scope} {asked : Request}

theorem conforms_gatherRound (own : Id) (handles : List Handle) (query : Query) :
    (gatherRound own handles query).Conforms scope := by
  induction handles generalizing query with
  | nil => exact conforms_pure _
  | cons handle rest ih =>
    refine (conforms_outcome handle).bind fun outcome => ?_
    cases query.takeIn own outcome with
    | goOn query => exact ih query
    | found publishers => exact conforms_pure _

theorem conforms_runRounds (h : scope.asks asked) (own : Id) (rounds : Nat) (query : Query) :
    (runRounds own asked rounds query).Conforms scope := by
  induction rounds generalizing query with
  | zero => exact conforms_pure _
  | succ rounds ih =>
    rw [runRounds]
    split
    · exact conforms_pure _
    · refine (conforms_sendAll h _).bind fun handles => ?_
      refine (conforms_gatherRound _ _ _).bind fun round => ?_
      cases round with
      | goOn query => exact ih query
      | found publishers => exact conforms_pure _

theorem conforms_lookup (h : scope.asks asked) (target : Id) :
    (lookup target asked).Conforms scope := by
  unfold lookup
  -- The number is too big to be looked into, and nothing here depends on it.
  generalize maxRounds = rounds
  refine (conforms_look _).bind fun own => (conforms_does rfl).bind fun query => ?_
  exact conforms_runRounds h own rounds query

theorem conforms_lookupNode (h : scope.Serves) (target : Id) :
    (lookupNode target).Conforms scope := by
  refine (conforms_lookup (h (.findNode target) trivial) target).bind fun finding => ?_
  cases finding <;> exact conforms_pure _

theorem conforms_findValue (h : scope.Serves) (key : Id) : (findValue key).Conforms scope := by
  refine (conforms_look _).bind fun known => ?_
  cases known with
  | nil =>
    refine (conforms_lookup (h (.findValue key) trivial) key).bind fun finding => ?_
    cases finding <;> exact conforms_pure _
  | cons publisher publishers => exact conforms_pure _

theorem conforms_ping (h : scope.Serves) (destination : Endpoint) :
    (ping destination).Conforms scope := by
  refine (conforms_send destination (h .ping trivial)).bind fun sent => ?_
  cases sent with
  | error error => exact conforms_pure _
  | ok handle =>
    refine (conforms_outcome handle).bind fun outcome => ?_
    cases outcome <;> exact conforms_pure _

theorem conforms_storeAt (h : scope.Serves) (contacts : List Contact) (key : Id)
    (publisher : Contact) : (storeAt contacts key publisher).Conforms scope :=
  (conforms_sendAll (h (.store key publisher.id publisher.address.port) trivial) _).bind fun _ =>
    (conforms_outcomes _).bind fun _ => conforms_pure _

/-- Once the key is published, an announcement publishes nothing more. -/
theorem conforms_spread (h : scope.Serves) (key : Id) (publisher : Contact) :
    (do let contacts ← lookupNode key; storeAt contacts key publisher).Conforms scope :=
  (conforms_lookupNode h key).bind fun contacts => conforms_storeAt h contacts key publisher

theorem conforms_announce (h : scope.Serves) {key : Id} (hkey : scope.publishes key) :
    (announce key).Conforms scope :=
  (conforms_publish hkey).bind fun publisher => conforms_spread h key publisher

theorem conforms_join (h : scope.Serves) (resolve : Resolver) : (join resolve).Conforms scope := by
  refine (conforms_look _).bind fun seen => ?_
  refine (conforms_sendAll (h .ping trivial) _).bind fun handles => ?_
  exact (conforms_outcomes _).bind fun _ => (conforms_lookupNode h _).bind fun _ => conforms_pure _

theorem conforms_replicate (h : scope.Serves) (key : Id) : (replicate key).Conforms scope := by
  refine (conforms_look _).bind fun publishers => ?_
  cases publishers with
  | nil => exact conforms_pure _
  | cons publisher publishers =>
    refine (conforms_lookupNode h key).bind fun contacts => conforms_each (fun publisher => ?_) _
    exact (conforms_storeAt h contacts key publisher).bind fun _ => conforms_pure _

theorem conforms_perform (h : scope.Serves) (hkeys : ∀ key, scope.publishes key)
    (resolve : Resolver) (duties : Duties) : (perform resolve duties).Conforms scope := by
  refine (conforms_look _).bind fun bootstrap => ?_
  have hrest : (do
      each (fun target => do let _ ← lookupNode target) duties.refresh
      each replicate duties.replicate
      each (fun key => do let _ ← announce key) duties.republish).Conforms scope := by
    refine (conforms_each (fun target => ?_) _).bind fun _ => ?_
    · exact (conforms_lookupNode h target).bind fun _ => conforms_pure _
    · refine (conforms_each (conforms_replicate h) _).bind fun _ => conforms_each (fun key => ?_) _
      exact (conforms_announce h (hkeys key)).bind fun _ => conforms_pure _
  dsimp only
  split
  · exact (conforms_join h resolve).bind fun _ => hrest
  · exact hrest

theorem conforms_maintain (h : scope.Serves) (hkeys : ∀ key, scope.publishes key)
    (upkeep : Upkeep) (resolve : Resolver) : (maintain upkeep resolve).Conforms scope := by
  refine Dialogue.Conforms.bind (conforms_does rfl) fun _ => ?_
  refine (conforms_does rfl).bind fun decided => ?_
  exact (conforms_perform h hkeys resolve decided.2).bind fun _ => conforms_pure _

end Node

/-! ### Activities -/

/-- What callers may ask of a node. The result of a call is of no interest here. -/
inductive Activity where
  /-- Send a request, and perhaps wait for its outcome. -/
  | request (destination : Endpoint) (asked : Request) (awaited : Bool)
  /-- Find out the id of the node at an address. -/
  | ping (destination : Endpoint)
  /-- Find the contacts closest to a target. -/
  | lookupNode (target : Id)
  | findValue (key : Id)
  | announce (key : Id)
  /-- Fill the table from the bootstrap nodes, whose names are resolved as given. -/
  | join (resolve : Resolver)
  | maintain (upkeep : Upkeep) (resolve : Resolver)

/-- The dialogue of an activity. -/
def Activity.dialogue : Activity → Dialogue Unit
  | .request destination asked awaited => do
    match ← Dialogue.send destination asked with
    | .error _ => pure ()
    | .ok handle => if awaited then do let _ ← Dialogue.outcome handle else pure ()
  | .ping destination => do let _ ← Node.ping destination
  | .lookupNode target => do let _ ← Node.lookupNode target
  | .findValue key => do let _ ← Node.findValue key
  | .announce key => do let _ ← Node.announce key
  | .join resolve => Node.join resolve
  | .maintain upkeep resolve => do let _ ← Node.maintain upkeep resolve

/-- The request that a caller hands in with an activity. -/
def Activity.request? : Activity → Option Request
  | .request _ asked _ => some asked
  | _ => none

/-- The keys that an activity is there to publish. -/
def Activity.Publishes : Activity → Id → Prop
  | .announce key => (key = ·)
  | .maintain _ _ => fun _ => True
  | _ => fun _ => False

/-- How far an activity may go. -/
def Activity.scope (activity : Activity) : Scope where
  asks asked := asked.Servable ∨ activity.request? = some asked
  publishes := activity.Publishes

open Dialogue in
/-- An activity asks for what can be served, or for what its caller hands in, and publishes what it
is there to publish. -/
theorem Activity.conforms_dialogue (activity : Activity) :
    activity.dialogue.Conforms activity.scope := by
  have hserves : activity.scope.Serves := fun _ => .inl
  cases activity with
  | request destination asked awaited =>
    refine (conforms_send destination (Or.inr rfl)).bind fun sent => ?_
    cases sent with
    | error error => exact conforms_pure _
    | ok handle =>
      cases awaited with
      | false => exact conforms_pure _
      | true => exact (conforms_outcome handle).bind fun _ => conforms_pure _
  | ping destination =>
    exact (Node.conforms_ping hserves destination).bind fun _ => conforms_pure _
  | lookupNode target =>
    exact (Node.conforms_lookupNode hserves target).bind fun _ => conforms_pure _
  | findValue key => exact (Node.conforms_findValue hserves key).bind fun _ => conforms_pure _
  | announce key => exact (Node.conforms_announce hserves rfl).bind fun _ => conforms_pure _
  | join resolve => exact Node.conforms_join hserves resolve
  | maintain upkeep resolve =>
    exact (Node.conforms_maintain hserves (fun _ => trivial) upkeep resolve).bind fun _ =>
      conforms_pure _

/-! ### Courses -/

/-- The node after what a transition has to send was sent, except for what is lost. -/
def Node.afterSending (lost : Outgoing → Bool) (result : Node × List Outgoing) : Node :=
  result.2.foldl (fun node out => if lost out then node.refused out else node) result.1

/-- A node, the time and the activities under way. -/
structure Course where
  node : Node
  now : Time
  /-- What is left of each activity. -/
  activities : List (Dialogue Unit)

/-- What may happen next. -/
inductive Happening where
  | pass (span : Duration)
  | receive (packet : Bytes) (source : Endpoint) (lost : Outgoing → Bool)
  /-- A caller has the node note a contact. -/
  | addContact (contact : Contact) (lost : Outgoing → Bool)
  /-- The node looks at its requests. -/
  | tick (lost : Outgoing → Bool)
  /-- A caller begins an activity. -/
  | begin (activity : Activity)
  /-- An activity goes on; the request that it may be about to send can be sent or not. An activity
  that waits goes on only if there is an outcome. -/
  | proceed (index : Nat) (sent : Bool)
  /-- An activity has lost its patience with the outcome that it waits for. -/
  | giveUp (index : Nat)

namespace Course

/-- A new node, of which nothing was asked yet. -/
def start (config : Config) (address : Endpoint) (draws : Draws) (now : Time) : Course :=
  ⟨.new config address draws now, now, []⟩

/-- Sends a request of an activity. -/
def request (node : Node) (now : Time) (destination : Endpoint) (asked : Request) (sent : Bool) :
    Node × Except RequestError Handle :=
  match node.startRequest destination asked now with
  | .error error => (node, .error error)
  | .ok (next, opened) =>
    if sent then (next, .ok opened.handle) else (next.withdraw opened, .error .unreachable)

/-- The next part of an activity. -/
def advance {α : Type} (node : Node) (now : Time) (sent : Bool) :
    Dialogue α → Node × Dialogue α
  | .done value => (node, .done value)
  | .step deed next => ((deed.perform node now).2, next (deed.perform node now).1)
  | .request destination asked next =>
    let (node, result) := request node now destination asked sent
    (node, next result)
  | .await handle next =>
    match node.poll handle with
    | (node, some outcome) => (node, next outcome)
    | (_, none) => (node, .await handle next)

/-- What is left of an activity that has lost its patience. -/
def abandon {α : Type} : Dialogue α → Dialogue α
  | .await _ next => next (.failed .timeout)
  | dialogue => dialogue

/-- Something happens. -/
def perform (course : Course) : Happening → Course
  | .pass span => { course with now := course.now + span }
  | .receive packet source lost =>
    { course with node := Node.afterSending lost (course.node.receive packet source course.now) }
  | .addContact contact lost =>
    { course with node := Node.afterSending lost (course.node.addContact contact course.now) }
  | .tick lost => { course with node := Node.afterSending lost (course.node.tick course.now) }
  | .begin activity => { course with activities := course.activities ++ [activity.dialogue] }
  | .proceed index sent =>
    match course.activities[index]? with
    | none => course
    | some dialogue =>
      let (node, rest) := advance course.node course.now sent dialogue
      { course with node, activities := course.activities.set index rest }
  | .giveUp index =>
    match course.activities[index]? with
    | none => course
    | some dialogue => { course with activities := course.activities.set index (abandon dialogue) }

/-- One thing happens after the other. -/
def run (course : Course) (happenings : List Happening) : Course := happenings.foldl perform course

/-- Every activity asks for what is allowed only. -/
def Conforms (course : Course) (allowed : Request → Prop) : Prop :=
  ∀ dialogue ∈ course.activities, dialogue.Conforms ⟨allowed, fun _ => True⟩

end Course

/-- All that happens to a node. -/
inductive Node.Moves (now : Time) (node : Node) : Node → Prop where
  | rest : Moves now node node
  | receive (packet : Bytes) (source : Endpoint) (lost : Outgoing → Bool) :
    Moves now node (afterSending lost (node.receive packet source now))
  | addContact (contact : Contact) (lost : Outgoing → Bool) :
    Moves now node (afterSending lost (node.addContact contact now))
  | tick (lost : Outgoing → Bool) : Moves now node (afterSending lost (node.tick now))
  | own {next : Node} (h : node.OwnStep now next) : Moves now node next
  | opened {next : Node} {opened : OpenedRequest} {destination : Endpoint} {asked : Request}
    (h : node.startRequest destination asked now = .ok (next, opened)) : Moves now node next
  | withdrawn {next : Node} {opened : OpenedRequest} {destination : Endpoint} {asked : Request}
    (h : node.startRequest destination asked now = .ok (next, opened)) :
    Moves now node (next.withdraw opened)
  | polled (handle : Handle) : Moves now node (node.poll handle).1

namespace Course

variable {course : Course} {allowed : Request → Prop} {scope : Scope}

/-! ### Activities that go on -/

theorem conforms_advance {α : Type} {dialogue : Dialogue α} (h : dialogue.Conforms scope)
    (node : Node) (now : Time) (sent : Bool) :
    (advance node now sent dialogue).2.Conforms scope := by
  cases dialogue with
  | done value => trivial
  | step deed next => exact h.2 _
  | request destination asked next => exact h.2 _
  | await handle next =>
    rw [advance]
    split
    · exact h _
    · exact h

theorem conforms_abandon {α : Type} {dialogue : Dialogue α} (h : dialogue.Conforms scope) :
    (abandon dialogue).Conforms scope := by
  cases dialogue with
  | await handle next => exact h _
  | _ => exact h

theorem Conforms.set (h : course.Conforms allowed) {rest : Dialogue Unit}
    (hrest : rest.Conforms ⟨allowed, fun _ => True⟩) (index : Nat) :
    ∀ dialogue ∈ course.activities.set index rest,
      dialogue.Conforms ⟨allowed, fun _ => True⟩ := by
  intro dialogue hdialogue
  rcases List.mem_or_eq_of_mem_set hdialogue with hdialogue | rfl
  · exact h dialogue hdialogue
  · exact hrest

/-- Activities that are under way stay within what is allowed. So does one that begins, unless its
caller hands in something else. -/
theorem Conforms.perform (h : course.Conforms allowed)
    (hservable : ∀ asked : Request, asked.Servable → allowed asked) (happening : Happening)
    (hbegin : ∀ activity asked, happening = .begin activity → activity.request? = some asked →
      allowed asked) : (course.perform happening).Conforms allowed := by
  cases happening with
  | begin activity =>
    intro dialogue hmem
    rcases List.mem_append.mp hmem with hmem | hmem
    · exact h dialogue hmem
    · rw [List.mem_singleton.mp hmem]
      exact activity.conforms_dialogue.mono
        (fun asked hasked => hasked.elim (hservable asked) (hbegin activity asked rfl))
        fun _ _ => trivial
  | proceed index sent =>
    rw [Course.perform]
    cases hget : course.activities[index]? with
    | none => exact h
    | some dialogue =>
      exact h.set (conforms_advance (h dialogue (List.mem_of_getElem? hget)) ..) index
  | giveUp index =>
    rw [Course.perform]
    cases hget : course.activities[index]? with
    | none => exact h
    | some dialogue =>
      exact h.set (conforms_abandon (h dialogue (List.mem_of_getElem? hget))) index
  | _ => exact h

/-! ### Moves -/

theorem moves_request (node : Node) (now : Time) (destination : Endpoint) (asked : Request)
    (sent : Bool) : node.Moves now (request node now destination asked sent).1 := by
  unfold request
  cases hstart : node.startRequest destination asked now with
  | error error => exact .rest
  | ok result =>
    cases sent with
    | true => exact .opened hstart
    | false => exact .withdrawn hstart

theorem moves_advance {α : Type} (dialogue : Dialogue α) (node : Node) (now : Time) (sent : Bool) :
    node.Moves now (advance node now sent dialogue).1 := by
  cases dialogue with
  | done value => exact .rest
  | step deed next => exact .own (deed.ownStep node now)
  | request destination asked next => exact moves_request ..
  | await handle next =>
    have hpoll : node.Moves now (node.poll handle).1 := .polled handle
    rw [advance]
    rcases hresult : node.poll handle with ⟨polled, outcome | outcome⟩
    · exact .rest
    · rw [hresult] at hpoll
      exact hpoll

theorem moves_perform (course : Course) (happening : Happening) :
    course.node.Moves course.now (course.perform happening).node := by
  cases happening with
  | pass span => exact .rest
  | receive packet source lost => exact .receive packet source lost
  | addContact contact lost => exact .addContact contact lost
  | tick lost => exact .tick lost
  | begin activity => exact .rest
  | proceed index sent =>
    rw [perform]
    cases hget : course.activities[index]? with
    | none => exact .rest
    | some dialogue => exact moves_advance dialogue course.node course.now sent
  | giveUp index =>
    rw [perform]
    split <;> exact .rest

/-- What all moves of a node keep holds throughout every course. -/
theorem run_keeps (Keeps : Node → Prop)
    (hmove : ∀ now node next, Node.Moves now node next → Keeps node → Keeps next)
    (course : Course) (hstart : Keeps course.node) (happenings : List Happening) :
    Keeps (course.run happenings).node := by
  induction happenings generalizing course with
  | nil => exact hstart
  | cons happening happenings ih =>
    exact ih _ (hmove _ _ _ (course.moves_perform happening) hstart)

end Course

end Kademlia
