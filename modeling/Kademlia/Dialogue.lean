import Kademlia.Node.Deed

/-!
# Kademlia.Dialogue

What a node does over a longer time: steps on its own state, requests that it sends, and the
outcomes that it waits for. A dialogue is a tree with a branch for each thing that the world may
answer, so it says what the node does whatever the peers do; it is run by whoever supplies the
outcomes. Between any two parts of a dialogue the node may receive packets and time may pass.
-/

namespace Kademlia

/-- An activity of a node that ends with a value. -/
inductive Dialogue (α : Type) : Type 1 where
  | done (value : α)
  /-- The node makes a step on its own state, and goes on with what it saw. -/
  | step {β : Type} (deed : Node.Deed β) (next : β → Dialogue α)
  /-- The node sends a request, and goes on with its handle or the reason why it was not sent. -/
  | request (destination : Endpoint) (asked : Request)
      (next : Except RequestError Handle → Dialogue α)
  /-- The node waits for the outcome of a request. -/
  | await (handle : Handle) (next : Outcome → Dialogue α)

namespace Dialogue

/-- One activity after the other. -/
def bind {α β : Type} : Dialogue α → (α → Dialogue β) → Dialogue β
  | .done value, next => next value
  | .step deed rest, next => .step deed fun seen => (rest seen).bind next
  | .request destination asked rest, next =>
    .request destination asked fun result => (rest result).bind next
  | .await handle rest, next => .await handle fun outcome => (rest outcome).bind next

instance : Monad Dialogue where
  pure := .done
  bind := bind

/-- Makes a step on the node's own state. -/
def does {β : Type} (deed : Node.Deed β) : Dialogue β := .step deed .done

/-- Looks at the node's state without changing it. -/
def look {β : Type} (view : Node → Time → β) : Dialogue β := does (.look view)

/-- Sends a request. -/
def send (destination : Endpoint) (asked : Request) : Dialogue (Except RequestError Handle) :=
  .request destination asked .done

/-- Waits for the outcome of a request. -/
def outcome (handle : Handle) : Dialogue Outcome := .await handle .done

/-- Sends a request to each of several destinations, one after the other, without waiting. Those
that cannot be sent are passed over. -/
def sendAll (asked : Request) : List Endpoint → Dialogue (List Handle)
  | [] => pure []
  | destination :: rest => do
    let sent ← send destination asked
    let handles ← sendAll asked rest
    match sent with
    | .ok handle => pure (handle :: handles)
    | .error _ => pure handles

/-- Waits for the outcomes of several requests, one after the other. -/
def outcomes : List Handle → Dialogue (List Outcome)
  | [] => pure []
  | handle :: rest => do
    let first ← outcome handle
    let others ← outcomes rest
    pure (first :: others)

/-- Does something for each item of a list, one after the other. -/
def each {α : Type} (act : α → Dialogue Unit) : List α → Dialogue Unit
  | [] => pure ()
  | item :: rest => do
    act item
    each act rest

/-! ### Laws -/

@[simp] theorem pure_bind {α β : Type} (value : α) (next : α → Dialogue β) :
    (Dialogue.done value).bind next = next value := rfl

@[simp] theorem bind_done {α : Type} (dialogue : Dialogue α) : dialogue.bind .done = dialogue := by
  induction dialogue with
  | done => rfl
  | step deed rest ih => simp only [bind, ih]
  | request destination asked rest ih => simp only [bind, ih]
  | await handle rest ih => simp only [bind, ih]

theorem bind_assoc {α β γ : Type} (dialogue : Dialogue α) (f : α → Dialogue β)
    (g : β → Dialogue γ) : (dialogue.bind f).bind g = dialogue.bind fun a => (f a).bind g := by
  induction dialogue with
  | done => rfl
  | step deed rest ih => simp only [bind, ih]
  | request destination asked rest ih => simp only [bind, ih]
  | await handle rest ih => simp only [bind, ih]

end Dialogue

end Kademlia
