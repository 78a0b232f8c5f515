import Kademlia.Message.Basic
import Kademlia.Time

/-!
# Kademlia.Ledger

The requests that a node has sent and that have not been answered. Whoever sends a request gets a
handle; the request's outcome is filed under the handle and is handed out once.

A request ends in exactly one way: an answer with its transaction id arrives from its destination,
it has been sent as often as allowed and the last time was too long ago, or the ledger is closed.
Each operation below is one transition. Sending itself is left to the caller: `register` comes
before it, and `withdraw` after it if it failed.
-/

namespace Kademlia

/-- The name under which a request's outcome is filed. -/
abbrev Handle := Nat

/-- A packet and where it goes. -/
structure Datagram where
  destination : Endpoint
  packet : Bytes
deriving DecidableEq

/-- A response and the contact that sent it. -/
structure Reply where
  sender : Contact
  response : Response
deriving DecidableEq

/-- Why a request came to nothing. -/
inductive RequestError where
  | timeout
  | remote (refusal : RemoteFault)
  /-- The request could not be sent. -/
  | unreachable
deriving DecidableEq

/-- How a request ended. -/
inductive Outcome where
  | replied (reply : Reply)
  | failed (error : RequestError)
deriving DecidableEq

/-- The wording of an error. -/
def RequestError.message : RequestError → String
  | .timeout => "Request timed out"
  | .remote refusal => "Remote error: " ++ refusal.exception
  | .unreachable => "unreachable"

/-- A request that has not been answered. -/
structure Pending where
  /-- The token that an answer has to carry. -/
  transaction : TransactionId
  handle : Handle
  datagram : Datagram
  sentAt : Time
  /-- How often it may be sent again. -/
  retries : Nat
deriving DecidableEq

/-- The requests of a node and their outcomes. -/
structure Ledger where
  /-- How long each sending is waited for. -/
  timeout : Duration
  /-- How often a request is sent at most, counting from one. -/
  maxTries : Nat
  pending : List Pending
  settled : List (Handle × Outcome)
  nextHandle : Handle
  /-- Are no further requests accepted? -/
  closed : Bool
deriving DecidableEq

namespace Ledger

/-- The ledger without requests. A request is sent at least once. -/
def new (timeout : Duration) (maxTries : Nat) : Ledger :=
  { timeout, maxTries := max maxTries 1, pending := [], settled := [], nextHandle := 0,
    closed := false }

/-- The number of requests that have not been answered. -/
def size (ledger : Ledger) : Nat := ledger.pending.length

/-- The tokens in use. -/
def transactions (ledger : Ledger) : List TransactionId := ledger.pending.map Pending.transaction

/-- The time that all sendings of a request are waited for, as callers reckon it. The number of
sendings counts as a number of 32 bits, and the time may be too long to be reckoned. -/
def maxWait? (ledger : Ledger) : Option Duration :=
  ledger.timeout.times? (ledger.maxTries % (1 <<< 32))

/-- How long a caller has patience for an outcome: twice the time that it reckons with. -/
def patience? (ledger : Ledger) : Option Duration := ledger.maxWait?.bind (·.times? 2)

/-- The unanswered request with a token. -/
def find? (ledger : Ledger) (transaction : TransactionId) : Option Pending :=
  ledger.pending.find? (·.transaction = transaction)

/-- The unanswered requests without that of a token. -/
def dropTransaction (ledger : Ledger) (transaction : TransactionId) : List Pending :=
  ledger.pending.filter (·.transaction ≠ transaction)

/-! ### Sending -/

/-- Notes a request that is about to be sent, and gives out its handle. A closed ledger takes no
request, and no token is used twice at a time. -/
def register (ledger : Ledger) (transaction : TransactionId) (datagram : Datagram) (now : Time) :
    Option (Ledger × Handle) :=
  if ledger.closed ∨ transaction ∈ ledger.transactions then none
  else
    let handle := ledger.nextHandle
    some
      ({ ledger with
          pending := ledger.pending ++
            [{ transaction, handle, datagram, sentAt := now, retries := ledger.maxTries - 1 }]
          nextHandle := handle + 1 },
       handle)

/-- Forgets a request that could not be sent. -/
def withdraw (ledger : Ledger) (transaction : TransactionId) : Ledger :=
  { ledger with pending := ledger.dropTransaction transaction }

/-! ### Answers -/

/-- The outcome that a message means to the request it answers; a request answers none. -/
def outcomeOf? (message : Message) (source : Endpoint) : Option Outcome :=
  match message.body with
  | .request _ => none
  | .response answer => some (.replied ⟨⟨message.sender, source⟩, answer⟩)
  | .fault refusal => some (.failed (.remote refusal))

/-- The request that an answer from `source` with a token belongs to. -/
def awaiting? (ledger : Ledger) (transaction : TransactionId) (source : Endpoint) :
    Option Pending :=
  (ledger.find? transaction).filter (·.datagram.destination.answers source)

/-- Takes in a message from `source`, if it answers an unanswered request. -/
def resolve? (ledger : Ledger) (message : Message) (source : Endpoint) : Option Ledger := do
  let outcome ← outcomeOf? message source
  let pending ← ledger.awaiting? message.transaction source
  return { ledger with
    pending := ledger.dropTransaction message.transaction
    settled := ledger.settled ++ [(pending.handle, outcome)] }

/-! ### The passage of time -/

/-- Has a request been waited for long enough since it was sent last? -/
def isDue (ledger : Ledger) (now : Time) (pending : Pending) : Bool :=
  ledger.timeout ≤ now - pending.sentAt

/-- Is a request to be sent again? -/
def isRetried (ledger : Ledger) (now : Time) (pending : Pending) : Bool :=
  ledger.isDue now pending && 0 < pending.retries

/-- Is a request to be given up? -/
def isExpired (ledger : Ledger) (now : Time) (pending : Pending) : Bool :=
  ledger.isDue now pending && pending.retries = 0

/-- A request after it has been looked at: if it is sent again, it is from now on. -/
def afterTick (ledger : Ledger) (now : Time) (pending : Pending) : Pending :=
  if ledger.isRetried now pending then
    { pending with sentAt := now, retries := pending.retries - 1 }
  else pending

/-- The outcomes of requests that are given up. -/
def timeouts (pending : List Pending) : List (Handle × Outcome) :=
  pending.map fun entry => (entry.handle, .failed .timeout)

/-- Looks at every unanswered request: those waited for too long are sent again, or given up after
the last time. Tells what is to be sent. -/
def tick (ledger : Ledger) (now : Time) : Ledger × List Datagram :=
  let kept := ledger.pending.filter (!ledger.isExpired now ·)
  let expired := ledger.pending.filter (ledger.isExpired now ·)
  let retried := ledger.pending.filter (ledger.isRetried now ·)
  ({ ledger with
      pending := kept.map (ledger.afterTick now)
      settled := ledger.settled ++ timeouts expired },
   retried.map Pending.datagram)

/-- Gives up every unanswered request, and takes no other from now on. -/
def close (ledger : Ledger) : Ledger :=
  { ledger with
    pending := []
    settled := ledger.settled ++ timeouts ledger.pending
    closed := true }

/-! ### Outcomes -/

/-- Is a request unanswered? -/
def isPending (ledger : Ledger) (handle : Handle) : Bool :=
  ledger.pending.any (·.handle == handle)

/-- Hands out the outcome filed under a handle. There is none while the request is unanswered; once
it has been handed out, asking again is answered as if the request had timed out. -/
def poll (ledger : Ledger) (handle : Handle) : Ledger × Option Outcome :=
  match ledger.settled.lookup handle with
  | some outcome => ({ ledger with settled := ledger.settled.filter (·.1 ≠ handle) }, some outcome)
  | none =>
    -- A handle that is neither settled nor pending was handed out, withdrawn or never given.
    if ledger.isPending handle then (ledger, none) else (ledger, some (.failed .timeout))

end Ledger

end Kademlia
