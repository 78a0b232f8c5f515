import Kademlia.Contact
import Kademlia.TransactionId

/-!
# Kademlia.Message.Basic

The messages of the protocol. A message carries a transaction id, the id of its sender and a body:
a request, a response or an error. A request whose method is unknown or whose arguments are of no
use is still a request, `Request.invalid`, because its sender has shown that it exists.
-/

namespace Kademlia

/-- Why a request cannot be served. -/
inductive RequestDefect where
  | unknownMethod
  /-- An argument is missing or of the wrong kind. -/
  | missingArgument
  /-- An argument that should be an id has another length. -/
  | idLength (length : Nat)
  /-- The port is not a number of 16 bits. -/
  | port
  /-- The key to store under is empty. -/
  | emptyKey
deriving DecidableEq

/-- What a node asks of another. -/
inductive Request where
  /-- Is anyone there? -/
  | ping
  /-- Remember that a publisher offers the content of a key at a port. -/
  | store (key publisher : Id) (port : UInt16)
  /-- Which contacts are closest to a target? -/
  | findNode (target : Id)
  /-- Who publishes a key, or else which contacts are closest to it? -/
  | findValue (key : Id)
  /-- A request that cannot be served. -/
  | invalid (method : String) (defect : RequestDefect)
deriving DecidableEq

/-- What a node answers. -/
inductive Response where
  /-- A marker: `pong` for a ping, `OK` for a store. -/
  | success (marker : String)
  | nodes (contacts : List Contact)
  | values (key : Id) (publishers : List Contact)
deriving DecidableEq

/-- The error that a node answers with. -/
structure RemoteFault where
  exception : String
  args : List Bytes
deriving DecidableEq

/-- What a message is about. -/
inductive Body where
  | request (asked : Request)
  | response (answer : Response)
  | fault (refusal : RemoteFault)
deriving DecidableEq

/-- A message. -/
structure Message where
  /-- The token that ties answers to requests. -/
  transaction : TransactionId
  sender : Id
  body : Body
deriving DecidableEq

/-- The marker that answers a ping. -/
def Response.pong : Response := .success "pong"

/-- The marker that answers a store. -/
def Response.stored : Response := .success "OK"

/-- Can the request be served, going by what it asks? -/
def Request.Servable : Request → Prop
  | .invalid .. => False
  | _ => True

/-- The name of a request's method. -/
def Request.method : Request → String
  | .ping => "ping"
  | .store .. => "store"
  | .findNode _ => "findNode"
  | .findValue _ => "findValue"
  | .invalid method _ => method

/-- The number of the message's type in a packet. -/
def Body.number : Body → Int
  | .request _ => 0
  | .response _ => 1
  | .fault _ => 2

/-- The contacts that a message offers in answer to what was asked for. -/
def Message.closerNodes? (message : Message) : Option (List Contact) :=
  match message.body with
  | .response (.nodes contacts) => some contacts
  | _ => none

end Kademlia
