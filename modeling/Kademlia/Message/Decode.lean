import Kademlia.Bencode.Frame
import Kademlia.Message.Basic

/-!
# Kademlia.Message.Decode

The message of a packet. The field `0` says whether the packet is a request, a response or an
error; the packet is then read for all fields of that kind. Of several faults the first of these
is reported: the packet is not bencode of the right shape, the transaction id has a wrong length,
the sender has, the payload of a response makes no sense.

The arguments of a request are never at fault: `Request.ofArguments` finds out what is asked for,
or why it cannot be served.
-/

namespace Kademlia

/-! ### Requests -/

namespace Request

/-- The id in an argument, or what is wrong with it. -/
def idArgument : Option Bencode → Except RequestDefect Id
  | some (.bytes content) =>
    match Id.ofBytes? content with
    | some id => .ok id
    | none => .error (.idLength content.length)
  | _ => .error .missingArgument

/-- The port in an argument, or what is wrong with it. -/
def portArgument : Option Bencode → Except RequestDefect UInt16
  | some (.int n) => if 0 ≤ n ∧ n < 65536 then .ok (UInt16.ofNat n.toNat) else .error .port
  | _ => .error .missingArgument

/-- The key in the first argument of a store request, which has to hold at least one byte. -/
def keyArgument : Option Bencode → Except RequestDefect Id
  | some (.bytes []) => .error .emptyKey
  | argument => idArgument argument

/-- The dictionary in the second argument of a store request. -/
def entriesArgument : Option Bencode → Except RequestDefect (List (Bencode × Bencode))
  | some (.dict entries) => .ok entries
  | _ => .error .missingArgument

/-- The store request with the given arguments. -/
def storeOfArguments (arguments : List Bencode) : Except RequestDefect Request := do
  let key ← keyArgument arguments[0]?
  let entries ← entriesArgument arguments[1]?
  let publisher ← idArgument (Bencode.entry? entries (Utf8.encode "lbryid"))
  let port ← portArgument (Bencode.entry? entries (Utf8.encode "port"))
  return .store key publisher port

/-- The request of a method with the given arguments, or what is wrong with it. -/
def ofArguments? (method : String) (arguments : List Bencode) : Except RequestDefect Request :=
  if method = "ping" then .ok .ping
  else if method = "findNode" then (idArgument arguments[0]?).map .findNode
  else if method = "findValue" then (idArgument arguments[0]?).map .findValue
  else if method = "store" then storeOfArguments arguments
  else .error .unknownMethod

/-- The request of a method with the given arguments. -/
def ofArguments (method : String) (arguments : List Bencode) : Request :=
  match ofArguments? method arguments with
  | .ok request => request
  | .error defect => .invalid method defect

end Request

/-! ### Responses -/

/-- The contact that a value holds. -/
def Contact.ofBencode : Bencode → Except DecodeError Contact
  | .bytes content => Contact.ofCompact content
  | _ => .error (.payload .contactNotBytes)

/-- The contacts that values hold; the first value that holds none is reported. -/
def Contact.ofItems : List Bencode → Except DecodeError (List Contact)
  | [] => .ok []
  | item :: items => do
    let contact ← Contact.ofBencode item
    let contacts ← Contact.ofItems items
    return contact :: contacts

namespace Response

/-- The first key of a dictionary that has an id's length, in the order of the packet. A host that
keeps the entries of a dictionary in an order of its own may come upon another such key first, and
reads a packet with several as it would read one with that key alone. There are packets of each of
these forms, and what is said of all packets is said of them. -/
def keyOfEntries? (entries : List (Bencode × Bencode)) : Option Id :=
  entries.findSome? fun entry => entry.1.byteString?.bind Id.ofBytes?

/-- The response that names the publishers of a key. -/
def ofEntries (entries : List (Bencode × Bencode)) : Except DecodeError Response :=
  match keyOfEntries? entries with
  | none => .error (.payload .noKey)
  | some key =>
    match Bencode.entry? entries key.toBytes with
    | some (.list items) => (Contact.ofItems items).map (.values key)
    | _ => .error (.payload .valuesNotList)

/-- The response of a payload. -/
def ofPayload : Bencode → Except DecodeError Response
  | .bytes content => .ok (.success (Utf8.decode content))
  | .list items => (Contact.ofItems items).map .nodes
  | .dict entries => ofEntries entries
  | .int _ => .error (.payload .integer)

end Response

/-! ### Messages -/

namespace Message

/-- The three kinds of packets. -/
inductive Kind where
  | request
  | response
  | fault
deriving DecidableEq

/-- The kind that the number of a message's type names. -/
def Kind.ofNumber? : Int → Option Kind
  | 0 => some .request
  | 1 => some .response
  | 2 => some .fault
  | _ => none

/-- The number of fields that a packet of a kind has. -/
def Kind.fieldCount : Kind → Nat
  | .request | .fault => 5
  | .response => 4

/-- The fields of a packet before their lengths and the payload are looked at. -/
inductive Content where
  | request (method : Bytes) (arguments : List Bencode)
  | response (payload : Bencode)
  | fault (exception : Bytes) (args : List Bytes)

/-- The content of a frame of a kind. -/
def Content.ofFrame? (frame : Frame) : Kind → Option Content
  | .request => do
    let method ← frame.bytes? 3
    let arguments ← frame.items? 4
    if Bencode.keyedItems arguments then some (.request method arguments) else none
  | .response => (frame.value? 3).map .response
  | .fault => do
    let exception ← frame.bytes? 3
    let items ← frame.items? 4
    (items.mapM Bencode.byteString?).map (.fault exception)

/-- The body that a content stands for. -/
def Content.body : Content → Except DecodeError Body
  | .request method arguments =>
    .ok (.request (Request.ofArguments (Utf8.decode method) arguments))
  | .response payload => (Response.ofPayload payload).map .response
  | .fault exception args => .ok (.fault ⟨Utf8.decode exception, args⟩)

/-- The kind of a packet. -/
def kindOf (packet : Bytes) : Except DecodeError Kind :=
  match (Frame.read? 1 packet).bind (Frame.int? · 0) with
  | none => .error .malformed
  | some number =>
    match Kind.ofNumber? number with
    | none => .error (.messageType number)
    | some kind => .ok kind

/-- The fields of a packet of a kind: transaction id, sender and content. -/
def fieldsOf? (kind : Kind) (packet : Bytes) : Option (Bytes × Bytes × Content) := do
  let frame ← Frame.read? kind.fieldCount packet
  let transaction ← frame.bytes? 1
  let sender ← frame.bytes? 2
  let content ← Content.ofFrame? frame kind
  return (transaction, sender, content)

/-- The message of a packet. -/
def decode (packet : Bytes) : Except DecodeError Message := do
  let kind ← kindOf packet
  match fieldsOf? kind packet with
  | none => .error .malformed
  | some (transaction, sender, content) =>
    match TransactionId.ofBytes? transaction, Id.ofBytes? sender with
    | none, _ => .error (.transactionId transaction)
    | _, none => .error (.idSize sender.length)
    | some transaction, some sender =>
      let body ← content.body
      return ⟨transaction, sender, body⟩

end Message

end Kademlia
