import Kademlia.Bencode.Writer
import Kademlia.Message.Basic
import Kademlia.Text.Utf8

/-!
# Kademlia.Message.Encode

The packet of a message: a bencoded dictionary with the fields `0` (the message's type), `1` (the
transaction id), `2` (the sender), `3` (method, payload or name of the error) and, for requests and
errors, `4` (the arguments). Every dictionary is written with its keys in ascending order.
-/

namespace Kademlia

/-- A contact as a value. -/
def Contact.toBencode (contact : Contact) : Bencode := .bytes contact.toCompact

/-- A text as a value. -/
def Bencode.text (content : String) : Bencode := .bytes (Utf8.encode content)

/-- The arguments of a request. A request that cannot be served has none. -/
def Request.arguments : Request → List Bencode
  | .ping | .invalid .. => []
  | .store key publisher port =>
    [.bytes key.toBytes,
      .dict [(.text "lbryid", .bytes publisher.toBytes), (.text "port", .int port.toNat)]]
  | .findNode target => [.bytes target.toBytes]
  | .findValue key => [.bytes key.toBytes]

/-- The payload of a response. -/
def Response.payload : Response → Bencode
  | .success marker => .text marker
  | .nodes contacts => .list (contacts.map Contact.toBencode)
  | .values key publishers =>
    .dict [(.bytes key.toBytes, .list (publishers.map Contact.toBencode))]

/-- The fields of a message from `3` on. -/
def Body.fields : Body → List (Bencode × Bencode)
  | .request asked => [(.text "3", .text asked.method), (.text "4", .list asked.arguments)]
  | .response answer => [(.text "3", answer.payload)]
  | .fault refusal =>
    [(.text "3", .text refusal.exception), (.text "4", .list (refusal.args.map .bytes))]

/-- A message as a dictionary of its fields. -/
def Message.toBencode (message : Message) : Bencode :=
  .dict <|
    (.text "0", .int message.body.number) ::
    (.text "1", .bytes message.transaction.toBytes) ::
    (.text "2", .bytes message.sender.toBytes) :: message.body.fields

/-- The packet of a message. -/
def Message.encode (message : Message) : Bytes := message.toBencode.write

end Kademlia
