import Kademlia.Bytes

/-!
# Kademlia.DecodeError

Why a text or a packet was refused, by cause, with the wording of each cause in `message`.
-/

namespace Kademlia

/-- What is wrong with the payload of a response. -/
inductive PayloadDefect where
  /-- A dictionary of publishers has no key of an id's length. -/
  | noKey
  | valuesNotList
  | contactNotBytes
  | integer
deriving DecidableEq

/-- Why a text or a packet was refused. -/
inductive DecodeError where
  /-- The packet is not bencode of the expected shape. -/
  | malformed
  /-- An id has another number of bytes than 48. -/
  | idSize (length : Nat)
  /-- A text is not the hexadecimal form of an id. -/
  | idText (text : String)
  /-- A transaction id has another number of bytes than 20. -/
  | transactionId (bytes : Bytes)
  /-- The number of the message's type is not 0, 1 or 2. -/
  | messageType (number : Int)
  /-- The compact form of a contact has a wrong number of bytes. -/
  | compactSize (length : Nat)
  /-- The payload of a response makes no sense. -/
  | payload (defect : PayloadDefect)
  /-- An address is not of the supported family. -/
  | ipv6
deriving DecidableEq

/-- The wording of a payload's defect. -/
def PayloadDefect.message : PayloadDefect → String
  | .noKey => "found values without a key"
  | .valuesNotList => "found values are not a list"
  | .contactNotBytes => "compact node info is not a byte string"
  | .integer => "integer response payload"

/-- The wording of an error. Bytes are written in decimal. -/
def DecodeError.message : DecodeError → String
  | .malformed => "Failed to parse packet bytes"
  | .idSize length => "Invalid Id size, expected 48, got " ++ toString length
  | .idText text => "Invalid Id encoding: " ++ text
  | .transactionId bytes =>
    "Invalid transaction_id: [" ++ ", ".intercalate (bytes.map (toString ·.toNat)) ++ "]"
  | .messageType number => "Invalid message type: " ++ toString number
  | .compactSize length => "Invalid compact node info length: " ++ toString length
  | .payload defect => "Invalid response payload: " ++ defect.message
  | .ipv6 => "IPv6 is not supported"

end Kademlia
