import Kademlia.Bencode.Reader
import Kademlia.Text.Utf8

/-!
# Kademlia.Bencode.Frame

A packet is a record of numbered fields. It is written as a dictionary whose keys are the digits
`0`, `1`, …; it may also be given as a list of the fields in order.

* As a dictionary it has to be complete, all keys have to be text, and no field may occur twice.
  Other keys are passed over together with their values.
* As a list it is read no further than its last field needs, not even to the end mark.

How many fields there are is an argument, since a packet is first read for its field `0` alone.
-/

namespace Kademlia

/-- The fields of a packet with their numbers. -/
abbrev Frame := List (Nat × Bencode)

namespace Frame

/-- Is the key of an entry text? -/
def isText : Bencode → Bool
  | .bytes content => Utf8.isValid content
  | _ => false

/-- The field that a key names: a digit for a number below `count`. -/
def fieldNumber? (count : Nat) : Bencode → Option Nat
  | .bytes [digit] =>
    if 48 ≤ digit.toNat ∧ digit.toNat - 48 < count then some (digit.toNat - 48) else none
  | _ => none

/-- The fields of a dictionary. -/
def ofEntries? (count : Nat) (entries : List (Bencode × Bencode)) : Option Frame :=
  let fields := entries.filterMap fun (key, value) => (fieldNumber? count key).map (·, value)
  if (entries.all fun entry => isText entry.1) ∧ (fields.map Prod.fst).Nodup then some fields
  else none

/-- Up to `count` items of a list whose mark has been read; fewer if the list ends. -/
def readUpTo : Nat → Bytes → Option (List Bencode)
  | 0, _ => some []
  | count + 1, bytes =>
    if bytes.head? = some Bencode.endMark then some []
    else do
      let (item, rest) ← Bencode.read bytes
      let items ← readUpTo count rest
      some (item :: items)

/-- The first `count` fields of a packet, as far as it has them. -/
def read? (count : Nat) : Bytes → Option Frame
  | [] => none
  | mark :: rest =>
    if mark = Bencode.dictMark then do
      let (entries, _) ← Bencode.readEntries (Bencode.readMeasure rest) rest
      ofEntries? count entries
    else if mark = Bencode.listMark then do
      let items ← readUpTo count rest
      some ((List.range items.length).zip items)
    else none

/-- The field with a number. -/
def field? (frame : Frame) (number : Nat) : Option Bencode := frame.lookup number

/-- The integer in a field. -/
def int? (frame : Frame) (number : Nat) : Option Int :=
  match frame.field? number with
  | some (.int n) => some n
  | _ => none

/-- The byte string that a field stands for. -/
def bytes? (frame : Frame) (number : Nat) : Option Bytes :=
  (frame.field? number).bind Bencode.byteString?

/-- The value in a field, if its dictionaries can be used. -/
def value? (frame : Frame) (number : Nat) : Option Bencode :=
  match frame.field? number with
  | some value => if value.keyed then some value else none
  | none => none

/-- The items of the list in a field; none if there is no such field. -/
def items? (frame : Frame) (number : Nat) : Option (List Bencode) :=
  match frame.field? number with
  | none => some []
  | some (.list items) => some items
  | some _ => none

end Frame

end Kademlia
