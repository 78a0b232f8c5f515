import Kademlia.Id.Basic

/-!
# Kademlia.Id.Hex

The text of an id: two hexadecimal digits a byte. Writing uses lower case; reading takes either
case, and also a plus sign and one digit in place of two digits.
-/

namespace Kademlia

/-- The value of a hexadecimal digit of either case. -/
def hexValue? (char : Char) : Option Nat :=
  if '0' ≤ char ∧ char ≤ '9' then some (char.toNat - '0'.toNat)
  else if 'a' ≤ char ∧ char ≤ 'f' then some (char.toNat - 'a'.toNat + 10)
  else if 'A' ≤ char ∧ char ≤ 'F' then some (char.toNat - 'A'.toNat + 10)
  else none

/-- The byte that two characters write: two digits, or a plus sign and a digit. -/
def hexByte? (first second : Char) : Option UInt8 :=
  match hexValue? second with
  | none => none
  | some low =>
    if first = '+' then some (UInt8.ofNat low)
    else (hexValue? first).map fun high => UInt8.ofNat (16 * high + low)

/-- The bytes that pairs of characters write. -/
def hexBytes? : List Char → Option Bytes
  | [] => some []
  | [_] => none
  | first :: second :: rest => do
    let byte ← hexByte? first second
    let bytes ← hexBytes? rest
    some (byte :: bytes)

namespace Id

/-- The id that a text writes, if the text has the right length and digits. -/
def ofHex? (text : String) : Option Id :=
  (hexBytes? text.toList).bind ofBytes?

/-- The text of an id. -/
def toHex (id : Id) : String := id.toBytes.toHex

/-- A short name for an id: its first four bytes. -/
def label (id : Id) : String := "Id(" ++ Bytes.toHex (id.toBytes.take 4) ++ ")"

end Id

end Kademlia
