import Kademlia.Bencode.Basic
import Kademlia.Text.Decimal

/-!
# Kademlia.Bencode.Writer

The written form of bencoded values. An integer stands between `i` and `e`; a byte string follows
its length and a colon; the items of a list stand between `l` and `e`, and the keys and values of a
dictionary, in turn, between `d` and `e`.
-/

namespace Kademlia

namespace Bencode

/-- The letter `i`, before an integer. -/
def intMark : UInt8 := 105

/-- The letter `l`, before the items of a list. -/
def listMark : UInt8 := 108

/-- The letter `d`, before the entries of a dictionary. -/
def dictMark : UInt8 := 100

/-- The letter `e`, after an integer, the items or the entries. -/
def endMark : UInt8 := 101

/-- The colon, between the length of a byte string and its content. -/
def colon : UInt8 := 58

/-- The written form of a byte string. -/
def writeBytes (content : Bytes) : Bytes :=
  (Nat.toDigits 10 content.length).map Char.toUInt8 ++ colon :: content

/-- The written form of an integer. -/
def writeInt (n : Int) : Bytes :=
  intMark :: (Decimal.ofInt n).map Char.toUInt8 ++ [endMark]

mutual

/-- The written form of a value. -/
def write : Bencode → Bytes
  | .int n => writeInt n
  | .bytes content => writeBytes content
  | .list items => listMark :: writeItems items
  | .dict entries => dictMark :: writeEntries entries

/-- The written form of the items of a list, with the end mark. -/
def writeItems : List Bencode → Bytes
  | [] => [endMark]
  | item :: items => item.write ++ writeItems items

/-- The written form of the entries of a dictionary, with the end mark. -/
def writeEntries : List (Bencode × Bencode) → Bytes
  | [] => [endMark]
  | (key, value) :: entries => key.write ++ value.write ++ writeEntries entries

end

end Bencode

end Kademlia
