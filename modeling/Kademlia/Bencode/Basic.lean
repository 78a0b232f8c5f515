import Kademlia.Bytes

/-!
# Kademlia.Bencode.Basic

Bencoded values: integers, byte strings, lists and dictionaries. A dictionary keeps its entries in
the order in which they were written and lets any value be a key, because a reader has to get past
such dictionaries even where it refuses to use them (`Bencode.keyed`).

Where a byte string is wanted, a list of small integers stands for the bytes too
(`Bencode.byteString?`). Of several entries with one key the last counts (`Bencode.entry?`).
-/

namespace Kademlia

/-- A bencoded value. -/
inductive Bencode where
  | int (n : Int)
  | bytes (content : Bytes)
  | list (items : List Bencode)
  /-- A dictionary, as its keys and values in order. -/
  | dict (entries : List (Bencode × Bencode))

namespace Bencode

/-- Is the number one that bencode holds: a signed number of 64 bits? -/
def inRange (n : Int) : Bool := -9223372036854775808 ≤ n && n ≤ 9223372036854775807

/-- The byte that an integer value stands for. -/
def byte? : Bencode → Option UInt8
  | .int n => if 0 ≤ n ∧ n < 256 then some (UInt8.ofNat n.toNat) else none
  | _ => none

/-- The byte string that a value stands for: itself, or the bytes that it lists. -/
def byteString? : Bencode → Option Bytes
  | .bytes content => some content
  | .list items => items.mapM byte?
  | _ => none

mutual

/-- Do the keys of all dictionaries within a value stand for byte strings? -/
def keyed : Bencode → Bool
  | .int _ | .bytes _ => true
  | .list items => keyedItems items
  | .dict entries => keyedEntries entries

/-- `keyed` for the items of a list. -/
def keyedItems : List Bencode → Bool
  | [] => true
  | item :: items => item.keyed && keyedItems items

/-- `keyed` for the entries of a dictionary. -/
def keyedEntries : List (Bencode × Bencode) → Bool
  | [] => true
  | (key, value) :: entries => key.byteString?.isSome && value.keyed && keyedEntries entries

end

/-- The value of a key: that of the last entry whose key stands for the given bytes. -/
def entry? (entries : List (Bencode × Bencode)) (key : Bytes) : Option Bencode :=
  (entries.reverse.find? fun entry => entry.1.byteString? == some key).map Prod.snd

end Bencode

end Kademlia
