import Kademlia.Bencode.Writer

/-!
# Kademlia.Bencode.Reader

Reading a bencoded value off the front of a byte string. Beyond written forms the reader takes
leading zeros in numbers, and a plus sign or a negative zero in integers. Integers have to fit 64
bits with sign, and a byte string has to be there as long as its length says.

A value ends by itself, so each reader returns what follows. The recursion runs on a measure of the
bytes left: a value takes at least one byte, and a step from a list or dictionary to its next
value takes none, so twice the length suffices. The measure also bounds the length of byte strings,
which saves counting the bytes that are left.
-/

namespace Kademlia

namespace Bencode

/-- The characters up to a mark, and what follows the mark. -/
def readUntil (mark : UInt8) (bytes : Bytes) : Option (List Char × Bytes) :=
  match bytes.dropWhile (· != mark) with
  | [] => none
  | _ :: rest => some ((bytes.takeWhile (· != mark)).map Char.ofUInt8, rest)

/-- The integer whose text follows, up to the end mark. -/
def readInt (bytes : Bytes) : Option (Int × Bytes) := do
  let (text, rest) ← readUntil endMark bytes
  let n ← Decimal.intUpTo? 9223372036854775808 text
  if inRange n then some (n, rest) else none

/-- The byte string whose length and content follow; it is no longer than the limit. -/
def readBytes (limit : Nat) (bytes : Bytes) : Option (Bytes × Bytes) := do
  let (text, rest) ← readUntil colon bytes
  let length ← Decimal.natUpTo? limit text
  rest.splitAt? length

mutual

/-- The value that starts a byte string, and what follows it. -/
def readWithin : Nat → Bytes → Option (Bencode × Bytes)
  | 0, _ => none
  | _ + 1, [] => none
  | fuel + 1, first :: rest =>
    if first = intMark then (readInt rest).map fun (n, rest) => (.int n, rest)
    else if first = listMark then
      (readItems fuel rest).map fun (items, rest) => (.list items, rest)
    else if first = dictMark then
      (readEntries fuel rest).map fun (entries, rest) => (.dict entries, rest)
    else (readBytes fuel (first :: rest)).map fun (content, rest) => (.bytes content, rest)

/-- The items up to the end mark, and what follows it. -/
def readItems : Nat → Bytes → Option (List Bencode × Bytes)
  | 0, _ => none
  | _ + 1, [] => none
  | fuel + 1, first :: rest =>
    if first = endMark then some ([], rest)
    else do
      let (item, rest) ← readWithin fuel (first :: rest)
      let (items, rest) ← readItems fuel rest
      some (item :: items, rest)

/-- The entries up to the end mark, and what follows it. -/
def readEntries : Nat → Bytes → Option (List (Bencode × Bencode) × Bytes)
  | 0, _ => none
  | _ + 1, [] => none
  | fuel + 1, first :: rest =>
    if first = endMark then some ([], rest)
    else do
      let (key, rest) ← readWithin fuel (first :: rest)
      let (value, rest) ← readWithin fuel rest
      let (entries, rest) ← readEntries fuel rest
      some ((key, value) :: entries, rest)

end

/-- A measure that suffices to read any value of a byte string. -/
def readMeasure (bytes : Bytes) : Nat := 2 * bytes.length + 2

/-- The value that starts a byte string, and what follows it. -/
def read (bytes : Bytes) : Option (Bencode × Bytes) :=
  readWithin (readMeasure bytes) bytes

end Bencode

end Kademlia
