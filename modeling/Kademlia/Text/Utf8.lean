import Kademlia.Bytes

/-!
# Kademlia.Text.Utf8

Text as it travels in packets. Writing is core's UTF-8; reading never fails, because a peer may
send anything: each maximal malformed piece is read as one replacement character U+FFFD. A
malformed piece is maximal when it is the longest start of some character's encoding, or a single
byte that starts none.

`decode_encode` says that text survives the way through a packet.
-/

namespace Kademlia

namespace Utf8

/-- The bytes of a text. -/
def encode (text : String) : Bytes :=
  text.toList.flatMap String.utf8EncodeChar

/-- What the first byte of a character's encoding announces. -/
structure Lead where
  following : Nat
  /-- The least value of the byte that follows first. -/
  low : Nat
  /-- The greatest value of the byte that follows first. -/
  high : Nat
  /-- The bits of the character that the first byte holds. -/
  bits : Nat

/-- The announcement of a first byte, if it may start an encoding. The bounds on the second byte
leave out overlong forms, surrogates and values beyond U+10FFFF. -/
def lead? (first : Nat) : Option Lead :=
  if first < 0x80 then some ⟨0, 0x80, 0xBF, first⟩
  else if first < 0xC2 then none
  else if first < 0xE0 then some ⟨1, 0x80, 0xBF, first - 0xC0⟩
  else if first = 0xE0 then some ⟨2, 0xA0, 0xBF, 0⟩
  else if first = 0xED then some ⟨2, 0x80, 0x9F, 0xD⟩
  else if first < 0xF0 then some ⟨2, 0x80, 0xBF, first - 0xE0⟩
  else if first = 0xF0 then some ⟨3, 0x90, 0xBF, 0⟩
  else if first < 0xF4 then some ⟨3, 0x80, 0xBF, first - 0xF0⟩
  else if first = 0xF4 then some ⟨3, 0x80, 0x8F, 4⟩
  else none

/-- The code point that the following bytes complete, and how many of them belong to it or to the
malformed piece. Six bits come from each following byte. -/
def complete : Nat → Nat → Nat → Nat → Bytes → Option Nat × Nat
  | 0, _, _, bits, _ => (some bits, 0)
  | _ + 1, _, _, _, [] => (none, 0)
  | following + 1, low, high, bits, byte :: rest =>
    if low ≤ byte.toNat ∧ byte.toNat ≤ high then
      let (code, used) := complete following 0x80 0xBF (64 * bits + (byte.toNat - 0x80)) rest
      (code, used + 1)
    else (none, 0)

/-- The character that starts with a byte, and how many further bytes it or the malformed piece
takes. -/
def character (first : UInt8) (rest : Bytes) : Option Char × Nat :=
  match lead? first.toNat with
  | none => (none, 0)
  | some lead =>
    let (code, used) := complete lead.following lead.low lead.high lead.bits rest
    (code.map Char.ofNat, used)

/-- The characters of a byte string after `skip` bytes, and `none` for each malformed piece. -/
def pieces : Nat → Bytes → List (Option Char)
  | _, [] => []
  | skip + 1, _ :: rest => pieces skip rest
  | 0, byte :: rest =>
    let (char, used) := character byte rest
    char :: pieces used rest

/-- Is the byte string the encoding of a text? -/
def isValid (bytes : Bytes) : Bool :=
  (pieces 0 bytes).all Option.isSome

/-- The text of a byte string, with U+FFFD in place of each malformed piece. -/
def decode (bytes : Bytes) : String :=
  String.ofList ((pieces 0 bytes).map (Option.getD · '\uFFFD'))

/-! ### Reading back what was written -/

private theorem toNat_byte {n : Nat} (h : n < 256) : (UInt8.ofNat n).toNat = n := by
  simp only [UInt8.toNat_ofNat']
  omega

/-- A character's encoding is read as that character, whatever follows it. -/
theorem pieces_encodeChar (char : Char) (rest : Bytes) :
    pieces 0 (String.utf8EncodeChar char ++ rest) = some char :: pieces 0 rest := by
  have hvalid := char.valid
  have hofNat : Char.ofNat char.val.toNat = char := Char.ofNat_toNat char
  simp only [UInt32.isValidChar, Nat.isValidChar] at hvalid
  unfold String.utf8EncodeChar
  generalize char.val.toNat = n at *
  simp only
  split
  · simp only [List.cons_append, List.nil_append, pieces, character]
    rw [toNat_byte (by omega), lead?, if_pos (by omega)]
    simp [complete, hofNat]
  split
  · simp only [List.cons_append, List.nil_append, pieces, character]
    rw [toNat_byte (by omega), lead?, if_neg (by omega), if_neg (by omega), if_pos (by omega)]
    simp only [complete]
    rw [toNat_byte (by omega), if_pos (by omega)]
    have : 64 * (n / 64 % 32) + n % 64 = n := by omega
    simp [pieces, this, hofNat]
  split
  · have h0 : (UInt8.ofNat (n / 4096 % 16 + 224)).toNat = n / 4096 % 16 + 224 :=
      toNat_byte (by omega)
    have h1 : (UInt8.ofNat (n / 64 % 64 + 128)).toNat = n / 64 % 64 + 128 :=
      toNat_byte (by omega)
    have h2 : (UInt8.ofNat (n % 64 + 128)).toNat = n % 64 + 128 := toNat_byte (by omega)
    have hlead : ∃ low high, lead? (n / 4096 % 16 + 224) = some ⟨2, low, high, n / 4096⟩ ∧
        low ≤ n / 64 % 64 + 128 ∧ n / 64 % 64 + 128 ≤ high := by
      unfold lead?
      rw [if_neg (by omega), if_neg (by omega), if_neg (by omega)]
      split
      · exact ⟨_, _, by rw [show n / 4096 = 0 by omega], by omega, by omega⟩
      split
      · exact ⟨_, _, by rw [show n / 4096 = 0xD by omega], by omega, by omega⟩
      rw [if_pos (by omega)]
      exact ⟨_, _, by rw [show n / 4096 % 16 + 224 - 0xE0 = n / 4096 by omega], by omega, by omega⟩
    obtain ⟨low, high, hlead, hlow, hhigh⟩ := hlead
    have hn : 64 * (64 * (n / 4096) + (n / 64 % 64 + 128 - 0x80)) + (n % 64 + 128 - 0x80) = n := by
      omega
    simp only [List.cons_append, List.nil_append, pieces, character, h0, hlead, complete, h1, h2]
    rw [if_pos ⟨hlow, hhigh⟩, if_pos (by omega), hn]
    simp [pieces, hofNat]
  · have h0 : (UInt8.ofNat (n / 262144 % 8 + 240)).toNat = n / 262144 % 8 + 240 :=
      toNat_byte (by omega)
    have h1 : (UInt8.ofNat (n / 4096 % 64 + 128)).toNat = n / 4096 % 64 + 128 :=
      toNat_byte (by omega)
    have h2 : (UInt8.ofNat (n / 64 % 64 + 128)).toNat = n / 64 % 64 + 128 :=
      toNat_byte (by omega)
    have h3 : (UInt8.ofNat (n % 64 + 128)).toNat = n % 64 + 128 := toNat_byte (by omega)
    have hlead : ∃ low high, lead? (n / 262144 % 8 + 240) = some ⟨3, low, high, n / 262144⟩ ∧
        low ≤ n / 4096 % 64 + 128 ∧ n / 4096 % 64 + 128 ≤ high := by
      unfold lead?
      rw [if_neg (by omega), if_neg (by omega), if_neg (by omega), if_neg (by omega),
        if_neg (by omega), if_neg (by omega)]
      split
      · exact ⟨_, _, by rw [show n / 262144 = 0 by omega], by omega, by omega⟩
      split
      · exact ⟨_, _, by rw [show n / 262144 % 8 + 240 - 0xF0 = n / 262144 by omega], by omega,
          by omega⟩
      rw [if_pos (by omega)]
      exact ⟨_, _, by rw [show n / 262144 = 4 by omega], by omega, by omega⟩
    obtain ⟨low, high, hlead, hlow, hhigh⟩ := hlead
    have hn : 64 * (64 * (64 * (n / 262144) + (n / 4096 % 64 + 128 - 0x80)) +
        (n / 64 % 64 + 128 - 0x80)) + (n % 64 + 128 - 0x80) = n := by omega
    simp only [List.cons_append, List.nil_append, pieces, character, h0, hlead, complete, h1, h2,
      h3]
    rw [if_pos ⟨hlow, hhigh⟩, if_pos (by omega), if_pos (by omega), hn]
    simp [pieces, hofNat]

/-- The characters of a text are read back from its bytes. -/
theorem pieces_encode (text : String) : pieces 0 (encode text) = text.toList.map some := by
  unfold encode
  induction text.toList with
  | nil => rfl
  | cons char chars ih => rw [List.flatMap_cons, pieces_encodeChar, ih, List.map_cons]

/-- Text survives being written and read. -/
theorem decode_encode (text : String) : decode (encode text) = text := by
  rw [decode, pieces_encode]
  simp [Function.comp_def]

end Utf8

end Kademlia
