import Kademlia.Text.Utf8
import Mathlib.Data.List.Basic

/-!
# Kademlia.Proofs.Utf8

What a text that was read tells of its bytes. Reading takes any bytes, and puts U+FFFD in place of
what is malformed, so many byte strings may come to one text. A text without that character comes
from its own encoding and from nothing else (`Utf8.decode_eq_iff`).

The key is that a character which is read from some bytes has these bytes as its encoding
(`Utf8.encodeChar_of_character`). The bounds on the second byte, by which overlong forms are
refused, are needed here and only here.
-/

namespace Kademlia

namespace Utf8

variable {first : UInt8} {bytes rest : Bytes} {char : Char} {code used bits low high : Nat}

/-! ### Characters -/

/-- A character that needs further bytes has the first of them, within the bounds. -/
theorem complete_succ_eq_some {following : Nat}
    (h : complete (following + 1) low high bits bytes = (some code, used)) :
    ∃ byte rest left, bytes = byte :: rest ∧ used = left + 1 ∧ low ≤ byte.toNat ∧
      byte.toNat ≤ high ∧
      complete following 0x80 0xBF (64 * bits + (byte.toNat - 0x80)) rest = (some code, left) := by
  cases bytes with
  | nil => simp [complete] at h
  | cons byte rest =>
    rw [complete] at h
    split at h
    · rename_i hbounds
      obtain ⟨hcode, rfl⟩ := Prod.mk.inj h
      exact ⟨byte, rest, _, rfl, rfl, hbounds.1, hbounds.2, Prod.ext hcode rfl⟩
    · cases (Prod.mk.inj h).1

theorem complete_zero_eq_some
    (h : complete 0 low high bits bytes = (some code, used)) : code = bits ∧ used = 0 := by
  obtain ⟨hcode, rfl⟩ := Prod.mk.inj h
  exact ⟨(Option.some.inj hcode).symm, rfl⟩

/-- What a first byte announces, by the number of bytes that follow. -/
theorem lead?_eq_some {n : Nat} {lead : Lead} (h : lead? n = some lead) :
    (lead.following = 0 ∧ n < 0x80 ∧ lead.bits = n) ∨
      (lead.following = 1 ∧ 0xC2 ≤ n ∧ n < 0xE0 ∧ lead.bits = n - 0xC0 ∧
        lead.low = 0x80 ∧ lead.high = 0xBF) ∨
      (lead.following = 2 ∧ 0xE0 ≤ n ∧ n < 0xF0 ∧ lead.bits = n - 0xE0 ∧ 0x80 ≤ lead.low ∧
        lead.high ≤ 0xBF ∧ (n = 0xE0 → lead.low = 0xA0) ∧ (n = 0xED → lead.high = 0x9F)) ∨
      (lead.following = 3 ∧ 0xF0 ≤ n ∧ n ≤ 0xF4 ∧ lead.bits = n - 0xF0 ∧ 0x80 ≤ lead.low ∧
        lead.high ≤ 0xBF ∧ (n = 0xF0 → lead.low = 0x90) ∧ (n = 0xF4 → lead.high = 0x8F)) := by
  unfold lead? at h
  split_ifs at h <;> obtain rfl := Option.some.inj h <;> dsimp only <;> omega

theorem toNat_ofNat {n : Nat} (h : n < 0xD800 ∨ 0xDFFF < n ∧ n < 0x110000) :
    (Char.ofNat n).val.toNat = n := by
  have hvalid : n.isValidChar := by
    unfold Nat.isValidChar
    omega
  rw [Char.ofNat, dif_pos hvalid]
  rfl

/-- A byte is known by its number. -/
theorem ofNat_eq {n : Nat} (byte : UInt8) (h : n = byte.toNat) : UInt8.ofNat n = byte :=
  h ▸ UInt8.ofNat_toNat

/-- A character that was read has the bytes it was read from as its encoding. -/
theorem encodeChar_of_character (h : character first rest = (some char, used)) :
    String.utf8EncodeChar char = first :: rest.take used := by
  rw [character] at h
  cases hlead : lead? first.toNat with
  | none => simp [hlead] at h
  | some lead =>
    obtain ⟨following, low, high, bits⟩ := lead
    simp only [hlead, Prod.mk.injEq, Option.map_eq_some_iff] at h
    obtain ⟨⟨code, hfound, rfl⟩, hused⟩ := h
    have hcomplete : complete following low high bits rest = (some code, used) :=
      Prod.ext hfound hused
    have hkinds := lead?_eq_some hlead
    dsimp only at hkinds
    rcases hkinds with ⟨rfl, hfirst, rfl⟩ | ⟨rfl, hfirst, hlast, hbits, hlow, hhigh⟩ |
      ⟨rfl, hfirst, hlast, hbits, hlow, hhigh, hoverlong, hsurrogate⟩ |
      ⟨rfl, hfirst, hlast, hbits, hlow, hhigh, hoverlong, hbeyond⟩
    · obtain ⟨hcode, rfl⟩ := complete_zero_eq_some hcomplete
      have hn : (Char.ofNat code).val.toNat = code := toNat_ofNat (by omega)
      simp only [String.utf8EncodeChar, hn]
      rw [if_pos (by omega), ofNat_eq first hcode]
      simp
    · obtain ⟨second, tail, left, rfl, rfl, hsecond, hsecond', hcomplete⟩ :=
        complete_succ_eq_some hcomplete
      obtain ⟨hcode, rfl⟩ := complete_zero_eq_some hcomplete
      have hn : (Char.ofNat code).val.toNat = code := toNat_ofNat (by omega)
      simp only [String.utf8EncodeChar, hn]
      rw [if_neg (by omega), if_pos (by omega), ofNat_eq first (by omega),
        ofNat_eq second (by omega)]
      simp
    · obtain ⟨second, tail, left, rfl, rfl, hsecond, hsecond', hcomplete⟩ :=
        complete_succ_eq_some hcomplete
      obtain ⟨third, tail, left, rfl, rfl, hthird, hthird', hcomplete⟩ :=
        complete_succ_eq_some hcomplete
      obtain ⟨hcode, rfl⟩ := complete_zero_eq_some hcomplete
      have hn : (Char.ofNat code).val.toNat = code := toNat_ofNat (by omega)
      simp only [String.utf8EncodeChar, hn]
      rw [if_neg (by omega), if_neg (by omega), if_pos (by omega),
        ofNat_eq first (by omega), ofNat_eq second (by omega),
        ofNat_eq third (by omega)]
      simp
    · obtain ⟨second, tail, left, rfl, rfl, hsecond, hsecond', hcomplete⟩ :=
        complete_succ_eq_some hcomplete
      obtain ⟨third, tail, left, rfl, rfl, hthird, hthird', hcomplete⟩ :=
        complete_succ_eq_some hcomplete
      obtain ⟨fourth, tail, left, rfl, rfl, hfourth, hfourth', hcomplete⟩ :=
        complete_succ_eq_some hcomplete
      obtain ⟨hcode, rfl⟩ := complete_zero_eq_some hcomplete
      have hn : (Char.ofNat code).val.toNat = code := toNat_ofNat (by omega)
      simp only [String.utf8EncodeChar, hn]
      rw [if_neg (by omega), if_neg (by omega), if_neg (by omega),
        ofNat_eq first (by omega), ofNat_eq second (by omega),
        ofNat_eq third (by omega), ofNat_eq fourth (by omega)]
      simp

/-! ### Texts -/

theorem pieces_eq_drop (skip : Nat) (bytes : Bytes) :
    pieces skip bytes = pieces 0 (bytes.drop skip) := by
  induction bytes generalizing skip with
  | nil => cases skip <;> simp [pieces]
  | cons byte rest ih =>
    cases skip with
    | zero => rfl
    | succ skip => rw [pieces, ih, List.drop_succ_cons]

/-- Bytes without malformed pieces are the encodings of their characters. -/
theorem flatMap_encodeChar_of_pieces {chars : List Char} (h : pieces 0 bytes = chars.map some) :
    chars.flatMap String.utf8EncodeChar = bytes := by
  induction chars generalizing bytes with
  | nil =>
    cases bytes with
    | nil => rfl
    | cons byte rest => simp [pieces] at h
  | cons char chars ih =>
    cases bytes with
    | nil => simp [pieces] at h
    | cons byte rest =>
      have hsplit : pieces 0 (byte :: rest) =
          (character byte rest).1 :: pieces (character byte rest).2 rest := rfl
      rw [hsplit, List.map_cons] at h
      obtain ⟨hchar, hrest⟩ := List.cons.inj h
      have hencode := encodeChar_of_character (Prod.ext hchar rfl)
      rw [pieces_eq_drop] at hrest
      rw [List.flatMap_cons, hencode, ih hrest, List.cons_append, List.take_append_drop]

/-- What reads as a text without a replacement character is the encoding of the text. -/
theorem decode_eq_iff {text : String} (h : '\uFFFD' ∉ text.toList) :
    decode bytes = text ↔ bytes = encode text := by
  refine ⟨fun hread => ?_, fun heq => heq ▸ decode_encode text⟩
  have hchars : (pieces 0 bytes).map (Option.getD · '\uFFFD') = text.toList := by
    rw [← hread, decode, String.toList_ofList]
  -- A malformed piece would have been read as a replacement character.
  have hpieces : pieces 0 bytes = text.toList.map some := by
    rw [← hchars, List.map_map]
    refine (List.map_id _).symm.trans (List.map_congr_left fun piece hpiece => ?_)
    cases piece with
    | some char => rfl
    | none => exact absurd (hchars ▸ List.mem_map_of_mem hpiece) h
  exact (flatMap_encodeChar_of_pieces hpieces).symm

end Utf8

end Kademlia
