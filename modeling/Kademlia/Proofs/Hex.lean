import Kademlia.Id.Hex
import Mathlib.Tactic.IntervalCases

/-!
# Kademlia.Proofs.Hex

The texts that write an id, and what is read from them (`Id.ofHex?_spec`). An id has one text of its
own, with two digits a byte and in lower case. It is also read from others: from the same digits in
upper case, and from texts with a plus sign in place of the first digit of a byte, which then counts
as a zero (`Id.ofHex?_plus_sign`).

Reading goes by pairs of characters, and so does every proof here. `Paired` says by positions what
the pairs have to be.
-/

namespace Kademlia

/-! ### Digits -/

/-- Is the character a digit of hexadecimal numbers, of either case? -/
def IsHexDigit (char : Char) : Prop :=
  ('0' ≤ char ∧ char ≤ '9') ∨ ('a' ≤ char ∧ char ≤ 'f') ∨ ('A' ≤ char ∧ char ≤ 'F')

instance : DecidablePred IsHexDigit := fun _ => inferInstanceAs (Decidable (_ ∨ _))

/-- The digit that a character stands for in the text of an id: a plus sign stands for a zero. -/
def plainDigit (char : Char) : Char := (if char = '+' then '0' else char).toLower

/-- The value of a digit is that of its lower case. -/
theorem hexValue?_of_isHexDigit {char : Char} (h : IsHexDigit char) :
    ∃ value < 16, hexValue? char = some value ∧ Nat.digitChar value = plainDigit char := by
  obtain ⟨code, hcode⟩ : ∃ code, code = char.toNat := ⟨_, rfl⟩
  obtain rfl : char = Char.ofNat code := hcode ▸ (Char.ofNat_toNat char).symm
  rcases h with ⟨hlow, hhigh⟩ | ⟨hlow, hhigh⟩ | ⟨hlow, hhigh⟩
  · have hlow : 48 ≤ code := hcode ▸ hlow
    have hhigh : code ≤ 57 := hcode ▸ hhigh
    interval_cases code <;> exact ⟨_, by decide, rfl, rfl⟩
  · have hlow : 97 ≤ code := hcode ▸ hlow
    have hhigh : code ≤ 102 := hcode ▸ hhigh
    interval_cases code <;> exact ⟨_, by decide, rfl, rfl⟩
  · have hlow : 65 ≤ code := hcode ▸ hlow
    have hhigh : code ≤ 70 := hcode ▸ hhigh
    interval_cases code <;> exact ⟨_, by decide, rfl, rfl⟩

/-- Nothing but a digit has a value. -/
theorem hexValue?_isSome_iff {char : Char} : (hexValue? char).isSome ↔ IsHexDigit char := by
  refine ⟨fun h => ?_, fun h => ?_⟩
  · rw [hexValue?] at h
    split_ifs at h with hdecimal hlower hupper
    · exact .inl hdecimal
    · exact .inr (.inl hlower)
    · exact .inr (.inr hupper)
    · cases h
  · obtain ⟨value, -, hvalue, -⟩ := hexValue?_of_isHexDigit h
    rw [hvalue]
    rfl

theorem hexValue?_digitChar {value : Nat} (h : value < 16) :
    hexValue? (Nat.digitChar value) = some value := by
  interval_cases value <;> rfl

theorem isHexDigit_digitChar {value : Nat} (h : value < 16) : IsHexDigit (Nat.digitChar value) :=
  hexValue?_isSome_iff.mp (Option.isSome_of_eq_some (hexValue?_digitChar h))

/-! ### Pairs of characters -/

variable {first second : Char} {byte : UInt8} {rest text : List Char} {bytes : Bytes}

/-- The byte of two digits has these digits. -/
theorem hexDigits_ofNat {high low : Nat} (hhigh : high < 16) (hlow : low < 16) :
    Bytes.hexDigits (UInt8.ofNat (16 * high + low)) =
      [Nat.digitChar high, Nat.digitChar low] := by
  have hbyte : (UInt8.ofNat (16 * high + low)).toNat = 16 * high + low := by
    rw [UInt8.toNat_ofNat']
    omega
  have hdiv : (16 * high + low) / 16 = high := by omega
  have hmod : (16 * high + low) % 16 = low := by omega
  rw [Bytes.hexDigits, hbyte, hdiv, hmod]

/-- What a pair has to be, and the digits of the byte that it writes. -/
theorem hexByte?_eq_some (h : hexByte? first second = some byte) :
    (IsHexDigit first ∨ first = '+') ∧ IsHexDigit second ∧
      Bytes.hexDigits byte = [plainDigit first, plainDigit second] := by
  rw [hexByte?] at h
  cases hsecond : hexValue? second with
  | none => simp [hsecond] at h
  | some low =>
    have hdigit := hexValue?_isSome_iff.mp (Option.isSome_of_eq_some hsecond)
    obtain ⟨value, hlow, hvalue, hplain⟩ := hexValue?_of_isHexDigit hdigit
    obtain rfl : value = low := Option.some.inj (hvalue.symm.trans hsecond)
    simp only [hsecond] at h
    split_ifs at h with hplus
    · obtain rfl := Option.some.inj h
      have hbyte := hexDigits_ofNat (show 0 < 16 by decide) hlow
      rw [Nat.mul_zero, Nat.zero_add] at hbyte
      exact ⟨.inr hplus, hdigit, by rw [hbyte, hplain, hplus]; rfl⟩
    · obtain ⟨high, hfirst, rfl⟩ := Option.map_eq_some_iff.mp h
      have hfirstDigit := hexValue?_isSome_iff.mp (Option.isSome_of_eq_some hfirst)
      obtain ⟨other, hhigh, hother, hfirstPlain⟩ := hexValue?_of_isHexDigit hfirstDigit
      obtain rfl : other = high := Option.some.inj (hother.symm.trans hfirst)
      exact ⟨.inl hfirstDigit, hdigit, by rw [hexDigits_ofNat hhigh hlow, hplain, hfirstPlain]⟩

theorem hexByte?_isSome (hfirst : IsHexDigit first ∨ first = '+') (hsecond : IsHexDigit second) :
    ∃ byte, hexByte? first second = some byte := by
  obtain ⟨low, -, hlow, -⟩ := hexValue?_of_isHexDigit hsecond
  rw [hexByte?, hlow]
  rcases hfirst with hfirst | rfl
  · obtain ⟨high, -, hhigh, -⟩ := hexValue?_of_isHexDigit hfirst
    dsimp only
    split_ifs
    · exact ⟨_, rfl⟩
    · rw [hhigh]
      exact ⟨_, rfl⟩
  · exact ⟨_, rfl⟩

/-- A byte is read back from its digits. -/
theorem hexByte?_hexDigits (byte : UInt8) :
    hexByte? (Nat.digitChar (byte.toNat / 16)) (Nat.digitChar (byte.toNat % 16)) = some byte := by
  have hbyte := byte.toNat_lt
  have hhigh : byte.toNat / 16 < 16 := by omega
  have hlow : byte.toNat % 16 < 16 := by omega
  have hne : Nat.digitChar (byte.toNat / 16) ≠ '+' := by
    intro heq
    exact absurd (heq ▸ isHexDigit_digitChar hhigh) (by decide)
  have hsum : 16 * (byte.toNat / 16) + byte.toNat % 16 = byte.toNat := by omega
  rw [hexByte?, hexValue?_digitChar hlow]
  dsimp only
  rw [if_neg hne, hexValue?_digitChar hhigh, Option.map_some, hsum, UInt8.ofNat_toNat]

/-! ### Texts -/

/-- Every character is a digit, or a plus sign in the place of the first digit of a byte. -/
def Paired (text : List Char) : Prop :=
  ∀ position char, text[position]? = some char →
    IsHexDigit char ∨ (char = '+' ∧ position % 2 = 0)

theorem paired_cons_cons : Paired (first :: second :: rest) ↔
    (IsHexDigit first ∨ first = '+') ∧ IsHexDigit second ∧ Paired rest := by
  refine ⟨fun h => ⟨?_, ?_, fun position char hchar => ?_⟩, fun h position char hchar => ?_⟩
  · exact (h 0 first rfl).imp_right And.left
  · exact (h 1 second rfl).resolve_right fun hplus => absurd hplus.2 (by decide)
  · refine (h (position + 2) char hchar).imp_right fun hplus => ⟨hplus.1, ?_⟩
    rw [← hplus.2, Nat.add_mod_right]
  · obtain ⟨hfirst, hsecond, hrest⟩ := h
    match position, hchar with
    | 0, hchar =>
      obtain rfl := Option.some.inj hchar
      exact hfirst.imp_right fun hplus => ⟨hplus, rfl⟩
    | 1, hchar =>
      obtain rfl := Option.some.inj hchar
      exact .inl hsecond
    | position + 2, hchar =>
      refine (hrest position char hchar).imp_right fun hplus => ⟨hplus.1, ?_⟩
      rw [Nat.add_mod_right, hplus.2]

/-- What a text has to be, and the digits of the bytes that it writes. -/
theorem hexBytes?_eq_some (h : hexBytes? text = some bytes) :
    text.length = 2 * bytes.length ∧ Paired text ∧
      bytes.flatMap Bytes.hexDigits = text.map plainDigit := by
  induction text using hexBytes?.induct generalizing bytes with
  | case1 =>
    obtain rfl := Option.some.inj h
    exact ⟨rfl, fun position char hchar => by simp at hchar, rfl⟩
  | case2 char => cases h
  | case3 first second rest ih =>
    simp only [hexBytes?, Option.bind_eq_bind, Option.bind_eq_some_iff, Option.some.injEq] at h
    obtain ⟨byte, hbyte, others, hothers, rfl⟩ := h
    obtain ⟨hfirst, hsecond, hdigits⟩ := hexByte?_eq_some hbyte
    obtain ⟨hlength, hpaired, htext⟩ := ih hothers
    refine ⟨?_, paired_cons_cons.mpr ⟨hfirst, hsecond, hpaired⟩, ?_⟩
    · simp only [List.length_cons, hlength]
      omega
    · rw [List.flatMap_cons, hdigits, htext]
      rfl

theorem exists_hexBytes? {count : Nat} (hlength : text.length = 2 * count) (h : Paired text) :
    ∃ bytes, hexBytes? text = some bytes ∧ bytes.length = count := by
  induction count generalizing text with
  | zero =>
    obtain rfl := List.length_eq_zero_iff.mp hlength
    exact ⟨[], rfl, rfl⟩
  | succ count ih =>
    match text, hlength, h with
    | first :: second :: rest, hlength, h =>
      obtain ⟨hfirst, hsecond, hrest⟩ := paired_cons_cons.mp h
      obtain ⟨byte, hbyte⟩ := hexByte?_isSome hfirst hsecond
      have hlength : rest.length = 2 * count := by
        simp only [List.length_cons] at hlength
        omega
      obtain ⟨bytes, hbytes, hcount⟩ := ih hlength hrest
      refine ⟨byte :: bytes, ?_, congrArg (· + 1) hcount⟩
      rw [hexBytes?, hbyte, hbytes]
      rfl

/-- Bytes are read back from their digits. -/
theorem hexBytes?_flatMap_hexDigits (bytes : Bytes) :
    hexBytes? (bytes.flatMap Bytes.hexDigits) = some bytes := by
  induction bytes with
  | nil => rfl
  | cons byte bytes ih =>
    rw [List.flatMap_cons]
    show hexBytes? (_ :: _ :: bytes.flatMap Bytes.hexDigits) = _
    rw [hexBytes?, hexByte?_hexDigits, ih]
    rfl

namespace Id

/-- **Texts of ids.** An id is read from a text of 96 characters that are digits, or plus signs in
the place of the first digit of a byte, and from no other text. Its own text is then that text with
zeros for plus signs and in lower case, and every id is read back from its own text. -/
theorem ofHex?_spec (text : String) :
    ((∃ id, ofHex? text = some id) ↔ text.length = 2 * size ∧ Paired text.toList) ∧
      (∀ id, ofHex? text = some id → id.toHex = text.map plainDigit) ∧
      ∀ id, ofHex? (toHex id) = some id := by
  refine ⟨⟨fun ⟨id, h⟩ => ?_, fun ⟨hlength, hpaired⟩ => ?_⟩, fun id h => ?_, fun id => ?_⟩
  · obtain ⟨bytes, hbytes, hid⟩ := Option.bind_eq_some_iff.mp h
    obtain ⟨hlength, hpaired, -⟩ := hexBytes?_eq_some hbytes
    rw [← ofBytes?_eq_some_iff.mp hid, length_toBytes, String.length_toList] at hlength
    exact ⟨hlength, hpaired⟩
  · obtain ⟨bytes, hbytes, hsize⟩ := exists_hexBytes? (String.length_toList.trans hlength) hpaired
    obtain ⟨id, rfl⟩ := exists_toBytes_eq hsize
    exact ⟨id, by rw [ofHex?, hbytes, Option.bind_some, ofBytes?_toBytes]⟩
  · obtain ⟨bytes, hbytes, hid⟩ := Option.bind_eq_some_iff.mp h
    obtain ⟨-, -, hdigits⟩ := hexBytes?_eq_some hbytes
    rw [← String.toList_inj, toHex, ofBytes?_eq_some_iff.mp hid, Bytes.toHex, String.toList_ofList,
      hdigits, String.toList_map]
  · rw [ofHex?, toHex, Bytes.toHex, String.toList_ofList, hexBytes?_flatMap_hexDigits,
      Option.bind_some, ofBytes?_toBytes]

/-- A text in both cases and with a plus sign. -/
theorem ofHex?_spec_of_mixed_case :
    let text := String.ofList ('A' :: 'b' :: '+' :: 'F' :: List.replicate 92 '0')
    ∃ id, ofHex? text = some id ∧
      id.toHex = String.ofList ('a' :: 'b' :: '0' :: 'f' :: List.replicate 92 '0') := by
  intro text
  obtain ⟨id, hid⟩ : ∃ id, ofHex? text = some id :=
    Option.isSome_iff_exists.mp (by decide +kernel)
  exact ⟨id, hid, ((ofHex?_spec text).2.1 id hid).trans (by decide +kernel)⟩

/-- A text with a plus sign is read as one with a zero in its place. -/
theorem ofHex?_plus_sign :
    let text := String.ofList ('+' :: 'f' :: List.replicate 94 '0')
    (∃ id, ofHex? text = some id) ∧ ¬ ∀ char ∈ text.toList, IsHexDigit char := by
  refine ⟨Option.isSome_iff_exists.mp (by decide +kernel), fun h => ?_⟩
  exact absurd (h '+' (by simp)) (by decide)

end Id

end Kademlia
