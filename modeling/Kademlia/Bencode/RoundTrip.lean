import Kademlia.Bencode.Reader

/-!
# Kademlia.Bencode.RoundTrip

Reading undoes writing. `read_write` says that a written value is read back whatever follows it,
and that what follows it is left; so a written value ends by itself. The only values for which this
needs an assumption are integers, which have to be of the size that bencode holds (`fits`).

The proof is one induction over the three mutual readers, at any measure that is at least twice the
written length.
-/

namespace Kademlia

namespace Bencode

mutual

/-- Are all integers within a value of the size that bencode holds? -/
def fits : Bencode → Bool
  | .int n => inRange n
  | .bytes _ => true
  | .list items => fitsItems items
  | .dict entries => fitsEntries entries

/-- `fits` for the items of a list. -/
def fitsItems : List Bencode → Bool
  | [] => true
  | item :: items => item.fits && fitsItems items

/-- `fits` for the entries of a dictionary. -/
def fitsEntries : List (Bencode × Bencode) → Bool
  | [] => true
  | (key, value) :: entries => key.fits && value.fits && fitsEntries entries

end

/-! ### Characters as bytes -/

theorem toNat_toUInt8 {char : Char} (h : char.toNat < 256) : char.toUInt8.toNat = char.toNat := by
  show char.val.toUInt8.toNat = char.val.toNat
  rw [UInt32.toNat_toUInt8]
  exact Nat.mod_eq_of_lt h

/-- A character of one byte survives being made a byte. -/
theorem ofUInt8_toUInt8 {char : Char} (h : char.toNat < 256) :
    Char.ofUInt8 char.toUInt8 = char := by
  apply Char.ext
  apply UInt32.toNat_inj.mp
  show char.toUInt8.toUInt32.toNat = char.val.toNat
  rw [UInt8.toNat_toUInt32, toNat_toUInt8 h]
  rfl

/-- The digits of a number are the characters from `0` to `9`. -/
theorem digit_bounds {n : Nat} {char : Char} (h : char ∈ Nat.toDigits 10 n) :
    48 ≤ char.toNat ∧ char.toNat ≤ 57 := by
  have hdigit := Nat.isDigit_of_mem_toDigits (by omega) (by omega) h
  simpa [Char.isDigit, UInt32.le_iff_toNat_le] using hdigit

/-- Text is read up to a mark that is not among its characters. -/
theorem readUntil_append {mark : UInt8} {text : List Char} (rest : Bytes)
    (hbyte : ∀ char ∈ text, char.toNat < 256) (hmark : ∀ char ∈ text, char.toNat ≠ mark.toNat) :
    readUntil mark (text.map Char.toUInt8 ++ mark :: rest) = some (text, rest) := by
  have hpos : ∀ byte ∈ text.map Char.toUInt8, (byte != mark) = true := by
    intro byte hmem
    obtain ⟨char, hchar, rfl⟩ := List.mem_map.mp hmem
    refine bne_iff_ne.mpr fun heq => hmark char hchar ?_
    rw [← heq, toNat_toUInt8 (hbyte char hchar)]
  have htake : (text.map Char.toUInt8 ++ mark :: rest).takeWhile (· != mark) =
      text.map Char.toUInt8 := by
    rw [List.takeWhile_append_of_pos hpos]
    simp
  have hdrop : (text.map Char.toUInt8 ++ mark :: rest).dropWhile (· != mark) = mark :: rest := by
    rw [List.dropWhile_append_of_pos hpos]
    simp
  have hback : (text.map Char.toUInt8).map Char.ofUInt8 = text := by
    rw [List.map_map]
    exact (List.map_congr_left fun char h => ofUInt8_toUInt8 (hbyte char h)).trans (List.map_id _)
  simp only [readUntil, htake, hdrop, hback]

/-! ### Byte strings and integers -/

/-- A written byte string is read back within any limit that its length keeps to. -/
theorem readBytes_writeBytes {limit : Nat} {content : Bytes} (h : content.length ≤ limit)
    (rest : Bytes) : readBytes limit (writeBytes content ++ rest) = some (content, rest) := by
  have hread : readUntil colon (writeBytes content ++ rest) =
      some (Nat.toDigits 10 content.length, content ++ rest) := by
    rw [writeBytes, List.append_assoc, List.cons_append]
    refine readUntil_append _ (fun char h => ?_) (fun char h => ?_)
    · have := digit_bounds h
      omega
    · have := digit_bounds h
      show char.toNat ≠ 58
      omega
  simp [readBytes, hread, Decimal.natUpTo?_toDigits h]

/-- A written integer is read back. -/
theorem readInt_ofInt {n : Int} (h : inRange n = true) (rest : Bytes) :
    readInt ((Decimal.ofInt n).map Char.toUInt8 ++ endMark :: rest) = some (n, rest) := by
  have hchar : ∀ char ∈ Decimal.ofInt n, 45 ≤ char.toNat ∧ char.toNat ≤ 57 := by
    intro char hchar
    cases n with
    | ofNat n =>
      have := digit_bounds hchar
      omega
    | negSucc n =>
      rcases List.mem_cons.mp hchar with rfl | hchar
      · decide
      · have := digit_bounds hchar
        omega
  have hread : readUntil endMark ((Decimal.ofInt n).map Char.toUInt8 ++ endMark :: rest) =
      some (Decimal.ofInt n, rest) := by
    refine readUntil_append _ (fun char h => ?_) (fun char h => ?_)
    · have := hchar char h
      omega
    · have := hchar char h
      show char.toNat ≠ 101
      omega
  have hsize : n.natAbs ≤ 9223372036854775808 := by
    simp only [inRange, Bool.and_eq_true, decide_eq_true_eq] at h
    omega
  simp [readInt, hread, Decimal.intUpTo?_ofInt hsize, h]

/-! ### The first byte of a written value -/

/-- A written byte string starts with a digit. -/
theorem writeBytes_eq_cons (content : Bytes) :
    ∃ first rest, writeBytes content = first :: rest ∧ 48 ≤ first.toNat ∧ first.toNat ≤ 57 ∧
      rest ≠ [] := by
  obtain ⟨char, chars, hchars⟩ :=
    List.exists_cons_of_ne_nil (Nat.toDigits_ne_nil (n := content.length) (b := 10))
  have hchar := digit_bounds (show char ∈ Nat.toDigits 10 content.length by simp [hchars])
  refine ⟨char.toUInt8, chars.map Char.toUInt8 ++ colon :: content, ?_, ?_, ?_, by simp⟩
  · rw [writeBytes, hchars]; rfl
  · rw [toNat_toUInt8 (by omega)]; exact hchar.1
  · rw [toNat_toUInt8 (by omega)]; exact hchar.2

theorem writeItems_ne_nil (items : List Bencode) : writeItems items ≠ [] := by
  cases items with
  | nil => simp [writeItems]
  | cons item items =>
    have := writeItems_ne_nil items
    simp [writeItems, this]

theorem writeEntries_ne_nil (entries : List (Bencode × Bencode)) : writeEntries entries ≠ [] := by
  cases entries with
  | nil => simp [writeEntries]
  | cons entry entries =>
    have := writeEntries_ne_nil entries
    simp [writeEntries, this]

/-- A written value is no end mark and has at least two bytes. -/
theorem write_eq_cons (value : Bencode) :
    ∃ first rest, value.write = first :: rest ∧ first ≠ endMark ∧ rest ≠ [] := by
  cases value with
  | int n => exact ⟨intMark, _, rfl, by decide, by simp⟩
  | bytes content =>
    obtain ⟨first, rest, h, -, hhigh, hrest⟩ := writeBytes_eq_cons content
    refine ⟨first, rest, h, ?_, hrest⟩
    rintro rfl
    exact absurd hhigh (by decide)
  | list items => exact ⟨listMark, _, rfl, by decide, writeItems_ne_nil items⟩
  | dict entries => exact ⟨dictMark, _, rfl, by decide, writeEntries_ne_nil entries⟩

theorem two_le_length_write (value : Bencode) : 2 ≤ value.write.length := by
  obtain ⟨first, rest, h, -, hrest⟩ := write_eq_cons value
  have := List.length_pos_iff.mpr hrest
  simp only [h, List.length_cons]
  omega

/-! ### Values -/

mutual

/-- A written value is read back at any measure of twice its length. -/
theorem readWithin_write (value : Bencode) (fuel : Nat) (rest : Bytes)
    (hfits : value.fits = true) (hfuel : 2 * value.write.length ≤ fuel) :
    readWithin fuel (value.write ++ rest) = some (value, rest) := by
  have hlength := two_le_length_write value
  obtain ⟨fuel, rfl⟩ : ∃ smaller, fuel = smaller + 1 := ⟨fuel - 1, by omega⟩
  cases value with
  | int n =>
    have hread := readInt_ofInt hfits rest
    simp [write, writeInt, readWithin, hread]
  | bytes content =>
    obtain ⟨first, tail, h, hlow, hhigh, -⟩ := writeBytes_eq_cons content
    have hcontent : content.length ≤ fuel := by
      simp only [write, writeBytes, List.length_append, List.length_cons] at hfuel
      omega
    have hread := readBytes_writeBytes hcontent rest
    have hint : first ≠ intMark := by rintro rfl; exact absurd hhigh (by decide)
    have hlist : first ≠ listMark := by rintro rfl; exact absurd hhigh (by decide)
    have hdict : first ≠ dictMark := by rintro rfl; exact absurd hhigh (by decide)
    have hwrite : (Bencode.bytes content).write ++ rest = first :: (tail ++ rest) := by
      rw [write, h, List.cons_append]
    rw [h, List.cons_append] at hread
    rw [hwrite, readWithin, if_neg hint, if_neg hlist, if_neg hdict, hread]
    rfl
  | list items =>
    have hread := readItems_writeItems items fuel rest hfits (by
      simp only [write, List.length_cons] at hfuel
      omega)
    have hint : listMark ≠ intMark := by decide
    simp [write, readWithin, hint, hread]
  | dict entries =>
    have hread := readEntries_writeEntries entries fuel rest hfits (by
      simp only [write, List.length_cons] at hfuel
      omega)
    have hint : dictMark ≠ intMark := by decide
    have hlist : dictMark ≠ listMark := by decide
    simp [write, readWithin, hint, hlist, hread]

/-- Written items are read back up to their end mark. -/
theorem readItems_writeItems (items : List Bencode) (fuel : Nat) (rest : Bytes)
    (hfits : fitsItems items = true) (hfuel : 2 * (writeItems items).length ≤ fuel + 1) :
    readItems fuel (writeItems items ++ rest) = some (items, rest) := by
  have hpos := List.length_pos_iff.mpr (writeItems_ne_nil items)
  obtain ⟨fuel, rfl⟩ : ∃ smaller, fuel = smaller + 1 := ⟨fuel - 1, by omega⟩
  cases items with
  | nil => simp [writeItems, readItems]
  | cons item items =>
    have hlength := two_le_length_write item
    have hrest := List.length_pos_iff.mpr (writeItems_ne_nil items)
    simp only [fitsItems, Bool.and_eq_true] at hfits
    simp only [writeItems, List.length_append] at hfuel
    have hitem := readWithin_write item fuel (writeItems items ++ rest) hfits.1 (by omega)
    have hitems := readItems_writeItems items fuel rest hfits.2 (by omega)
    obtain ⟨first, tail, h, hmark, -⟩ := write_eq_cons item
    rw [h, List.cons_append] at hitem
    simp [writeItems, h, readItems, hmark, hitem, hitems]

/-- Written entries are read back up to their end mark. -/
theorem readEntries_writeEntries (entries : List (Bencode × Bencode)) (fuel : Nat) (rest : Bytes)
    (hfits : fitsEntries entries = true)
    (hfuel : 2 * (writeEntries entries).length ≤ fuel + 1) :
    readEntries fuel (writeEntries entries ++ rest) = some (entries, rest) := by
  have hpos := List.length_pos_iff.mpr (writeEntries_ne_nil entries)
  obtain ⟨fuel, rfl⟩ : ∃ smaller, fuel = smaller + 1 := ⟨fuel - 1, by omega⟩
  match entries with
  | [] => simp [writeEntries, readEntries]
  | (key, value) :: entries =>
    have hkey := two_le_length_write key
    have hvalue := two_le_length_write value
    have hrest := List.length_pos_iff.mpr (writeEntries_ne_nil entries)
    simp only [fitsEntries, Bool.and_eq_true] at hfits
    simp only [writeEntries, List.length_append] at hfuel
    have hreadKey := readWithin_write key fuel (value.write ++ (writeEntries entries ++ rest))
      hfits.1.1 (by omega)
    have hreadValue := readWithin_write value fuel (writeEntries entries ++ rest)
      hfits.1.2 (by omega)
    have hentries := readEntries_writeEntries entries fuel rest hfits.2 (by omega)
    obtain ⟨first, tail, h, hmark, -⟩ := write_eq_cons key
    rw [h, List.cons_append] at hreadKey
    simp [writeEntries, h, readEntries, hmark, hreadKey, hreadValue, hentries]

end

/-- A written value is read back, and what follows it is left. -/
theorem read_write {value : Bencode} (h : value.fits = true) (rest : Bytes) :
    read (value.write ++ rest) = some (value, rest) := by
  refine readWithin_write value _ rest h ?_
  simp only [readMeasure, List.length_append]
  omega

end Bencode

end Kademlia
