import Kademlia.Proofs.Message.RoundTrip

/-!
# Kademlia.Proofs.Message.Framing

Packets end by themselves. A reader that gets a value off the front of a byte string gets the same
value off any longer one, for it does not look beyond what it reads (`Bencode.Extends`). The readers
recur on a measure that grows with the byte string, so the relation is one between the readers at
two measures.

Two things follow. What comes behind a packet that can be read does not matter
(`Message.decode_append`). And nothing that is cut off a written value can be read as a value:
reading on would have to come to the same, but it comes to the whole value
(`Bencode.readEntries_of_cut`). So a packet of which the end is missing is malformed, wherever it
was cut (`Message.decode_of_cut`).
-/

namespace Kademlia

namespace Bencode

variable {α β : Type} {first second : Bytes → Option (α × Bytes)} {bytes rest : Bytes}

/-! ### Reading what is followed by more -/

/-- What one reader gets off the front of a byte string, another gets off it too, whatever
follows. -/
def Extends (first second : Bytes → Option (α × Bytes)) : Prop :=
  ∀ ⦃bytes value rest⦄, first bytes = some (value, rest) →
    ∀ more, second (bytes ++ more) = some (value, rest ++ more)

/-- What is made of the value does not matter. -/
theorem Extends.map {make : α → β} {value : β} (h : Extends first second)
    (hread : (first bytes).map (fun (a, rest) => (make a, rest)) = some (value, rest))
    (more : Bytes) :
    (second (bytes ++ more)).map (fun (a, rest) => (make a, rest)) =
      some (value, rest ++ more) := by
  obtain ⟨⟨a, tail⟩, hfirst, heq⟩ := Option.map_eq_some_iff.mp hread
  obtain ⟨rfl, rfl⟩ := Prod.mk.inj heq
  rw [h hfirst more, Option.map_some]

theorem extends_readUntil (mark : UInt8) : Extends (readUntil mark) (readUntil mark) := by
  intro bytes text rest h more
  cases hdrop : bytes.dropWhile (· != mark) with
  | nil => simp [readUntil, hdrop] at h
  | cons found tail =>
    have hlength := congrArg List.length
      (List.takeWhile_append_dropWhile (p := (· != mark)) (l := bytes))
    rw [hdrop, List.length_append, List.length_cons] at hlength
    have htake : (bytes.takeWhile (· != mark)).length ≠ bytes.length := by omega
    simp only [readUntil, hdrop, Option.some.injEq, Prod.mk.injEq] at h
    obtain ⟨rfl, rfl⟩ := h
    simp only [readUntil, List.dropWhile_append, List.takeWhile_append, hdrop, if_neg htake]
    rfl

theorem extends_readInt : Extends readInt readInt := by
  intro bytes n rest h more
  simp only [readInt, Option.bind_eq_bind, Option.bind_eq_some_iff] at h
  obtain ⟨⟨text, tail⟩, htext, number, hnumber, hrange⟩ := h
  simp only [readInt, extends_readUntil endMark htext more, Option.bind_eq_bind, Option.bind_some,
    hnumber]
  split at hrange
  · rename_i hfits
    cases hrange
    rw [if_pos hfits]
  · cases hrange

/-- A number within a limit is within a larger one. -/
theorem natUpTo?_mono {limit larger n : Nat} {text : List Char} (hle : limit ≤ larger)
    (h : Decimal.natUpTo? limit text = some n) : Decimal.natUpTo? larger text = some n := by
  rw [Decimal.natUpTo?_eq_filter, Option.filter_eq_some_iff] at h ⊢
  exact ⟨h.1, decide_eq_true (Nat.le_trans (of_decide_eq_true h.2) hle)⟩

theorem splitAt?_append_of_eq_some {count : Nat} {content : Bytes}
    (h : bytes.splitAt? count = some (content, rest)) (more : Bytes) :
    Bytes.splitAt? count (bytes ++ more) = some (content, rest ++ more) := by
  simp only [Bytes.splitAt?] at h
  split at h
  · rename_i hlength
    obtain ⟨rfl, rfl⟩ := Prod.mk.inj (Option.some.inj h)
    have hcount : count ≤ bytes.length := by
      rw [List.length_take] at hlength
      omega
    rw [Bytes.splitAt?, List.take_append_of_le_length hcount, List.drop_append_of_le_length hcount,
      if_pos hlength]
  · cases h

theorem extends_readBytes {limit larger : Nat} (hle : limit ≤ larger) :
    Extends (readBytes limit) (readBytes larger) := by
  intro bytes content rest h more
  simp only [readBytes, Option.bind_eq_bind, Option.bind_eq_some_iff] at h
  obtain ⟨⟨text, tail⟩, htext, count, hcount, hcontent⟩ := h
  simp only [readBytes, extends_readUntil colon htext more, Option.bind_eq_bind, Option.bind_some,
    natUpTo?_mono hle hcount]
  exact splitAt?_append_of_eq_some hcontent more

/-- The three readers of values, of items and of entries, together. -/
theorem extends_readers (fuel : Nat) : ∀ {larger : Nat}, fuel ≤ larger →
    Extends (readWithin fuel) (readWithin larger) ∧ Extends (readItems fuel) (readItems larger) ∧
      Extends (readEntries fuel) (readEntries larger) := by
  induction fuel with
  | zero =>
    intro larger _
    refine ⟨?_, ?_, ?_⟩ <;> intro bytes value rest h
    · simp [readWithin] at h
    · simp [readItems] at h
    · simp [readEntries] at h
  | succ fuel ih =>
    intro larger hle
    obtain ⟨larger, rfl⟩ : ∃ smaller, larger = smaller + 1 := ⟨larger - 1, by omega⟩
    obtain ⟨hvalue, hitems, hentries⟩ := ih (Nat.le_of_succ_le_succ hle)
    refine ⟨fun bytes value rest h more => ?_, fun bytes items rest h more => ?_,
      fun bytes entries rest h more => ?_⟩
    · cases bytes with
      | nil => simp [readWithin] at h
      | cons first tail =>
        rw [List.cons_append, readWithin]
        rw [readWithin] at h
        split_ifs at h ⊢
        · exact extends_readInt.map h more
        · exact hitems.map h more
        · exact hentries.map h more
        · exact (extends_readBytes (Nat.le_of_succ_le_succ hle)).map h more
    · cases bytes with
      | nil => simp [readItems] at h
      | cons first tail =>
        rw [List.cons_append, readItems]
        rw [readItems] at h
        split_ifs at h ⊢
        · cases h; rfl
        · simp only [Option.bind_eq_bind, Option.bind_eq_some_iff] at h
          obtain ⟨⟨item, others⟩, hitem, ⟨found, last⟩, hfound, heq⟩ := h
          cases heq
          have hmore := hvalue hitem more
          rw [List.cons_append] at hmore
          simp only [hmore, hitems hfound more, Option.bind_eq_bind, Option.bind_some]
    · cases bytes with
      | nil => simp [readEntries] at h
      | cons first tail =>
        rw [List.cons_append, readEntries]
        rw [readEntries] at h
        split_ifs at h ⊢
        · cases h; rfl
        · simp only [Option.bind_eq_bind, Option.bind_eq_some_iff] at h
          obtain ⟨⟨key, others⟩, hkey, ⟨value, left⟩, hread, ⟨found, last⟩, hfound, heq⟩ := h
          cases heq
          have hmore := hvalue hkey more
          rw [List.cons_append] at hmore
          simp only [hmore, hvalue hread more, hentries hfound more, Option.bind_eq_bind,
            Option.bind_some]

theorem readMeasure_le_append (bytes more : Bytes) :
    readMeasure bytes ≤ readMeasure (bytes ++ more) := by
  simp only [readMeasure, List.length_append]
  omega

/-- A value that can be read is read, whatever follows. -/
theorem extends_read : Extends read read := fun bytes _ _ h more =>
  (extends_readers _ (readMeasure_le_append bytes more)).1 h more

/-- **No part of written entries reads as entries**, if the end is missing. -/
theorem readEntries_of_cut {entries : List (Bencode × Bencode)} {front back : Bytes}
    (hfits : fitsEntries entries = true) (hcut : front ++ back = writeEntries entries)
    (hback : back ≠ []) (fuel : Nat) : readEntries fuel front = none := by
  refine Option.eq_none_iff_forall_ne_some.mpr fun ⟨found, rest⟩ hfound => hback ?_
  -- Reading on comes to the same, and at a sufficient measure it comes to all entries.
  have hfuel := Nat.le_add_right fuel (2 * (writeEntries entries).length)
  have hsame := (extends_readers fuel hfuel).2.2 hfound back
  have hall := readEntries_writeEntries entries (fuel + 2 * (writeEntries entries).length) [] hfits
    (by omega)
  rw [List.append_nil, ← hcut] at hall
  rw [← hcut, hall] at hsame
  exact (List.append_eq_nil_iff.mp (Prod.mk.inj (Option.some.inj hsame)).2.symm).2

end Bencode

/-! ### Frames -/

namespace Frame

variable {frame : Frame} {count : Nat} {packet : Bytes}

theorem readUpTo_append {items : List Bencode} (h : readUpTo count packet = some items)
    (more : Bytes) : readUpTo count (packet ++ more) = some items := by
  induction count generalizing packet items with
  | zero => exact h
  | succ count ih =>
    rw [readUpTo] at h ⊢
    cases packet with
    | nil => simp [Bencode.read, Bencode.readMeasure, Bencode.readWithin] at h
    | cons first tail =>
      have hhead : (first :: tail ++ more).head? = (first :: tail).head? := rfl
      rw [hhead]
      by_cases hend : (first :: tail).head? = some Bencode.endMark
      · rwa [if_pos hend] at h ⊢
      · simp only [if_neg hend, Option.bind_eq_bind, Option.bind_eq_some_iff] at h
        obtain ⟨⟨item, rest⟩, hitem, others, hothers, heq⟩ := h
        simp only [if_neg hend, Bencode.extends_read hitem more, ih hothers, Option.bind_eq_bind,
          Option.bind_some, heq]

/-- A packet that has fields has the same fields, whatever follows. -/
theorem read?_append (h : read? count packet = some frame) (more : Bytes) :
    read? count (packet ++ more) = some frame := by
  cases packet with
  | nil => simp [read?] at h
  | cons mark rest =>
    rw [List.cons_append, read?]
    rw [read?] at h
    split_ifs at h ⊢
    · simp only [Option.bind_eq_bind, Option.bind_eq_some_iff] at h
      obtain ⟨⟨entries, tail⟩, hentries, hframe⟩ := h
      have hmore := (Bencode.extends_readers _ (Bencode.readMeasure_le_append rest more)).2.2
        hentries more
      simp only [hmore, Option.bind_eq_bind, Option.bind_some, hframe]
    · simp only [Option.bind_eq_bind, Option.bind_eq_some_iff] at h
      obtain ⟨items, hitems, hframe⟩ := h
      simp only [readUpTo_append hitems more, Option.bind_eq_bind, Option.bind_some, hframe]

/-- A packet whose end is missing has no fields. -/
theorem read?_of_cut {front back : Bytes} (hfits : Bencode.fitsEntries frame.entries = true)
    (hcut : front ++ back = (Bencode.dict frame.entries).write) (hback : back ≠ []) :
    read? count front = none := by
  cases front with
  | nil => rfl
  | cons mark rest =>
    rw [Bencode.write, List.cons_append] at hcut
    obtain ⟨rfl, hrest⟩ := List.cons.inj hcut
    rw [read?, if_pos rfl, Bencode.readEntries_of_cut hfits hrest hback]
    rfl

end Frame

/-! ### Messages -/

namespace Message

variable {message : Message} {packet : Bytes}

theorem kindOf_append {kind : Kind} (h : kindOf packet = .ok kind) (more : Bytes) :
    kindOf (packet ++ more) = .ok kind := by
  rw [kindOf] at h ⊢
  cases hread : Frame.read? 1 packet with
  | none => simp [hread] at h
  | some frame =>
    rw [Frame.read?_append hread more]
    rwa [hread] at h

theorem fieldsOf?_append {kind : Kind} {fields : Bytes × Bytes × Content}
    (h : fieldsOf? kind packet = some fields) (more : Bytes) :
    fieldsOf? kind (packet ++ more) = some fields := by
  rw [fieldsOf?, Option.bind_eq_bind, Option.bind_eq_some_iff] at h
  obtain ⟨frame, hframe, hfields⟩ := h
  rw [fieldsOf?, Option.bind_eq_bind, Frame.read?_append hframe more, Option.bind_some]
  exact hfields

/-- **What follows a packet does not matter**, if the packet can be read. -/
theorem decode_append (h : decode packet = .ok message) (more : Bytes) :
    decode (packet ++ more) = .ok message := by
  rw [decode] at h ⊢
  cases hkind : kindOf packet with
  | error error => simp [hkind, bind, Except.bind] at h
  | ok kind =>
    cases hfields : fieldsOf? kind packet with
    | none => simp [hkind, hfields, bind, Except.bind] at h
    | some fields =>
      rw [kindOf_append hkind more]
      rw [hkind] at h
      simp only [bind, Except.bind, fieldsOf?_append hfields more, hfields] at h ⊢
      exact h

/-- A packet whose end is missing is malformed. -/
theorem decode_of_cut {front back : Bytes} (hcut : front ++ back = message.encode)
    (hback : back ≠ []) : decode front = .error .malformed := by
  rw [encode, toBencode_eq_dict] at hcut
  rw [decode, kindOf, Frame.read?_of_cut message.fits_frame hcut hback]
  rfl

/-- **Packets end by themselves.** Whatever a message, its packet is refused if anything is missing
at its end, and is read as if nothing followed if anything does. -/
theorem encode_delimited (message : Message) :
    (∀ front, front <+: message.encode → front ≠ message.encode →
        decode front = .error .malformed) ∧
      ∀ more, decode (message.encode ++ more) = decode message.encode := by
  refine ⟨fun front ⟨back, hcut⟩ hne => decode_of_cut hcut fun hback => hne ?_, fun more => ?_⟩
  · rw [← hcut, hback, List.append_nil]
  · rw [decode_encode]
    exact decode_append (decode_encode message) more

/-- A store request that was cut in the middle of its sender's id, and one with an end mark too
many. -/
theorem encode_delimited_of_store :
    let message : Message := ⟨.ofNat 7, .zero, .request (.store .zero (.flip .zero 5) 3333)⟩
    (message.encode.take 60 <+: message.encode ∧ message.encode.take 60 ≠ message.encode) ∧
      decode (message.encode.take 60) = .error .malformed ∧
      decode (message.encode ++ [Bencode.endMark]) = decode message.encode := by
  refine ⟨⟨List.take_prefix .., by decide +kernel⟩, ?_, (encode_delimited _).2 _⟩
  exact (encode_delimited _).1 _ (List.take_prefix ..) (by decide +kernel)

end Message

end Kademlia
