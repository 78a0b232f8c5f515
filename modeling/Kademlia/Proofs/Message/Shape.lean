import Kademlia.Message.Decode
import Mathlib.Data.List.Basic
import Mathlib.Data.List.Induction

/-!
# Kademlia.Proofs.Message.Shape

Packets that have the shape of a message, whatever their fields hold (`Message.HasFields`). Such a
packet is a message if its two ids have the right length and its content makes sense
(`Message.decode_of_hasFields`); otherwise one of these three is what is reported.

A packet is read for its first field alone before it is read for all of them. The first reading
takes no other fields than the second one and asks no more of them (`Frame.read?_of_le`), so the
shape of the whole packet says it all.
-/

namespace Kademlia

/-! ### Results -/

section

variable {ε α β : Type} {result : Except ε α} {next : α → Except ε β} {make : α → β} {b : β} {e : ε}

theorem bind_eq_ok_iff : (result >>= next) = .ok b ↔ ∃ a, result = .ok a ∧ next a = .ok b := by
  cases result <;> simp [bind, Except.bind]

theorem bind_eq_error_iff :
    (result >>= next) = .error e ↔ result = .error e ∨ ∃ a, result = .ok a ∧ next a = .error e := by
  cases result <;> simp [bind, Except.bind]

theorem map_eq_ok_iff : result.map make = .ok b ↔ ∃ a, result = .ok a ∧ make a = b := by
  cases result <;> simp [Except.map]

theorem map_eq_error_iff : result.map make = .error e ↔ result = .error e := by
  cases result <;> simp [Except.map]

end

/-! ### Fields -/

namespace Bencode

/-- A dictionary gives a key a value: that of the last entry whose key stands for the bytes. -/
def Binds (entries : List (Bencode × Bencode)) (key : Bytes) (value : Bencode) : Prop :=
  ∃ before entry after, entries = before ++ entry :: after ∧ entry.1.byteString? = some key ∧
    entry.2 = value ∧ ∀ later ∈ after, later.1.byteString? ≠ some key

theorem entry?_eq_some_iff {entries : List (Bencode × Bencode)} {key : Bytes} {value : Bencode} :
    entry? entries key = some value ↔ Binds entries key value := by
  rw [Bencode.entry?, Option.map_eq_some_iff]
  constructor
  · rintro ⟨entry, hfind, rfl⟩
    obtain ⟨hkey, after, before, hsplit, hafter⟩ := List.find?_eq_some_iff_append.mp hfind
    refine ⟨before.reverse, entry, after.reverse, ?_, eq_of_beq hkey, rfl, fun later hlater => ?_⟩
    · simpa using List.reverse_eq_append_iff.mp hsplit
    · simpa using hafter later (List.mem_reverse.mp hlater)
  · rintro ⟨before, entry, after, rfl, hkey, rfl, hafter⟩
    refine ⟨entry, List.find?_eq_some_iff_append.mpr
      ⟨beq_iff_eq.mpr hkey, after.reverse, before.reverse, by simp, fun later hlater => ?_⟩, rfl⟩
    simpa using hafter later (List.mem_reverse.mp hlater)

end Bencode

namespace Frame

variable {frame : Frame} {smaller count : Nat} {packet : Bytes}

theorem fieldNumber?_of_le (hle : smaller ≤ count) (key : Bencode) :
    fieldNumber? smaller key = (fieldNumber? count key).filter (· < smaller) := by
  unfold fieldNumber?
  split
  · rename_i digit
    by_cases hsmaller : 48 ≤ digit.toNat ∧ digit.toNat - 48 < smaller
    · rw [if_pos hsmaller, if_pos ⟨hsmaller.1, Nat.lt_of_lt_of_le hsmaller.2 hle⟩,
        Option.filter_some, if_pos (decide_eq_true hsmaller.2)]
    · rw [if_neg hsmaller]
      split_ifs with hcount
      · rw [Option.filter_some, if_neg (by simpa using fun hlt => hsmaller ⟨hcount.1, hlt⟩)]
      · rfl
  · rfl

/-- The entries that are fields of some shape, with their numbers. -/
def numbered (count : Nat) (entries : List (Bencode × Bencode)) : Frame :=
  entries.filterMap fun entry => (fieldNumber? count entry.1).map (·, entry.2)

theorem ofEntries?_eq (count : Nat) (entries : List (Bencode × Bencode)) :
    ofEntries? count entries =
      if (entries.all fun entry => isText entry.1) ∧
          ((numbered count entries).map Prod.fst).Nodup then
        some (numbered count entries)
      else none := rfl

theorem numbered_of_le (hle : smaller ≤ count) (entries : List (Bencode × Bencode)) :
    numbered smaller entries = (numbered count entries).filter (·.1 < smaller) := by
  rw [numbered, numbered, List.filter_filterMap]
  refine List.filterMap_congr fun entry _ => ?_
  rw [fieldNumber?_of_le hle]
  cases fieldNumber? count entry.1 with
  | none => rfl
  | some number => by_cases hlt : number < smaller <;> simp [Option.filter, hlt]

theorem ofEntries?_of_le {entries : List (Bencode × Bencode)} (hle : smaller ≤ count)
    (h : ofEntries? count entries = some frame) :
    ofEntries? smaller entries = some (frame.filter (·.1 < smaller)) := by
  rw [ofEntries?_eq] at h ⊢
  split at h
  · rename_i htext
    obtain rfl := Option.some.inj h
    rw [numbered_of_le hle, if_pos ⟨htext.1, htext.2.sublist (List.filter_sublist.map _)⟩]
  · cases h

theorem readUpTo_of_le {items : List Bencode} {bytes : Bytes} (hle : smaller ≤ count)
    (h : readUpTo count bytes = some items) :
    readUpTo smaller bytes = some (items.take smaller) := by
  induction count generalizing smaller bytes items with
  | zero =>
    obtain rfl := Nat.le_zero.mp hle
    rfl
  | succ count ih =>
    cases smaller with
    | zero => rfl
    | succ smaller =>
      rw [readUpTo] at h ⊢
      split_ifs at h ⊢
      · obtain rfl := Option.some.inj h
        rfl
      · simp only [Option.bind_eq_bind, Option.bind_eq_some_iff] at h
        obtain ⟨⟨item, rest⟩, hitem, others, hothers, heq⟩ := h
        obtain rfl := Option.some.inj heq
        simp only [hitem, ih (Nat.le_of_succ_le_succ hle) hothers, Option.bind_eq_bind,
          Option.bind_some, List.take_succ_cons]

/-- The first of numbered items are those with the smallest numbers. -/
theorem zip_range_take (items : List Bencode) (smaller : Nat) :
    (List.range (items.take smaller).length).zip (items.take smaller) =
      ((List.range items.length).zip items).filter (·.1 < smaller) := by
  induction items using List.reverseRecOn with
  | nil => simp
  | append_singleton items item ih =>
    rw [List.length_append, List.length_singleton, List.range_succ,
      List.zip_append List.length_range, List.filter_append, ← ih]
    by_cases hlt : items.length < smaller
    · rw [List.take_of_length_le (Nat.le_of_lt hlt),
        List.take_of_length_le (by simpa using Nat.succ_le_of_lt hlt), List.length_append,
        List.length_singleton, List.range_succ, List.zip_append List.length_range]
      simp [hlt]
    · rw [List.take_append_of_le_length (Nat.le_of_not_lt hlt)]
      simp [hlt]

/-- A packet that has the fields of some shape has those of a smaller one. -/
theorem read?_of_le (hle : smaller ≤ count) (h : read? count packet = some frame) :
    read? smaller packet = some (frame.filter (·.1 < smaller)) := by
  cases packet with
  | nil => cases h
  | cons mark rest =>
    rw [read?] at h ⊢
    split_ifs at h ⊢
    · simp only [Option.bind_eq_bind, Option.bind_eq_some_iff] at h
      obtain ⟨⟨entries, tail⟩, hentries, hframe⟩ := h
      simp only [hentries, ofEntries?_of_le hle hframe, Option.bind_eq_bind, Option.bind_some]
    · simp only [Option.bind_eq_bind, Option.bind_eq_some_iff] at h
      obtain ⟨items, hitems, heq⟩ := h
      obtain rfl := Option.some.inj heq
      simp only [readUpTo_of_le hle hitems, Option.bind_eq_bind, Option.bind_some,
        zip_range_take]

theorem field?_filter {number : Nat} (hlt : number < smaller) :
    field? (frame.filter (·.1 < smaller)) number = frame.field? number := by
  unfold field?
  induction frame with
  | nil => rfl
  | cons head rest ih =>
    obtain ⟨found, value⟩ := head
    by_cases hfound : number = found
    · subst hfound
      rw [List.filter_cons_of_pos (by simpa using hlt), List.lookup_cons_self,
        List.lookup_cons_self]
    · have hne : (number == found) = false := beq_eq_false_iff_ne.mpr hfound
      rw [List.lookup_cons, hne, ← ih, List.filter_cons]
      split
      · rw [List.lookup_cons, hne]
      · rfl

end Frame

/-! ### Messages -/

namespace Message

variable {packet transaction sender : Bytes} {kind : Kind} {content : Content}

/-- The number of the message's type in a packet of a kind. -/
def Kind.number : Kind → Int
  | .request => 0
  | .response => 1
  | .fault => 2

/-- The packet is bencode of the shape of a kind of messages, and these are its fields. -/
def HasFields (packet : Bytes) (kind : Kind) (transaction sender : Bytes) (content : Content) :
    Prop :=
  ∃ frame, Frame.read? kind.fieldCount packet = some frame ∧ frame.int? 0 = some kind.number ∧
    frame.bytes? 1 = some transaction ∧ frame.bytes? 2 = some sender ∧
    Content.ofFrame? frame kind = some content

/-- Of which kind a packet is can be seen from its first field alone. -/
theorem HasFields.kindOf (h : HasFields packet kind transaction sender content) :
    kindOf packet = .ok kind := by
  obtain ⟨frame, hread, hnumber, -⟩ := h
  have hheader : Frame.read? 1 packet = some (frame.filter (·.1 < 1)) :=
    Frame.read?_of_le (by cases kind <;> decide) hread
  have hfirst : Frame.int? (frame.filter (·.1 < 1)) 0 = some kind.number := by
    rw [Frame.int?, Frame.field?_filter Nat.one_pos]
    exact hnumber
  rw [Message.kindOf, hheader, Option.bind_some, hfirst]
  cases kind <;> rfl

theorem HasFields.fieldsOf? (h : HasFields packet kind transaction sender content) :
    fieldsOf? kind packet = some (transaction, sender, content) := by
  obtain ⟨frame, hread, -, htransaction, hsender, hcontent⟩ := h
  simp only [Message.fieldsOf?, hread, htransaction, hsender, hcontent, Option.bind_eq_bind,
    Option.bind_some]
  rfl

/-- **Packets of the right shape.** What such a packet comes to is up to the lengths of its ids and
to its content. -/
theorem decode_of_hasFields (h : HasFields packet kind transaction sender content) :
    (transaction.length ≠ TransactionId.size →
        decode packet = .error (.transactionId transaction)) ∧
      (transaction.length = TransactionId.size → sender.length ≠ Id.size →
        decode packet = .error (.idSize sender.length)) ∧
      (transaction.length = TransactionId.size → sender.length = Id.size →
        ∃ token id, TransactionId.toBytes token = transaction ∧ Id.toBytes id = sender ∧
          decode packet = content.body.map (⟨token, id, ·⟩)) := by
  rw [decode, h.kindOf]
  simp only [bind, Except.bind, h.fieldsOf?]
  refine ⟨fun htransaction => ?_, fun htransaction hsender => ?_, fun htransaction hsender => ?_⟩
  · rw [TransactionId.ofBytes?, if_neg htransaction]
  · obtain ⟨token, rfl⟩ := TransactionId.exists_toBytes_eq htransaction
    rw [TransactionId.ofBytes?_toBytes, Id.ofBytes?, if_neg hsender]
  · obtain ⟨token, rfl⟩ := TransactionId.exists_toBytes_eq htransaction
    obtain ⟨id, rfl⟩ := Id.exists_toBytes_eq hsender
    refine ⟨token, id, rfl, rfl, ?_⟩
    rw [TransactionId.ofBytes?_toBytes, Id.ofBytes?_toBytes]
    cases content.body <;> rfl

end Message

end Kademlia
