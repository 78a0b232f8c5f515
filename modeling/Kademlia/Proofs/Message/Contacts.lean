import Kademlia.Proofs.Message.RoundTrip
import Kademlia.Proofs.Message.Shape

/-!
# Kademlia.Proofs.Message.Contacts

Lists of contacts are read as a whole or not at all, and nothing of them is lost
(`Message.decode_contacts`). Each item of such a list has to be the compact form of a contact, and
every byte string of the right length is one (`Contact.ofBencode_eq_ok_iff`,
`Contact.exists_toBencode_eq_iff`), so the length decides. The first item that is none is what is
reported of the packet.
-/

namespace Kademlia

/-! ### Contacts -/

namespace Contact

variable {item : Bencode} {items front back : List Bencode} {contact : Contact}
  {contacts : List Contact} {error : DecodeError}

/-- Is the value a byte string of the length of compact forms? -/
def IsCompact (item : Bencode) : Prop :=
  ∃ content, item = .bytes content ∧ content.length = compactSize

/-- Why a value is not the compact form of a contact. -/
inductive Flawed : Bencode → DecodeError → Prop where
  | kind {item : Bencode} (h : ∀ content, item ≠ .bytes content) :
      Flawed item (.payload .contactNotBytes)
  | family {content : Bytes} (h : content.length = compactSizeV6) : Flawed (.bytes content) .ipv6
  | size {content : Bytes} (h : content.length ≠ compactSize)
      (hfamily : content.length ≠ compactSizeV6) :
      Flawed (.bytes content) (.compactSize content.length)

/-- A value is a compact form or has a flaw. -/
theorem isCompact_or_flawed (item : Bencode) : IsCompact item ∨ ∃ error, Flawed item error := by
  cases item with
  | bytes content =>
    by_cases hsize : content.length = compactSize
    · exact .inl ⟨content, rfl, hsize⟩
    · by_cases hfamily : content.length = compactSizeV6
      · exact .inr ⟨_, .family hfamily⟩
      · exact .inr ⟨_, .size hsize hfamily⟩
  | int n => exact .inr ⟨_, .kind fun content => Bencode.noConfusion⟩
  | list items => exact .inr ⟨_, .kind fun content => Bencode.noConfusion⟩
  | dict entries => exact .inr ⟨_, .kind fun content => Bencode.noConfusion⟩

theorem ofBencode_of_flawed (h : Flawed item error) : ofBencode item = .error error := by
  cases h with
  | kind h =>
    unfold ofBencode
    split
    · rename_i content
      exact absurd rfl (h content)
    · rfl
  | family h => rw [ofBencode, ofCompact, if_pos h]
  | size h hfamily => rw [ofBencode, ofCompact_of_length_ne h hfamily]

theorem isCompact_toBencode (contact : Contact) : IsCompact contact.toBencode :=
  ⟨_, rfl, contact.length_toCompact⟩

theorem exists_toBencode_eq_iff : (∃ contact : Contact, contact.toBencode = item) ↔
    IsCompact item := by
  refine ⟨fun ⟨contact, h⟩ => h ▸ isCompact_toBencode contact, fun ⟨content, h, hsize⟩ => ?_⟩
  obtain ⟨contact, rfl⟩ := exists_toCompact_eq hsize
  exact ⟨contact, h.symm⟩

/-- Contacts are read from their compact forms and from nothing else. -/
theorem ofBencode_eq_ok_iff : ofBencode item = .ok contact ↔ contact.toBencode = item := by
  refine ⟨fun h => ?_, fun h => by rw [← h, toBencode, ofBencode, ofCompact_toCompact]⟩
  rcases isCompact_or_flawed item with hcompact | ⟨error, hflawed⟩
  · obtain ⟨other, rfl⟩ := exists_toBencode_eq_iff.mpr hcompact
    rw [toBencode, ofBencode, ofCompact_toCompact] at h
    rw [Except.ok.inj h]
  · rw [ofBencode_of_flawed hflawed] at h
    cases h

/-! ### Lists of contacts -/

/-- What is read of a list is the list. -/
theorem ofItems_eq_ok_iff : ofItems items = .ok contacts ↔ contacts.map toBencode = items := by
  refine ⟨fun h => ?_, fun h => h ▸ ofItems_map_toBencode contacts⟩
  induction items generalizing contacts with
  | nil =>
    obtain rfl := Except.ok.inj h
    rfl
  | cons item items ih =>
    rw [ofItems] at h
    obtain ⟨contact, hcontact, h⟩ := bind_eq_ok_iff.mp h
    obtain ⟨others, hothers, h⟩ := bind_eq_ok_iff.mp h
    obtain rfl := Except.ok.inj h
    rw [List.map_cons, ofBencode_eq_ok_iff.mp hcontact, ih hothers]

theorem exists_map_toBencode_eq_iff :
    (∃ contacts : List Contact, contacts.map toBencode = items) ↔
      ∀ item ∈ items, IsCompact item := by
  refine ⟨?_, fun h => ?_⟩
  · rintro ⟨contacts, rfl⟩ item hitem
    obtain ⟨contact, -, rfl⟩ := List.mem_map.mp hitem
    exact isCompact_toBencode contact
  · induction items with
    | nil => exact ⟨[], rfl⟩
    | cons item items ih =>
      obtain ⟨hitem, hitems⟩ := List.forall_mem_cons.mp h
      obtain ⟨contact, hcontact⟩ := exists_toBencode_eq_iff.mpr hitem
      obtain ⟨contacts, hcontacts⟩ := ih hitems
      exact ⟨contact :: contacts, by rw [List.map_cons, hcontact, hcontacts]⟩

/-- The first item that is no contact is reported, whatever comes after it. -/
theorem ofItems_of_flawed (hfront : ∀ other ∈ front, IsCompact other) (h : Flawed item error) :
    ofItems (front ++ item :: back) = .error error := by
  induction front with
  | nil =>
    rw [List.nil_append, ofItems, ofBencode_of_flawed h]
    rfl
  | cons other front ih =>
    obtain ⟨hother, hrest⟩ := List.forall_mem_cons.mp hfront
    obtain ⟨contact, hcontact⟩ := exists_toBencode_eq_iff.mpr hother
    rw [List.cons_append, ofItems, ofBencode_eq_ok_iff.mpr hcontact, ih hrest]
    rfl

end Contact

/-! ### Payloads -/

namespace Response

variable {payload : Bencode} {items : List Bencode} {make : List Contact → Response}

/-- A payload that lists items, and the response that it is if the items are contacts: a list, or a
dictionary with one key of an id's length, which has a list for its value. -/
inductive Lists (items : List Bencode) : Bencode → (List Contact → Response) → Prop where
  | nodes : Lists items (.list items) .nodes
  | values {entries : List (Bencode × Bencode)} {key : Id}
      (hbinds : Bencode.Binds entries key.toBytes (.list items))
      (honly : ∀ entry ∈ entries, ∀ other, entry.1.byteString? = some other →
        other.length = Id.size → other = key.toBytes) :
      Lists items (.dict entries) (.values key)

theorem keyOfEntries?_eq_some {entries : List (Bencode × Bencode)} {key : Id} {value : Bencode}
    (hbinds : Bencode.Binds entries key.toBytes value)
    (honly : ∀ entry ∈ entries, ∀ other, entry.1.byteString? = some other →
      other.length = Id.size → other = key.toBytes) :
    keyOfEntries? entries = some key := by
  have hkeys : ∀ entry ∈ entries, ∀ id, entry.1.byteString?.bind Id.ofBytes? = some id →
      id = key := by
    intro entry hentry id hid
    obtain ⟨other, hother, hread⟩ := Option.bind_eq_some_iff.mp hid
    have hbytes := Id.ofBytes?_eq_some_iff.mp hread
    have heq := honly entry hentry other hother (hbytes ▸ id.length_toBytes)
    rw [heq, Id.ofBytes?_toBytes] at hread
    exact (Option.some.inj hread).symm
  obtain ⟨before, entry, after, rfl, hkey, -, -⟩ := hbinds
  have hentry : entry ∈ before ++ entry :: after := List.mem_append_right _ List.mem_cons_self
  have hread : entry.1.byteString?.bind Id.ofBytes? = some key := by
    rw [hkey, Option.bind_some, Id.ofBytes?_toBytes]
  cases hfound : keyOfEntries? (before ++ entry :: after) with
  | none =>
    have hnone := List.findSome?_eq_none_iff.mp hfound entry hentry
    exact absurd (hread.symm.trans hnone) (by simp)
  | some id =>
    obtain ⟨other, hother, hid⟩ := List.exists_of_findSome?_eq_some hfound
    rw [hkeys other hother id hid]

theorem ofPayload_of_lists (h : Lists items payload make) :
    ofPayload payload = (Contact.ofItems items).map make := by
  cases h with
  | nodes => rfl
  | values hbinds honly =>
    rw [ofPayload, ofEntries, keyOfEntries?_eq_some hbinds honly]
    simp only [Bencode.entry?_eq_some_iff.mpr hbinds]

end Response

/-! ### Packets -/

namespace Message

variable {packet transaction sender : Bytes} {payload : Bencode} {items : List Bencode}
  {make : List Contact → Response}

/-- **All or nothing.** A response that lists items is read exactly if all of them are byte strings
of the length of compact forms, and the contacts that are read have just these compact forms. If
there is another item, the packet is refused for the first of them. -/
theorem decode_contacts
    (h : HasFields packet .response transaction sender (.response payload))
    (htransaction : transaction.length = TransactionId.size) (hsender : sender.length = Id.size)
    (hlists : Response.Lists items payload make) :
    ((∃ message, decode packet = .ok message) ↔ ∀ item ∈ items, Contact.IsCompact item) ∧
      (∀ message, decode packet = .ok message →
        ∃ contacts, message.body = .response (make contacts) ∧
          contacts.map Contact.toBencode = items) ∧
      ∀ front item back error, items = front ++ item :: back →
        (∀ other ∈ front, Contact.IsCompact other) → Contact.Flawed item error →
          decode packet = .error error := by
  obtain ⟨token, id, -, -, hdecode⟩ := (decode_of_hasFields h).2.2 htransaction hsender
  have hpacket : decode packet =
      (Contact.ofItems items).map fun contacts => ⟨token, id, .response (make contacts)⟩ := by
    rw [hdecode, Content.body, Response.ofPayload_of_lists hlists]
    cases Contact.ofItems items <;> rfl
  rw [hpacket, ← Contact.exists_map_toBencode_eq_iff]
  simp only [map_eq_ok_iff, map_eq_error_iff, Contact.ofItems_eq_ok_iff]
  refine ⟨⟨?_, ?_⟩, ?_, ?_⟩
  · rintro ⟨message, contacts, hitems, -⟩
    exact ⟨contacts, hitems⟩
  · rintro ⟨contacts, hitems⟩
    exact ⟨_, contacts, hitems, rfl⟩
  · rintro message ⟨contacts, hitems, rfl⟩
    exact ⟨contacts, rfl, hitems⟩
  · rintro front item back error rfl hfront hflawed
    exact Contact.ofItems_of_flawed hfront hflawed

/-- A response with a token and a key with two contacts, and the same with a number among them. -/
theorem decode_contacts_of_token_and_key :
    let compact : Bencode := .bytes (List.replicate 54 9)
    let payload (items : List Bencode) : Bencode :=
      .dict [(.text "token", .int 8), (.bytes Id.zero.toBytes, .list items)]
    let frame (items : List Bencode) : Frame := [(0, .int 1), (1, .bytes (List.replicate 20 7)),
      (2, .bytes Id.zero.toBytes), (3, payload items)]
    let packet (items : List Bencode) := (Bencode.dict (frame items).entries).write
    (∃ message contacts, decode (packet [compact, compact]) = .ok message ∧
        message.body = .response (.values .zero contacts) ∧
        contacts.map Contact.toBencode = [compact, compact]) ∧
      decode (packet [compact, .int 5, compact]) = .error (.payload .contactNotBytes) := by
  intro compact payload frame packet
  have hcompact : Contact.IsCompact compact := ⟨_, rfl, List.length_replicate⟩
  have hfields (items : List Bencode) (hfits : Bencode.fitsEntries (frame items).entries = true)
      (hcontent : Content.ofFrame? (frame items) .response = some (.response (payload items))) :
      HasFields (packet items) .response (List.replicate 20 7) Id.zero.toBytes
        (.response (payload items)) :=
    ⟨frame items, Frame.read?_write (by simp [frame]) (by simp [frame]) hfits, rfl, rfl, rfl,
      hcontent⟩
  have hlists (items : List Bencode) :
      Response.Lists items (payload items) (.values .zero) := by
    refine .values ⟨[_], _, [], rfl, rfl, rfl, List.forall_mem_nil _⟩ ?_
    refine List.forall_mem_cons.mpr ⟨fun other hother hsize => ?_,
      List.forall_mem_singleton.mpr fun other hother _ => (Option.some.inj hother).symm⟩
    obtain rfl := Option.some.inj hother
    exact absurd hsize (by decide)
  constructor
  · have hdecode := decode_contacts (hfields [compact, compact] rfl rfl) List.length_replicate
      Id.zero.length_toBytes (hlists _)
    obtain ⟨message, hmessage⟩ := hdecode.1.mpr (by simp [hcompact])
    obtain ⟨contacts, hbody, hcontacts⟩ := hdecode.2.1 message hmessage
    exact ⟨message, contacts, hmessage, hbody, hcontacts⟩
  · have hdecode := decode_contacts (hfields [compact, .int 5, compact] rfl rfl)
      List.length_replicate Id.zero.length_toBytes (hlists _)
    refine hdecode.2.2 [compact] (.int 5) [compact] _ rfl ?_ (.kind fun content => ?_)
    · exact List.forall_mem_singleton.mpr hcompact
    · exact Bencode.noConfusion

end Message

end Kademlia
