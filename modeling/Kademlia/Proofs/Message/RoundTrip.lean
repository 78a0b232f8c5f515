import Kademlia.Bencode.RoundTrip
import Kademlia.Message.Decode
import Kademlia.Message.Encode
import Mathlib.Data.List.Basic

/-!
# Kademlia.Proofs.Message.RoundTrip

Messages survive the way through a packet (`decode_encode_eq_ok`), with one exception: a request
that cannot be served is written with its method alone, so that its defect is not told. What every
packet tells is `Message.told` (`decode_encode`).

A packet is read twice, once for the number of its type and once for all fields of that type. Both
readings see the same dictionary (`Frame.read?_write`), and differ in how many of its fields they
take. What is left is to read back each field: the arguments of a request, the payload of a
response, the arguments of an error.
-/

namespace Kademlia

/-! ### Lists of values -/

namespace Bencode

theorem fitsItems_eq_all (items : List Bencode) : fitsItems items = items.all fits := by
  induction items with
  | nil => rfl
  | cons item items ih => rw [fitsItems, List.all_cons, ih]

theorem keyedItems_eq_all (items : List Bencode) : keyedItems items = items.all keyed := by
  induction items with
  | nil => rfl
  | cons item items ih => rw [keyedItems, List.all_cons, ih]

theorem fitsEntries_eq_all (entries : List (Bencode × Bencode)) :
    fitsEntries entries = entries.all fun entry => entry.1.fits && entry.2.fits := by
  induction entries with
  | nil => rfl
  | cons entry entries ih => rw [fitsEntries, List.all_cons, ih]

theorem mapM_byteString?_bytes (contents : List Bytes) :
    (contents.map bytes).mapM byteString? = some contents := by
  induction contents with
  | nil => rfl
  | cons content contents ih => simp [byteString?, ih]

end Bencode

/-! ### Frames -/

namespace Frame

variable {frame : Frame} {count : Nat}

/-- The key of a field: its number as a digit. -/
def key (number : Nat) : Bencode := .bytes [UInt8.ofNat (48 + number)]

/-- The dictionary entries of a frame. -/
def entries (frame : Frame) : List (Bencode × Bencode) :=
  frame.map fun field => (key field.1, field.2)

theorem toNat_digit {number : Nat} (h : number < 10) :
    (UInt8.ofNat (48 + number)).toNat = 48 + number := by
  rw [UInt8.toNat_ofNat']
  omega

theorem isText_key {number : Nat} (h : number < 10) : isText (key number) = true := by
  have hdigit := toNat_digit h
  simp only [isText, key, Utf8.isValid, Utf8.pieces, Utf8.character, hdigit]
  rw [Utf8.lead?, if_pos (by omega)]
  rfl

theorem fieldNumber?_key {number : Nat} (h : number < 10) :
    fieldNumber? count (key number) = if number < count then some number else none := by
  simp only [fieldNumber?, key, toNat_digit h]
  by_cases hcount : number < count
  · rw [if_pos (by omega), if_pos hcount]
    exact congrArg some (by omega)
  · rw [if_neg (by omega), if_neg hcount]

/-- The fields that a reader asks for are found in the entries of a frame. -/
theorem ofEntries?_entries (hdigit : ∀ field ∈ frame, field.1 < 10)
    (hnodup : (frame.map Prod.fst).Nodup) :
    ofEntries? count frame.entries = some (frame.filter (·.1 < count)) := by
  let found := frame.entries.filterMap fun entry => (fieldNumber? count entry.1).map (·, entry.2)
  have hfields : found = frame.filter (·.1 < count) := by
    show frame.entries.filterMap _ = _
    rw [entries, List.filterMap_map, ← List.filterMap_eq_filter]
    refine List.filterMap_congr fun field hfield => ?_
    rw [Function.comp_apply]
    dsimp only
    rw [fieldNumber?_key (hdigit field hfield)]
    by_cases hcount : field.1 < count
    · rw [if_pos hcount, Option.map_some, Option.guard, if_pos (decide_eq_true hcount)]
    · rw [if_neg hcount, Option.map_none, Option.guard, if_neg (by simpa using hcount)]
  have htext : (frame.entries.all fun entry => isText entry.1) = true := by
    refine List.all_eq_true.mpr fun entry hentry => ?_
    obtain ⟨field, hfield, rfl⟩ := List.mem_map.mp hentry
    exact isText_key (hdigit field hfield)
  have hsub : ((frame.filter (·.1 < count)).map Prod.fst).Nodup :=
    hnodup.sublist (List.filter_sublist.map Prod.fst)
  rw [← hfields] at hsub ⊢
  exact if_pos ⟨htext, hsub⟩

/-- A frame is read back from the dictionary of its entries. -/
theorem read?_write (hdigit : ∀ field ∈ frame, field.1 < 10)
    (hnodup : (frame.map Prod.fst).Nodup) (hfits : Bencode.fitsEntries frame.entries = true) :
    read? count (Bencode.dict frame.entries).write = some (frame.filter (·.1 < count)) := by
  have hread := Bencode.readEntries_writeEntries frame.entries
    (Bencode.readMeasure (Bencode.writeEntries frame.entries)) [] hfits
    (by simp only [Bencode.readMeasure]; omega)
  rw [List.append_nil] at hread
  rw [Bencode.write, read?, if_pos rfl, hread]
  exact ofEntries?_entries hdigit hnodup

end Frame

/-! ### Requests -/

namespace Request

/-- The request that a packet tells. One that cannot be served is written without arguments, and
what its method makes of none is read. -/
def told : Request → Request
  | .invalid method _ => ofArguments method []
  | asked => asked

theorem fits_arguments (request : Request) : Bencode.fitsItems request.arguments = true := by
  cases request with
  | store key publisher port =>
    have hport := port.toNat_lt
    simp [arguments, Bencode.fitsItems, Bencode.fits, Bencode.fitsEntries, Bencode.inRange,
      Bencode.text]
    omega
  | _ => rfl

theorem keyed_arguments (request : Request) : Bencode.keyedItems request.arguments = true := by
  cases request <;> rfl

theorem idArgument_toBytes (id : Id) : idArgument (some (.bytes id.toBytes)) = .ok id := by
  rw [idArgument, Id.ofBytes?_toBytes]

theorem keyArgument_toBytes (id : Id) : keyArgument (some (.bytes id.toBytes)) = .ok id := by
  rw [keyArgument]
  · exact idArgument_toBytes id
  · intro hempty
    have hlength := congrArg List.length (Bencode.bytes.inj (Option.some.inj hempty))
    rw [Id.length_toBytes] at hlength
    exact absurd hlength (by decide)

theorem portArgument_toNat (port : UInt16) : portArgument (some (.int port.toNat)) = .ok port := by
  have hport := port.toNat_lt
  rw [portArgument, if_pos (by omega), Int.toNat_natCast, UInt16.ofNat_toNat]

theorem ok_bind {ε α β : Type} (a : α) (next : α → Except ε β) : (Except.ok a >>= next) = next a :=
  rfl

/-- The entries of a store request are found under their names. -/
theorem entry?_store (publisher port : Bencode) :
    Bencode.entry? [(.text "lbryid", publisher), (.text "port", port)] (Utf8.encode "lbryid") =
        some publisher ∧
      Bencode.entry? [(.text "lbryid", publisher), (.text "port", port)] (Utf8.encode "port") =
        some port := by
  constructor <;> rfl

theorem storeOfArguments_store (key publisher : Id) (port : UInt16) :
    storeOfArguments (arguments (.store key publisher port)) = .ok (.store key publisher port) := by
  have hkey : keyArgument (arguments (.store key publisher port))[0]? = .ok key :=
    keyArgument_toBytes key
  have hentries : entriesArgument (arguments (.store key publisher port))[1]? =
      .ok [(.text "lbryid", .bytes publisher.toBytes), (.text "port", .int port.toNat)] := rfl
  obtain ⟨hpublisher, hport⟩ := entry?_store (.bytes publisher.toBytes) (.int port.toNat)
  rw [storeOfArguments, hkey, ok_bind, hentries, ok_bind, hpublisher, idArgument_toBytes, ok_bind,
    hport, portArgument_toNat, ok_bind]
  rfl

/-- A request is told by its method and arguments. -/
theorem ofArguments_arguments (request : Request) :
    ofArguments request.method request.arguments = request.told := by
  -- What goes well with the arguments goes well for the request.
  have hok : ∀ {asked}, ofArguments? request.method request.arguments = .ok asked →
      ofArguments request.method request.arguments = asked := by
    intro asked h
    rw [ofArguments, h]
  cases request with
  | ping => exact hok rfl
  | store key publisher port =>
    refine hok ?_
    simp only [ofArguments?, method]
    exact storeOfArguments_store key publisher port
  | findNode target =>
    refine hok ?_
    simp only [ofArguments?, method, arguments, List.getElem?_cons_zero, idArgument_toBytes]
    rfl
  | findValue key =>
    refine hok ?_
    simp only [ofArguments?, method, arguments, List.getElem?_cons_zero, idArgument_toBytes]
    rfl
  | invalid method defect => rfl

/-- No packet tells of an empty key, for the arguments of such a request are not written. -/
theorem told_ne_emptyKey (request : Request) (method : String) :
    request.told ≠ .invalid method .emptyKey := by
  cases request with
  | invalid name defect =>
    rw [told, ofArguments, ofArguments?]
    split_ifs <;> simp [storeOfArguments, keyArgument, idArgument, Except.map, bind, Except.bind]
  | _ => simp [told]

end Request

/-! ### Responses -/

theorem Contact.ofItems_map_toBencode (contacts : List Contact) :
    Contact.ofItems (contacts.map Contact.toBencode) = .ok contacts := by
  induction contacts with
  | nil => rfl
  | cons contact contacts ih =>
    rw [List.map_cons, ofItems, ih, toBencode, ofBencode, ofCompact_toCompact]
    rfl

namespace Response

theorem fits_contacts (contacts : List Contact) :
    Bencode.fitsItems (contacts.map Contact.toBencode) = true := by
  rw [Bencode.fitsItems_eq_all, List.all_map]
  exact List.all_eq_true.mpr fun _ _ => rfl

theorem keyed_contacts (contacts : List Contact) :
    Bencode.keyedItems (contacts.map Contact.toBencode) = true := by
  rw [Bencode.keyedItems_eq_all, List.all_map]
  exact List.all_eq_true.mpr fun _ _ => rfl

theorem fits_payload (response : Response) : response.payload.fits = true := by
  cases response with
  | success marker => rfl
  | nodes contacts => exact fits_contacts contacts
  | values key publishers =>
    simp [payload, Bencode.fits, Bencode.fitsEntries, fits_contacts publishers]

theorem keyed_payload (response : Response) : response.payload.keyed = true := by
  cases response with
  | success marker => rfl
  | nodes contacts => exact keyed_contacts contacts
  | values key publishers =>
    simp [payload, Bencode.keyed, Bencode.keyedEntries, Bencode.byteString?,
      keyed_contacts publishers]

/-- A response is told by its payload. -/
theorem ofPayload_payload (response : Response) : ofPayload response.payload = .ok response := by
  cases response with
  | success marker => rw [payload, Bencode.text, ofPayload, Utf8.decode_encode]
  | nodes contacts =>
    rw [payload, ofPayload, Contact.ofItems_map_toBencode]
    rfl
  | values key publishers =>
    have hkey : keyOfEntries? [(.bytes key.toBytes,
        .list (publishers.map Contact.toBencode))] = some key := by
      simp [keyOfEntries?, Bencode.byteString?]
    have hvalue : Bencode.entry? [(.bytes key.toBytes,
        .list (publishers.map Contact.toBencode))] key.toBytes =
          some (.list (publishers.map Contact.toBencode)) := by
      simp [Bencode.entry?, Bencode.byteString?]
    rw [payload, ofPayload, ofEntries, hkey]
    simp only [hvalue, Contact.ofItems_map_toBencode]
    rfl

end Response

/-! ### Messages -/

/-- The kind of packet that a body needs. -/
def Body.kind : Body → Message.Kind
  | .request _ => .request
  | .response _ => .response
  | .fault _ => .fault

/-- What a packet tells of a body. -/
def Body.content : Body → Message.Content
  | .request asked => .request (Utf8.encode asked.method) asked.arguments
  | .response answer => .response answer.payload
  | .fault refusal => .fault (Utf8.encode refusal.exception) refusal.args

namespace Message

/-- The fields of a message with their numbers. -/
def frame (message : Message) : Frame :=
  (0, .int message.body.number) ::
  (1, .bytes message.transaction.toBytes) ::
  (2, .bytes message.sender.toBytes) ::
  match message.body with
  | .request asked => [(3, .text asked.method), (4, .list asked.arguments)]
  | .response answer => [(3, answer.payload)]
  | .fault refusal => [(3, .text refusal.exception), (4, .list (refusal.args.map .bytes))]

theorem toBencode_eq_dict (message : Message) :
    message.toBencode = .dict message.frame.entries := by
  obtain ⟨transaction, sender, body⟩ := message
  cases body <;> rfl

theorem digits_frame (message : Message) : ∀ field ∈ message.frame, field.1 < 10 := by
  obtain ⟨transaction, sender, body⟩ := message
  cases body <;> simp [frame]

theorem nodup_frame (message : Message) : (message.frame.map Prod.fst).Nodup := by
  obtain ⟨transaction, sender, body⟩ := message
  cases body <;> simp [frame]

theorem fits_frame (message : Message) : Bencode.fitsEntries message.frame.entries = true := by
  have hall : ∀ field ∈ message.frame, field.2.fits = true := by
    obtain ⟨transaction, sender, body⟩ := message
    intro field hfield
    cases body with
    | request asked =>
      simp only [frame, List.mem_cons, List.not_mem_nil, or_false] at hfield
      rcases hfield with rfl | rfl | rfl | rfl | rfl
      · rfl
      · rfl
      · rfl
      · rfl
      · exact asked.fits_arguments
    | response answer =>
      simp only [frame, List.mem_cons, List.not_mem_nil, or_false] at hfield
      rcases hfield with rfl | rfl | rfl | rfl
      · rfl
      · rfl
      · rfl
      · exact answer.fits_payload
    | fault refusal =>
      simp only [frame, List.mem_cons, List.not_mem_nil, or_false] at hfield
      rcases hfield with rfl | rfl | rfl | rfl | rfl
      · rfl
      · rfl
      · rfl
      · rfl
      · refine (Bencode.fitsItems_eq_all _).trans (List.all_eq_true.mpr fun item hitem => ?_)
        obtain ⟨content, -, rfl⟩ := List.mem_map.mp hitem
        rfl
  rw [Bencode.fitsEntries_eq_all, Frame.entries, List.all_map]
  refine List.all_eq_true.mpr fun field hfield => ?_
  exact (Bool.and_eq_true ..).mpr ⟨rfl, hall field hfield⟩

/-- A packet is read as the fields of its message. -/
theorem read?_encode (message : Message) (count : Nat) :
    Frame.read? count message.encode = some (message.frame.filter (·.1 < count)) := by
  rw [encode, toBencode_eq_dict]
  exact Frame.read?_write message.digits_frame message.nodup_frame message.fits_frame

theorem kindOf_encode (message : Message) : kindOf message.encode = .ok message.body.kind := by
  rw [kindOf, read?_encode]
  obtain ⟨transaction, sender, body⟩ := message
  cases body <;> rfl

/-- The content of a packet is that of its message's body. -/
theorem ofFrame?_frame (message : Message) :
    Content.ofFrame? (message.frame.filter (·.1 < message.body.kind.fieldCount))
        message.body.kind = some message.body.content := by
  obtain ⟨transaction, sender, body⟩ := message
  cases body with
  | request asked =>
    have hfilter : (frame ⟨transaction, sender, .request asked⟩).filter (·.1 < 5) =
        frame ⟨transaction, sender, .request asked⟩ := rfl
    have hmethod : Frame.bytes? (frame ⟨transaction, sender, .request asked⟩) 3 =
        some (Utf8.encode asked.method) := rfl
    have hitems : Frame.items? (frame ⟨transaction, sender, .request asked⟩) 4 =
        some asked.arguments := rfl
    rw [Body.kind, Kind.fieldCount, hfilter, Content.ofFrame?, hmethod, hitems]
    exact if_pos asked.keyed_arguments
  | response answer =>
    have hfield : Frame.field?
        ((frame ⟨transaction, sender, .response answer⟩).filter (·.1 < 4)) 3 =
          some answer.payload := rfl
    rw [Body.kind, Kind.fieldCount, Content.ofFrame?, Frame.value?, hfield]
    dsimp only
    rw [if_pos answer.keyed_payload]
    rfl
  | fault refusal =>
    have hfilter : (frame ⟨transaction, sender, .fault refusal⟩).filter (·.1 < 5) =
        frame ⟨transaction, sender, .fault refusal⟩ := rfl
    have hexception : Frame.bytes? (frame ⟨transaction, sender, .fault refusal⟩) 3 =
        some (Utf8.encode refusal.exception) := rfl
    have hitems : Frame.items? (frame ⟨transaction, sender, .fault refusal⟩) 4 =
        some (refusal.args.map .bytes) := rfl
    rw [Body.kind, Kind.fieldCount, hfilter, Content.ofFrame?, hexception, hitems,
      Option.bind_eq_bind, Option.bind_some, Option.bind_eq_bind, Option.bind_some,
      Bencode.mapM_byteString?_bytes]
    rfl

theorem fieldsOf?_encode (message : Message) :
    fieldsOf? message.body.kind message.encode =
      some (message.transaction.toBytes, message.sender.toBytes, message.body.content) := by
  have htransaction : Frame.bytes? (message.frame.filter (·.1 < message.body.kind.fieldCount)) 1 =
      some message.transaction.toBytes := by
    obtain ⟨transaction, sender, body⟩ := message
    cases body <;> rfl
  have hsender : Frame.bytes? (message.frame.filter (·.1 < message.body.kind.fieldCount)) 2 =
      some message.sender.toBytes := by
    obtain ⟨transaction, sender, body⟩ := message
    cases body <;> rfl
  simp only [fieldsOf?, read?_encode, Option.bind_eq_bind, Option.bind_some, htransaction, hsender,
    ofFrame?_frame]
  rfl

/-- The message that a packet tells. -/
def told (message : Message) : Message :=
  match message.body with
  | .request asked => { message with body := .request asked.told }
  | _ => message

theorem body_content (message : Message) : message.body.content.body = .ok message.told.body := by
  obtain ⟨transaction, sender, body⟩ := message
  cases body with
  | request asked =>
    rw [Body.content, Content.body, Utf8.decode_encode, Request.ofArguments_arguments]
    rfl
  | response answer =>
    rw [Body.content, Content.body, Response.ofPayload_payload]
    rfl
  | fault refusal =>
    rw [Body.content, Content.body, Utf8.decode_encode]
    rfl

/-- What is read back from the packet of any message. -/
theorem decode_encode (message : Message) : decode message.encode = .ok message.told := by
  have htold : message.told = ⟨message.transaction, message.sender, message.told.body⟩ := by
    obtain ⟨transaction, sender, body⟩ := message
    cases body <;> rfl
  rw [decode, kindOf_encode, htold]
  simp only [bind, Except.bind, fieldsOf?_encode, TransactionId.ofBytes?_toBytes,
    Id.ofBytes?_toBytes, body_content]
  rfl

/-- **Round trip.** A message is read back from its packet. -/
theorem decode_encode_eq_ok (message : Message)
    (h : ∀ method defect, message.body ≠ .request (.invalid method defect)) :
    decode message.encode = .ok message := by
  have htold : message.told = message := by
    obtain ⟨transaction, sender, body⟩ := message
    cases body with
    | request asked =>
      cases asked with
      | invalid method defect => exact absurd rfl (h method defect)
      | _ => rfl
    | _ => rfl
  rw [decode_encode, htold]

theorem decode_encode_store :
    decode (encode ⟨.ofNat 7, .zero, .request (.store .zero (.flip .zero 5) 3333)⟩) =
      .ok ⟨.ofNat 7, .zero, .request (.store .zero (.flip .zero 5) 3333)⟩ :=
  decode_encode_eq_ok _ fun _ _ h => Request.noConfusion (Body.request.inj h)

end Message

end Kademlia
