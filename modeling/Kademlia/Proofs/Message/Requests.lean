import Kademlia.Proofs.Message.RoundTrip
import Kademlia.Proofs.Message.Shape
import Kademlia.Proofs.Utf8

/-!
# Kademlia.Proofs.Message.Requests

What a request asks for, going by its method and arguments (`Request.Asks`), and that a packet of a
request is read as just that (`Message.decode_request`). No method and no argument makes such a
packet unreadable. What asks for nothing is read as a request that cannot be served, so that its
sender is heard of all the same.

The method comes as bytes and is compared as text. A text that was read from malformed bytes differs
from every method's name, so the bytes have to be those of the name (`Utf8.decode_eq_iff`).
-/

namespace Kademlia

namespace Request

variable {method : Bytes} {arguments : List Bencode} {request : Request} {id : Id}
  {name text : String} {defect : RequestDefect}

/-- What a method asks for with its arguments, if anything. -/
inductive Asks (method : Bytes) (arguments : List Bencode) : Request → Prop where
  | ping (hmethod : method = Utf8.encode "ping") : Asks method arguments .ping
  | findNode {target : Id} (hmethod : method = Utf8.encode "findNode")
      (htarget : arguments[0]? = some (.bytes target.toBytes)) :
      Asks method arguments (.findNode target)
  | findValue {key : Id} (hmethod : method = Utf8.encode "findValue")
      (hkey : arguments[0]? = some (.bytes key.toBytes)) : Asks method arguments (.findValue key)
  | store {key publisher : Id} {port : UInt16} {entries : List (Bencode × Bencode)}
      (hmethod : method = Utf8.encode "store")
      (hkey : arguments[0]? = some (.bytes key.toBytes))
      (hentries : arguments[1]? = some (.dict entries))
      (hpublisher : Bencode.Binds entries (Utf8.encode "lbryid") (.bytes publisher.toBytes))
      (hport : Bencode.Binds entries (Utf8.encode "port") (.int port.toNat)) :
      Asks method arguments (.store key publisher port)

/-- What is asked for can be served. -/
theorem Asks.servable (h : Asks method arguments request) : request.Servable := by
  cases h <;> trivial

/-! ### Arguments -/

theorem idArgument_eq_ok_iff {argument : Option Bencode} :
    idArgument argument = .ok id ↔ argument = some (.bytes id.toBytes) := by
  refine ⟨fun h => ?_, fun h => by rw [h, idArgument, Id.ofBytes?_toBytes]⟩
  unfold idArgument at h
  split at h
  · rename_i content
    cases hread : Id.ofBytes? content with
    | none => simp [hread] at h
    | some found =>
      obtain rfl : found = id := by simpa [hread] using h
      rw [Id.ofBytes?_eq_some_iff.mp hread]
  · cases h

theorem idArgument_ne_emptyKey (argument : Option Bencode) :
    idArgument argument ≠ .error .emptyKey := by
  unfold idArgument
  split
  · split <;> simp
  · simp

/-- What is empty is no id anyway. -/
theorem keyArgument_eq_ok_iff {argument : Option Bencode} :
    keyArgument argument = .ok id ↔ argument = some (.bytes id.toBytes) := by
  rw [← idArgument_eq_ok_iff]
  unfold keyArgument
  split
  · simp [idArgument, Id.ofBytes?, Id.size]
  · exact Iff.rfl

theorem keyArgument_eq_emptyKey_iff {argument : Option Bencode} :
    keyArgument argument = .error .emptyKey ↔ argument = some (.bytes []) := by
  unfold keyArgument
  split
  · exact ⟨fun _ => rfl, fun _ => rfl⟩
  · rename_i hne
    exact ⟨fun h => absurd h (idArgument_ne_emptyKey _), fun h => absurd h hne⟩

theorem entriesArgument_eq_ok_iff {argument : Option Bencode} {entries : List (Bencode × Bencode)} :
    entriesArgument argument = .ok entries ↔ argument = some (.dict entries) := by
  unfold entriesArgument
  split
  · simp
  · rename_i hne
    exact ⟨fun h => absurd h (by simp), fun h => absurd h (hne entries)⟩

theorem entriesArgument_ne_emptyKey (argument : Option Bencode) :
    entriesArgument argument ≠ .error .emptyKey := by
  unfold entriesArgument
  split <;> simp

theorem portArgument_eq_ok_iff {argument : Option Bencode} {port : UInt16} :
    portArgument argument = .ok port ↔ argument = some (.int port.toNat) := by
  refine ⟨fun h => ?_, fun h => ?_⟩
  · unfold portArgument at h
    split at h
    · rename_i n
      split at h
      · rename_i hrange
        obtain rfl := Except.ok.inj h
        have hport : (UInt16.ofNat n.toNat).toNat = n.toNat :=
          UInt16.toNat_ofNat_of_lt' (by simp only [UInt16.size]; omega)
        rw [hport, Int.toNat_of_nonneg hrange.1]
      · cases h
    · cases h
  · have hport := port.toNat_lt
    rw [h, portArgument, if_pos (by omega), Int.toNat_natCast, UInt16.ofNat_toNat]

theorem portArgument_ne_emptyKey (argument : Option Bencode) :
    portArgument argument ≠ .error .emptyKey := by
  unfold portArgument
  split
  · split <;> simp
  · simp

/-! ### Methods -/

theorem storeOfArguments_eq_ok_iff :
    storeOfArguments arguments = .ok request ↔
      ∃ key, arguments[0]? = some (.bytes (Id.toBytes key)) ∧
        ∃ entries, arguments[1]? = some (.dict entries) ∧
          ∃ publisher,
            Bencode.Binds entries (Utf8.encode "lbryid") (.bytes (Id.toBytes publisher)) ∧
              ∃ port : UInt16, Bencode.Binds entries (Utf8.encode "port") (.int port.toNat) ∧
                .store key publisher port = request := by
  simp only [storeOfArguments, bind_eq_ok_iff, keyArgument_eq_ok_iff, entriesArgument_eq_ok_iff,
    idArgument_eq_ok_iff, portArgument_eq_ok_iff, Bencode.entry?_eq_some_iff, pure, Except.pure,
    Except.ok.injEq]

theorem storeOfArguments_eq_emptyKey_iff :
    storeOfArguments arguments = .error .emptyKey ↔ arguments[0]? = some (.bytes []) := by
  simp [storeOfArguments, bind_eq_error_iff, keyArgument_eq_emptyKey_iff,
    entriesArgument_ne_emptyKey, idArgument_ne_emptyKey, portArgument_ne_emptyKey, pure,
    Except.pure]

theorem ofArguments?_eq_ok_iff :
    ofArguments? (Utf8.decode method) arguments = .ok request ↔ Asks method arguments request := by
  constructor
  · intro h
    rw [ofArguments?] at h
    split_ifs at h with hping hfindNode hfindValue hstore
    · obtain rfl := Except.ok.inj h
      exact .ping ((Utf8.decode_eq_iff (by decide)).mp hping)
    · obtain ⟨target, htarget, rfl⟩ := map_eq_ok_iff.mp h
      exact .findNode ((Utf8.decode_eq_iff (by decide)).mp hfindNode)
        (idArgument_eq_ok_iff.mp htarget)
    · obtain ⟨key, hkey, rfl⟩ := map_eq_ok_iff.mp h
      exact .findValue ((Utf8.decode_eq_iff (by decide)).mp hfindValue)
        (idArgument_eq_ok_iff.mp hkey)
    · obtain ⟨key, hkey, entries, hentries, publisher, hpublisher, port, hport, rfl⟩ :=
        storeOfArguments_eq_ok_iff.mp h
      exact .store ((Utf8.decode_eq_iff (by decide)).mp hstore) hkey hentries hpublisher hport
  · intro h
    cases h with
    | ping hmethod => rw [hmethod, Utf8.decode_encode, ofArguments?, if_pos rfl]
    | findNode hmethod htarget =>
      rw [hmethod, Utf8.decode_encode, ofArguments?, if_neg (by decide), if_pos rfl,
        idArgument_eq_ok_iff.mpr htarget]
      rfl
    | findValue hmethod hkey =>
      rw [hmethod, Utf8.decode_encode, ofArguments?, if_neg (by decide), if_neg (by decide),
        if_pos rfl, idArgument_eq_ok_iff.mpr hkey]
      rfl
    | store hmethod hkey hentries hpublisher hport =>
      rw [hmethod, Utf8.decode_encode, ofArguments?, if_neg (by decide), if_neg (by decide),
        if_neg (by decide), if_pos rfl]
      exact storeOfArguments_eq_ok_iff.mpr
        ⟨_, hkey, _, hentries, _, hpublisher, _, hport, rfl⟩

theorem ofArguments?_eq_emptyKey_iff :
    ofArguments? (Utf8.decode method) arguments = .error .emptyKey ↔
      method = Utf8.encode "store" ∧ arguments[0]? = some (.bytes []) := by
  constructor
  · intro h
    rw [ofArguments?] at h
    split_ifs at h with hping hfindNode hfindValue hstore
    · exact absurd (map_eq_error_iff.mp h) (idArgument_ne_emptyKey _)
    · exact absurd (map_eq_error_iff.mp h) (idArgument_ne_emptyKey _)
    · exact ⟨(Utf8.decode_eq_iff (by decide)).mp hstore, storeOfArguments_eq_emptyKey_iff.mp h⟩
    · cases h
  · rintro ⟨rfl, hkey⟩
    rw [Utf8.decode_encode, ofArguments?, if_neg (by decide), if_neg (by decide),
      if_neg (by decide), if_pos rfl]
    exact storeOfArguments_eq_emptyKey_iff.mpr hkey

/-! ### Requests -/

/-- What a method and its arguments are read as. -/
structure Reads (method : Bytes) (arguments : List Bencode) (asked : Request) : Prop where
  /-- A request that can be served is read exactly if it is what is asked for. -/
  served : ∀ request : Request, request.Servable → (asked = request ↔ Asks method arguments request)
  /-- If nothing is asked for, the request cannot be served. Its method is told as text. -/
  refused : (∀ request, ¬ Asks method arguments request) →
    ∃ defect, asked = .invalid (Utf8.decode method) defect
  /-- Its defect is an empty key exactly if it is a store request with an empty string for a key. -/
  emptyKey : (∃ text, asked = .invalid text .emptyKey) ↔
    method = Utf8.encode "store" ∧ arguments[0]? = some (.bytes [])

theorem reads_ofArguments (method : Bytes) (arguments : List Bencode) :
    Reads method arguments (ofArguments (Utf8.decode method) arguments) := by
  rw [ofArguments]
  cases hasked : ofArguments? (Utf8.decode method) arguments with
  | ok asked =>
    have hasks := ofArguments?_eq_ok_iff.mp hasked
    refine ⟨fun request _ => ?_, fun hnone => absurd hasks (hnone asked), ?_⟩
    · rw [← ofArguments?_eq_ok_iff, hasked, Except.ok.injEq]
    · rw [← ofArguments?_eq_emptyKey_iff, hasked]
      constructor
      · rintro ⟨text, htext⟩
        obtain rfl : asked = .invalid text .emptyKey := htext
        exact hasks.servable.elim
      · intro h
        cases h
  | error defect =>
    refine ⟨fun request hservable => ?_, fun _ => ⟨defect, rfl⟩, ?_⟩
    · rw [← ofArguments?_eq_ok_iff, hasked]
      refine ⟨fun heq => ?_, fun h => by cases h⟩
      obtain rfl : .invalid (Utf8.decode method) defect = request := heq
      exact hservable.elim
    · rw [← ofArguments?_eq_emptyKey_iff, hasked]
      simp

end Request

/-! ### Packets -/

namespace Message

variable {packet transaction sender method : Bytes} {arguments : List Bencode}

/-- **Requests are always read.** A packet that has the shape of a request is refused only if one of
its ids has a wrong length. Otherwise it is read as what its method asks for with its arguments, or
as a request that cannot be served. -/
theorem decode_request
    (h : HasFields packet .request transaction sender (.request method arguments)) :
    (transaction.length ≠ TransactionId.size →
        decode packet = .error (.transactionId transaction)) ∧
      (transaction.length = TransactionId.size → sender.length ≠ Id.size →
        decode packet = .error (.idSize sender.length)) ∧
      (transaction.length = TransactionId.size → sender.length = Id.size →
        ∃ message asked, decode packet = .ok message ∧
          message.transaction.toBytes = transaction ∧ message.sender.toBytes = sender ∧
          message.body = .request asked ∧ Request.Reads method arguments asked) := by
  obtain ⟨htransaction, hsender, hdecode⟩ := decode_of_hasFields h
  refine ⟨htransaction, hsender, fun htoken hid => ?_⟩
  obtain ⟨token, id, rfl, rfl, hpacket⟩ := hdecode htoken hid
  exact ⟨_, _, hpacket, rfl, rfl, rfl, Request.reads_ofArguments method arguments⟩

/-- A store request that gives two ports, the first of which is none. The last one counts. -/
theorem decode_request_of_two_ports :
    let arguments : List Bencode := [.bytes Id.zero.toBytes, .dict [(.text "port", .int 70000),
      (.text "lbryid", .bytes Id.zero.toBytes), (.text "port", .int 3333)]]
    let frame : Frame := [(0, .int 0), (1, .bytes (List.replicate 20 7)),
      (2, .bytes Id.zero.toBytes), (3, .text "store"), (4, .list arguments)]
    let packet := (Bencode.dict frame.entries).write
    HasFields packet .request (List.replicate 20 7) Id.zero.toBytes
        (.request (Utf8.encode "store") arguments) ∧
      ∃ message, decode packet = .ok message ∧
        message.body = .request (.store .zero .zero 3333) := by
  intro arguments frame packet
  have hfields : HasFields packet .request (List.replicate 20 7) Id.zero.toBytes
      (.request (Utf8.encode "store") arguments) :=
    ⟨frame, Frame.read?_write (by simp [frame]) (by simp [frame]) rfl, rfl, rfl, rfl, rfl⟩
  obtain ⟨message, asked, hdecode, -, -, hbody, hreads⟩ :=
    (decode_request hfields).2.2 List.length_replicate Id.zero.length_toBytes
  have hasks : Request.Asks (Utf8.encode "store") arguments (.store .zero .zero 3333) := by
    refine .store rfl rfl rfl ⟨[_], _, [_], rfl, rfl, rfl, ?_⟩ ⟨[_, _], _, [], rfl, rfl, rfl, ?_⟩
    · exact List.forall_mem_singleton.mpr (by decide)
    · exact List.forall_mem_nil _
  have hasked := (hreads.served _ hasks.servable).mpr hasks
  exact ⟨hfields, message, hdecode, hbody.trans (congrArg Body.request hasked)⟩

end Message

end Kademlia
