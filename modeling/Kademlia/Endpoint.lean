import Kademlia.Bytes
import Kademlia.Text.Decimal

/-!
# Kademlia.Endpoint

Where datagrams come from and go to: an IPv4 address and a port. The compact form has six bytes,
the port last and most significant byte first. Socket addresses of the other family are recognised
(`SocketAddress.v6`) only to be refused. What a name stands for is known to the host alone
(`Resolver`).
-/

namespace Kademlia

/-- An IPv4 address. -/
structure Ipv4 where
  a : UInt8
  b : UInt8
  c : UInt8
  d : UInt8
deriving DecidableEq, Hashable

/-- An IPv4 address and a port. -/
structure Endpoint where
  ip : Ipv4
  port : UInt16
deriving DecidableEq, Hashable

/-- A socket address of either family. -/
inductive SocketAddress where
  | v4 (endpoint : Endpoint)
  /-- An IPv6 address and a port; nothing about it is kept. -/
  | v6
deriving DecidableEq

namespace Ipv4

/-- The address that stands for every local address. -/
def unspecified : Ipv4 := ⟨0, 0, 0, 0⟩

/-- Does the address name no host? -/
def isUnspecified (ip : Ipv4) : Bool := ip == unspecified

/-- The four octets. -/
def toBytes (ip : Ipv4) : Bytes := [ip.a, ip.b, ip.c, ip.d]

/-- The octets in decimal with points between. -/
def toText (ip : Ipv4) : String :=
  ".".intercalate (ip.toBytes.map fun octet => toString octet.toNat)

/-- An octet: one to three digits, no leading zero, at most 255. -/
def octet? (text : List Char) : Option UInt8 :=
  match text with
  | '0' :: _ :: _ => none
  | _ =>
    if text.length ≤ 3 then
      (Decimal.nat? text).bind fun n => if n < 256 then some (UInt8.ofNat n) else none
    else none

/-- The address that a text writes: four octets with points between. -/
def ofText? (text : List Char) : Option Ipv4 :=
  match text.splitOn '.' with
  | [a, b, c, d] => do some ⟨← octet? a, ← octet? b, ← octet? c, ← octet? d⟩
  | _ => none

end Ipv4

namespace Endpoint

/-- The compact form: four octets, then the port. -/
def toBytes (endpoint : Endpoint) : Bytes :=
  endpoint.ip.toBytes ++ Bytes.ofNat 2 endpoint.port.toNat

/-- The endpoint of a compact form. -/
def ofBytes? : Bytes → Option Endpoint
  | [a, b, c, d, high, low] =>
    some ⟨⟨a, b, c, d⟩, UInt16.ofNat (Bytes.toNat [high, low])⟩
  | _ => none

@[simp] theorem length_toBytes (endpoint : Endpoint) : endpoint.toBytes.length = 6 := by
  simp [toBytes, Ipv4.toBytes]

/-- An endpoint is read back from its compact form. -/
@[simp] theorem ofBytes?_toBytes (endpoint : Endpoint) :
    ofBytes? endpoint.toBytes = some endpoint := by
  obtain ⟨⟨a, b, c, d⟩, port⟩ := endpoint
  have hport := port.toNat_lt
  simp only [toBytes, Ipv4.toBytes, Bytes.ofNat, List.nil_append, List.cons_append, ofBytes?,
    Option.some.injEq, Endpoint.mk.injEq, true_and]
  refine UInt16.toNat_inj.mp ?_
  simp only [Bytes.toNat, List.foldl_cons, List.foldl_nil, UInt8.toNat_ofNat',
    UInt16.toNat_ofNat']
  omega

/-- The endpoints are read off the byte strings that write one, and off no others. -/
theorem ofBytes?_eq_some_iff {bytes : Bytes} {endpoint : Endpoint} :
    ofBytes? bytes = some endpoint ↔ endpoint.toBytes = bytes := by
  refine ⟨fun h => ?_, fun h => h ▸ ofBytes?_toBytes endpoint⟩
  unfold ofBytes? at h
  split at h
  · rename_i a b c d high low
    obtain rfl := Option.some.inj h
    have hlt : Bytes.toNat [high, low] < UInt16.size := by
      simpa [UInt16.size] using Bytes.toNat_lt [high, low]
    have hport : (UInt16.ofNat (Bytes.toNat [high, low])).toNat = Bytes.toNat [high, low] :=
      UInt16.toNat_ofNat_of_lt' hlt
    have hbytes : Bytes.ofNat 2 (Bytes.toNat [high, low]) = [high, low] :=
      Bytes.ofNat_toNat [high, low]
    rw [toBytes, hport, hbytes]
    rfl
  · cases h

theorem exists_toBytes_eq {bytes : Bytes} (h : bytes.length = 6) :
    ∃ endpoint, toBytes endpoint = bytes := by
  match bytes, h with
  | [_, _, _, _, _, _], _ => exact ⟨_, ofBytes?_eq_some_iff.mp rfl⟩

/-- The port that a text writes. -/
def port? (text : List Char) : Option UInt16 :=
  (Decimal.natUpTo? 65535 text).map UInt16.ofNat

/-- The text of an endpoint. -/
def toText (endpoint : Endpoint) : String :=
  endpoint.ip.toText ++ ":" ++ toString endpoint.port.toNat

/-- The endpoint that a text writes. -/
def ofText? (text : String) : Option Endpoint :=
  match text.toList.splitOn ':' with
  | [ip, port] => do some ⟨← Ipv4.ofText? ip, ← port? port⟩
  | _ => none

/-- May an answer from `source` belong to what was sent to `destination`? The ports have to agree,
and the addresses too unless the destination names no host. -/
def answers (destination source : Endpoint) : Bool :=
  destination.port == source.port &&
    (destination.ip.isUnspecified || destination.ip == source.ip)

end Endpoint

namespace SocketAddress

/-- The address as an IPv4 endpoint, which is all that compact forms hold. -/
def toV4? : SocketAddress → Option Endpoint
  | .v4 endpoint => some endpoint
  | .v6 => none

end SocketAddress

/-- What a host answers when it is asked for the socket addresses of a host name and a port; there
are none of a name that it does not know. -/
abbrev Resolver := String → List SocketAddress

/-- The resolver of a host that knows no names, and reads addresses only. -/
def Resolver.literal : Resolver := fun text => (Endpoint.ofText? text).toList.map .v4

end Kademlia
