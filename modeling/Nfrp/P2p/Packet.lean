import Mathlib.Algebra.Group.Action.Defs
import Nfrp.Lib.Checked
import Nfrp.P2p.Address

/-!
# The packets of a rendezvous

A peer says HELLO with the name of its session, the server answers with the addresses
that the other peer was seen under.  Packets of the first version are still read.
-/

namespace Nfrp.P2p

open Lib

def magic : List UInt8 := bytesOf "RTNL"

def versionV1 : UInt8 := 1
def versionV2 : UInt8 := 2

def sidLen : Nat := 32
def headerLenV1 : Nat := 7
def headerLen : Nat := 8
def helloLenV1 : Nat := headerLenV1 + sidLen
def helloLen : Nat := headerLen + sidLen

def kindHello : UInt8 := 1
def kindPeer : UInt8 := 2
def kindPeers : UInt8 := 3

inductive Transport where
  | quic
  | kcp
  deriving DecidableEq, Repr

namespace Transport

def toU8 : Transport → UInt8
  | quic => 1
  | kcp => 2

def fromU8 (v : UInt8) : Option Transport :=
  if v = 1 then some quic else if v = 2 then some kcp else none

theorem fromU8_toU8 (t : Transport) : fromU8 t.toU8 = some t := by
  cases t <;> rfl

end Transport

def defaultTransport : Transport := .quic

inductive Role where
  | visitor
  | provider
  deriving DecidableEq, Repr

namespace Role

def toU8 : Role → UInt8
  | visitor => 1
  | provider => 2

def fromU8 (v : UInt8) : Option Role :=
  if v = 1 then some visitor else if v = 2 then some provider else none

theorem fromU8_toU8 (role : Role) : fromU8 role.toU8 = some role := by
  cases role <;> rfl

def peer : Role → Role
  | visitor => provider
  | provider => visitor

@[simp]
theorem peer_peer (role : Role) : role.peer.peer = role := by
  cases role <;> rfl

theorem eq_or_eq_peer (role other : Role) : role = other ∨ role = other.peer := by
  cases role <;> cases other <;> simp [peer]

end Role

inductive Packet where
  | hello (role : Role) (sid : String) (transport : Transport)
  | peer (role : Role) (sid : String) (transport : Transport) (addr : SocketAddr)
  | peers (role : Role) (sid : String) (transport : Transport) (addrs : List SocketAddr)
  deriving DecidableEq, Repr

def pushHeader (kind : UInt8) (role : Role) (sid : String) (transport : Transport) : Option (List UInt8) :=
  if (bytesOf sid).length ≠ sidLen then none
  else some (magic ++ [versionV2, kind, role.toU8, transport.toU8] ++ bytesOf sid)

def putStr (s : String) : List UInt8 :=
  UInt8.ofNat (min (bytesOf s).length 255) :: (bytesOf s).take 255

def encodeHello (role : Role) (sid : String) (transport : Transport) : Option (List UInt8) :=
  pushHeader kindHello role sid transport

def encodePeer (role : Role) (sid : String) (transport : Transport) (addr : SocketAddr) : Option (List UInt8) :=
  (pushHeader kindPeer role sid transport).map (· ++ putStr addr.text)

def encodePeers (role : Role) (sid : String) (transport : Transport) (addrs : List SocketAddr) : Option (List UInt8) :=
  if addrs = [] ∨ 255 < addrs.length then none
  else
    (pushHeader kindPeers role sid transport).map
      (· ++ UInt8.ofNat addrs.length :: addrs.flatMap fun a => putStr a.text)

def takeStr : List UInt8 → Option (String × List UInt8)
  | [] => none
  | len :: body =>
    if body.length < len.toNat then none
    else (textOf (body.take len.toNat)).map fun s => (s, body.drop len.toNat)

def takeAddrs : Nat → List UInt8 → Option (List SocketAddr)
  | 0, _ => some []
  | count + 1, body => do
      let (s, rest) ← takeStr body
      let addr ← SocketAddr.parse s.toList
      let addrs ← takeAddrs count rest
      return addr :: addrs

def sidAt (pkt : List UInt8) (off : Nat) : Option String :=
  (textOf ((pkt.drop off).take sidLen)).filter fun sid => sid.toList.all (isDigit 16)

def decodeV1 (pkt : List UInt8) : Option Packet := do
  let role ← Role.fromU8 (pkt.getD 6 0)
  let sid ← sidAt pkt headerLenV1
  let kind := pkt.getD 5 0
  if kind = kindHello then return .hello role sid defaultTransport
  else if kind = kindPeer then
    let s ← textOf (pkt.drop helloLenV1)
    let addr ← SocketAddr.parse s.toList
    return .peer role sid defaultTransport addr
  else none

def decodeV2 (pkt : List UInt8) : Option Packet := do
  if pkt.length < helloLen then none
  else
    let role ← Role.fromU8 (pkt.getD 6 0)
    let transport ← Transport.fromU8 (pkt.getD 7 0)
    let sid ← sidAt pkt headerLen
    let kind := pkt.getD 5 0
    if kind = kindHello then return .hello role sid transport
    else if kind = kindPeer then
      let (s, _) ← takeStr (pkt.drop helloLen)
      let addr ← SocketAddr.parse s.toList
      return .peer role sid transport addr
    else if kind = kindPeers then
      match pkt.drop helloLen with
      | [] => none
      | count :: body =>
        let addrs ← takeAddrs count.toNat body
        if addrs = [] then none else return .peers role sid transport addrs
    else none

/-- What cannot be read is dropped by whoever gets it. -/
def decode (pkt : List UInt8) : Option Packet :=
  if pkt.length < helloLenV1 then none
  else if pkt.take 4 ≠ magic then none
  else if pkt.getD 4 0 = versionV1 then decodeV1 pkt
  else if pkt.getD 4 0 = versionV2 then decodeV2 pkt
  else none

/-- The name of a session: sixteen bytes in hexadecimal. -/
structure IsSid (sid : String) : Prop where
  length : (bytesOf sid).length = sidLen
  hex : sid.toList.all (isDigit 16)

def someSid : String := "0123456789abcdef0123456789abcdef"

theorem isSid_someSid : IsSid someSid := ⟨rfl, rfl⟩

section RoundTrip

variable {sid : String} (isSid : IsSid sid) (role : Role) (transport : Transport)

include isSid

theorem pushHeader_eq (kind : UInt8) :
    pushHeader kind role sid transport =
      some (0x52 :: 0x54 :: 0x4E :: 0x4C :: versionV2 :: kind :: role.toU8 :: transport.toU8 :: bytesOf sid) := by
  rw [pushHeader, if_neg (not_not.mpr isSid.length)]
  rfl

theorem decode_header (kind : UInt8) (body : List UInt8) :
    decode (0x52 :: 0x54 :: 0x4E :: 0x4C :: versionV2 :: kind :: role.toU8 :: transport.toU8 :: bytesOf sid ++ body) =
      if kind = kindHello then some (.hello role sid transport)
      else if kind = kindPeer then do
        let (s, _) ← takeStr body
        let addr ← SocketAddr.parse s.toList
        return .peer role sid transport addr
      else if kind = kindPeers then
        match body with
        | [] => none
        | count :: body => do
            let addrs ← takeAddrs count.toNat body
            if addrs = [] then none else return .peers role sid transport addrs
      else none := by
  have long : (bytesOf sid ++ body).length = sidLen + body.length := by rw [List.length_append, isSid.length]
  have isText : sidAt (0x52 :: 0x54 :: 0x4E :: 0x4C :: versionV2 :: kind :: role.toU8 :: transport.toU8 ::
      (bytesOf sid ++ body)) headerLen = some sid := by
    have front : (bytesOf sid ++ body).take sidLen = bytesOf sid := by
      rw [← isSid.length]
      exact List.take_left
    rw [sidAt, show List.drop headerLen _ = bytesOf sid ++ body from rfl, front, textOf_bytesOf, Option.filter,
      isSid.hex]
    rfl
  have isBody : (0x52 :: 0x54 :: 0x4E :: 0x4C :: versionV2 :: kind :: role.toU8 :: transport.toU8 ::
      (bytesOf sid ++ body)).drop helloLen = body := by
    have front : (bytesOf sid ++ body).drop sidLen = body := by
      rw [← isSid.length]
      exact List.drop_left
    exact front
  rw [List.cons_append, List.cons_append, List.cons_append, List.cons_append, List.cons_append, List.cons_append,
    List.cons_append, List.cons_append, decode, if_neg, if_neg, if_neg, if_pos, decodeV2, if_neg, isText, isBody]
  · simp only [List.getD_cons_succ, List.getD_cons_zero, Role.fromU8_toU8, Transport.fromU8_toU8]
    rfl
  · simp only [List.length_cons, long]
    exact Nat.not_lt.mpr (by rw [helloLen, headerLen]; omega)
  · rfl
  · exact nofun
  · exact not_not.mpr rfl
  · simp only [List.length_cons, long]
    exact Nat.not_lt.mpr (by rw [helloLenV1, headerLenV1]; omega)

theorem decode_encodeHello {pkt : List UInt8} (encoded : encodeHello role sid transport = some pkt) :
    decode pkt = some (.hello role sid transport) := by
  rw [encodeHello, pushHeader_eq isSid] at encoded
  obtain rfl := Option.some.inj encoded
  rw [← List.append_nil (_ :: _), decode_header isSid, if_pos rfl]

end RoundTrip

theorem takeStr_putStr {s : String} (short : (bytesOf s).length ≤ 255) (rest : List UInt8) :
    takeStr (putStr s ++ rest) = some (s, rest) := by
  have len : (UInt8.ofNat (min (bytesOf s).length 255)).toNat = (bytesOf s).length := by
    rw [Nat.min_eq_left short, UInt8.toNat_ofNat']
    exact Nat.mod_eq_of_lt (by omega)
  rw [putStr, List.cons_append, takeStr, len, List.take_of_length_le short, if_neg, List.take_left, List.drop_left,
    textOf_bytesOf]
  · rfl
  · rw [List.length_append]
    omega

theorem takeAddrs_flatMap (addrs : List SocketAddr) (rest : List UInt8) :
    takeAddrs addrs.length ((addrs.flatMap fun a => putStr a.text) ++ rest) =
      some (addrs.map SocketAddr.withoutFlow) := by
  induction addrs with
  | nil => rfl
  | cons a addrs ih =>
    have short : (bytesOf a.text).length ≤ 255 := a.length_bytesOf_text_le.trans (by decide)
    rw [List.length_cons, List.flatMap_cons, List.append_assoc, takeAddrs, takeStr_putStr short]
    change (SocketAddr.parse a.text.toList).bind _ = _
    rw [SocketAddr.parse_text, Option.bind_some, ih]
    rfl

theorem decode_encodePeer {sid : String} (isSid : IsSid sid) {role : Role} {transport : Transport} {addr : SocketAddr}
    {pkt : List UInt8} (encoded : encodePeer role sid transport addr = some pkt) :
    decode pkt = some (.peer role sid transport addr.withoutFlow) := by
  have short : (bytesOf addr.text).length ≤ 255 := addr.length_bytesOf_text_le.trans (by decide)
  have read := takeStr_putStr short []
  rw [List.append_nil] at read
  rw [encodePeer, pushHeader_eq isSid, Option.map_some] at encoded
  obtain rfl := Option.some.inj encoded
  rw [decode_header isSid, if_neg (by decide), if_pos rfl, read]
  change (SocketAddr.parse addr.text.toList).bind _ = _
  rw [SocketAddr.parse_text]
  rfl

theorem decode_encodePeers {sid : String} (isSid : IsSid sid) {role : Role} {transport : Transport}
    {addrs : List SocketAddr} {pkt : List UInt8} (encoded : encodePeers role sid transport addrs = some pkt) :
    decode pkt = some (.peers role sid transport (addrs.map SocketAddr.withoutFlow)) := by
  rw [encodePeers] at encoded
  split at encoded
  next => cases encoded
  next fits =>
    rw [not_or, not_lt] at fits
    rw [pushHeader_eq isSid, Option.map_some] at encoded
    obtain rfl := Option.some.inj encoded
    have count : (UInt8.ofNat addrs.length).toNat = addrs.length := by
      rw [UInt8.toNat_ofNat']
      exact Nat.mod_eq_of_lt (by omega)
    have read := takeAddrs_flatMap addrs []
    rw [List.append_nil] at read
    rw [decode_header isSid, if_neg (by decide), if_neg (by decide), if_pos rfl]
    dsimp only
    rw [count, read]
    change (if addrs.map SocketAddr.withoutFlow = [] then none else _) = _
    rw [if_neg (by rw [List.map_eq_nil_iff]; exact fits.1)]
    rfl

theorem exists_encodePeers {sid : String} (isSid : IsSid sid) (role : Role) (transport : Transport)
    {addrs : List SocketAddr} (some : addrs ≠ []) (few : addrs.length ≤ 255) :
    ∃ pkt, encodePeers role sid transport addrs = Option.some pkt := by
  rw [encodePeers, if_neg (by simp [some, few]), pushHeader_eq isSid]
  exact ⟨_, rfl⟩

theorem length_encodePeers {sid : String} {role : Role} {transport : Transport} {addrs : List SocketAddr}
    {pkt : List UInt8} (encoded : encodePeers role sid transport addrs = some pkt) :
    pkt.length = helloLen + 1 + (addrs.map fun a => (bytesOf a.text).length + 1).sum := by
  have lengths : ∀ a ∈ addrs, (putStr a.text).length = (bytesOf a.text).length + 1 := by
    intro a _
    have short : (bytesOf a.text).length ≤ 255 := a.length_bytesOf_text_le.trans (by decide)
    rw [putStr, List.length_cons, List.take_of_length_le short]
  rw [encodePeers] at encoded
  split at encoded
  next => cases encoded
  next =>
    rw [pushHeader] at encoded
    split at encoded
    next => cases encoded
    next isSid =>
      obtain rfl := Option.some.inj encoded
      have header : (magic ++ [versionV2, kindPeers, role.toU8, transport.toU8]).length = headerLen := rfl
      rw [List.length_append, List.length_append, header, not_not.mp isSid, List.length_cons, List.length_flatMap,
        List.map_congr_left lengths, helloLen]
      omega

theorem length_encodePeers_le {sid : String} {role : Role} {transport : Transport} {addrs : List SocketAddr}
    {pkt : List UInt8} (encoded : encodePeers role sid transport addrs = some pkt) :
    pkt.length ≤ 41 + 59 * addrs.length := by
  have each : ∀ n ∈ addrs.map fun a => (bytesOf a.text).length + 1, n ≤ 59 := by
    intro n member
    obtain ⟨a, -, rfl⟩ := List.mem_map.mp member
    exact Nat.succ_le_succ a.length_bytesOf_text_le
  have sum := List.sum_le_card_nsmul _ 59 each
  rw [List.length_map, smul_eq_mul, Nat.mul_comm] at sum
  rw [length_encodePeers encoded]
  exact Nat.add_le_add_left sum 41

theorem length_encodeHello {sid : String} (isSid : IsSid sid) {role : Role} {transport : Transport} {pkt : List UInt8}
    (encoded : encodeHello role sid transport = some pkt) : pkt.length = helloLen := by
  rw [encodeHello, pushHeader_eq isSid] at encoded
  obtain rfl := Option.some.inj encoded
  simp only [List.length_cons, isSid.length]
  rfl

end Nfrp.P2p
