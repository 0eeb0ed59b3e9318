import Nfrp.Lib.Bytes
import Nfrp.Lib.Ip

/-!
# IPv4 packets

The switch reads the header of a packet and passes it on unchanged; the only
packet it makes itself is the answer to an echo request.
-/

namespace Nfrp.Vnet

open Lib

abbrev Packet := List UInt8

structure IpHeader where
  src : Ipv4Addr
  dst : Ipv4Addr
  protocol : UInt8
  headerLen : Nat
  deriving DecidableEq, Repr

def addrAt (pkt : Packet) (start : Nat) : Ipv4Addr :=
  BitVec.ofNat 32 (ofBeBytes ((pkt.drop start).take 4))

def octets (addr : Ipv4Addr) : List UInt8 :=
  beBytes 4 addr.toNat

def parseIpv4 (pkt : Packet) : Option IpHeader :=
  if pkt.length < 20 then none
  else if pkt.getD 0 0 >>> 4 ≠ 4 then none
  else
    let headerLen := (pkt.getD 0 0 &&& 0x0f).toNat * 4
    if headerLen < 20 ∨ pkt.length < headerLen then none
    else some ⟨addrAt pkt 12, addrAt pkt 16, pkt.getD 9 0, headerLen⟩

/-- The big-endian words of a message, an odd byte at the end filled up with 0. -/
def words : List UInt8 → List Nat
  | [] => []
  | [last] => [ofBeBytes [last, 0]]
  | high :: low :: rest => ofBeBytes [high, low] :: words rest

def foldCarries (sum : Nat) : Nat :=
  if sum / 65536 = 0 then sum else foldCarries (sum % 65536 + sum / 65536)
termination_by sum

def checksum (data : List UInt8) : Nat :=
  65535 - foldCarries ((words data).sum % 2 ^ 32)

def writeAt (bytes : List UInt8) (start : Nat) (piece : List UInt8) : List UInt8 :=
  bytes.take start ++ piece ++ bytes.drop (start + piece.length)

def icmpEchoReply (pkt : Packet) : Option Packet := do
  let h ← parseIpv4 pkt
  -- requests with options in the header are not answered
  if h.protocol ≠ 1 ∨ h.headerLen ≠ 20 then none
  else if pkt.length < h.headerLen + 8 ∨ pkt.getD h.headerLen 0 ≠ 8 then none
  else
    let out := writeAt (writeAt pkt 12 (octets h.dst)) 16 (octets h.src)
    let out := writeAt out 10 [0, 0]
    let out := writeAt out 10 (beBytes 2 (checksum (out.take h.headerLen)))
    let out := writeAt out h.headerLen [0]
    let out := writeAt out (h.headerLen + 2) [0, 0]
    some (writeAt out (h.headerLen + 2) (beBytes 2 (checksum (out.drop h.headerLen))))

section WriteAt

variable {bytes piece : List UInt8} {start : Nat}

theorem length_writeAt (inside : start + piece.length ≤ bytes.length) :
    (writeAt bytes start piece).length = bytes.length := by
  simp only [writeAt, List.length_append, List.length_take, List.length_drop]
  omega

theorem getElem?_writeAt (inside : start + piece.length ≤ bytes.length) (i : Nat) :
    (writeAt bytes start piece)[i]? =
      if start ≤ i ∧ i < start + piece.length then piece[i - start]? else bytes[i]? := by
  have front : (bytes.take start).length = start := List.length_take_of_le (by omega)
  rw [writeAt, List.append_assoc]
  by_cases before : i < start
  · rw [List.getElem?_append_left (by omega), List.getElem?_take_of_lt before, if_neg (by omega)]
  · rw [List.getElem?_append_right (by omega), front]
    by_cases within : i < start + piece.length
    · rw [List.getElem?_append_left (by omega), if_pos (by omega)]
    · rw [List.getElem?_append_right (by omega), List.getElem?_drop, if_neg (by omega)]
      congr 1
      omega

theorem getD_writeAt (inside : start + piece.length ≤ bytes.length) {i : Nat}
    (outside : i < start ∨ start + piece.length ≤ i) :
    (writeAt bytes start piece).getD i 0 = bytes.getD i 0 := by
  rw [List.getD_eq_getElem?_getD, List.getD_eq_getElem?_getD, getElem?_writeAt inside, if_neg (by omega)]

theorem addrAt_writeAt (inside : start + piece.length ≤ bytes.length) {i : Nat}
    (outside : i + 4 ≤ start ∨ start + piece.length ≤ i) :
    addrAt (writeAt bytes start piece) i = addrAt bytes i := by
  have sameBytes : ((writeAt bytes start piece).drop i).take 4 = (bytes.drop i).take 4 := by
    apply List.ext_getElem?
    intro k
    rw [List.getElem?_take, List.getElem?_take]
    split
    · rw [List.getElem?_drop, List.getElem?_drop, getElem?_writeAt inside, if_neg (by omega)]
    · rfl
  rw [addrAt, addrAt, sameBytes]

theorem addrAt_writeAt_octets {addr : Ipv4Addr} (inside : start + 4 ≤ bytes.length) :
    addrAt (writeAt bytes start (octets addr)) start = addr := by
  have front : (bytes.take start).length = start := List.length_take_of_le (by omega)
  have four : (octets addr).length = 4 := length_beBytes 4 _
  have written : ((writeAt bytes start (octets addr)).drop start).take 4 = octets addr := by
    rw [writeAt, List.append_assoc, List.drop_left' front, List.take_left' four]
  have fits : addr.toNat < 256 ^ 4 := addr.isLt
  rw [addrAt, written, octets, ofBeBytes_beBytes, Nat.mod_eq_of_lt fits, BitVec.ofNat_toNat,
    BitVec.setWidth_eq]

end WriteAt

def headerFields (pkt : Packet) : Nat × UInt8 × UInt8 × Ipv4Addr × Ipv4Addr :=
  (pkt.length, pkt.getD 0 0, pkt.getD 9 0, addrAt pkt 12, addrAt pkt 16)

theorem headerFields_writeAt {pkt piece : List UInt8} {fields : Nat × UInt8 × UInt8 × Ipv4Addr × Ipv4Addr}
    {start : Nat} (before : headerFields pkt = fields) (inside : start + piece.length ≤ fields.1)
    (elsewhere : 10 ≤ start ∧ start + piece.length ≤ 12 ∨ 20 ≤ start) :
    headerFields (writeAt pkt start piece) = fields := by
  subst before
  have fits : start + piece.length ≤ pkt.length := inside
  rw [headerFields, length_writeAt fits, getD_writeAt fits (by omega), getD_writeAt fits (by omega),
    addrAt_writeAt fits (by omega), addrAt_writeAt fits (by omega)]
  rfl

theorem headerFields_endpoints {pkt : Packet} (src dst : Ipv4Addr) (long : 20 ≤ pkt.length) :
    headerFields (writeAt (writeAt pkt 12 (octets src)) 16 (octets dst)) =
      (pkt.length, pkt.getD 0 0, pkt.getD 9 0, src, dst) := by
  have four (addr : Ipv4Addr) : (octets addr).length = 4 := length_beBytes 4 _
  have fits : 12 + (octets src).length ≤ pkt.length := by rw [four]; omega
  have sameLength := length_writeAt fits
  have fitsToo : 16 + (octets dst).length ≤ (writeAt pkt 12 (octets src)).length := by
    rw [sameLength, four]
    omega
  rw [headerFields, length_writeAt fitsToo, getD_writeAt fitsToo (by omega), getD_writeAt fitsToo (by omega),
    addrAt_writeAt fitsToo (by omega), addrAt_writeAt_octets (by omega), addrAt_writeAt_octets (by omega),
    getD_writeAt fits (by omega), getD_writeAt fits (by omega), sameLength]

theorem parseIpv4_of_headerFields {pkt : Packet} {src dst : Ipv4Addr} {length : Nat} {first protocol : UInt8}
    (fields : headerFields pkt = (length, first, protocol, src, dst)) (long : 20 ≤ length)
    (version : first >>> 4 = 4) (plain : (first &&& 0x0f).toNat * 4 = 20) :
    parseIpv4 pkt = some ⟨src, dst, protocol, 20⟩ := by
  simp only [headerFields, Prod.mk.injEq] at fields
  obtain ⟨isLength, isFirst, isProtocol, isSrc, isDst⟩ := fields
  simp only [parseIpv4, isLength, isFirst, isProtocol, isSrc, isDst, version, plain]
  rw [if_neg (by omega), if_neg (by simp), if_neg (by omega)]

theorem parseIpv4_eq_some {pkt : Packet} {h : IpHeader} (isHeader : parseIpv4 pkt = some h) :
    20 ≤ pkt.length ∧ pkt.getD 0 0 >>> 4 = 4 ∧ h.headerLen = (pkt.getD 0 0 &&& 0x0f).toNat * 4 ∧
      h.headerLen ≤ pkt.length ∧ h.src = addrAt pkt 12 ∧ h.dst = addrAt pkt 16 ∧
      h.protocol = pkt.getD 9 0 := by
  unfold parseIpv4 at isHeader
  split at isHeader
  · cases isHeader
  next long =>
    split at isHeader
    · cases isHeader
    next version =>
      simp only at isHeader
      split at isHeader
      · cases isHeader
      next whole =>
        obtain rfl := Option.some.inj isHeader
        rw [not_or, Nat.not_lt, Nat.not_lt] at whole
        exact ⟨Nat.not_lt.mp long, not_not.mp version, rfl, whole.2, rfl, rfl, rfl⟩

/-- An answer comes from the address that was asked and goes to the one that asked. -/
theorem icmpEchoReply_header {pkt reply : Packet} {h : IpHeader} (isHeader : parseIpv4 pkt = some h)
    (answered : icmpEchoReply pkt = some reply) : parseIpv4 reply = some ⟨h.dst, h.src, 1, 20⟩ := by
  obtain ⟨_, version, isLen, _, _, _, isProtocol⟩ := parseIpv4_eq_some isHeader
  simp only [icmpEchoReply, isHeader, Option.bind_eq_bind, Option.bind_some] at answered
  split at answered
  · cases answered
  next plain =>
    rw [not_or, not_not, not_not] at plain
    obtain ⟨icmp, twenty⟩ := plain
    rw [twenty] at answered isLen
    split at answered
    · cases answered
    next request =>
      rw [not_or, Nat.not_lt] at request
      obtain rfl := Option.some.inj answered
      have long : 28 ≤ pkt.length := request.1
      have two (value : Nat) : (beBytes 2 value).length = 2 := length_beBytes 2 _
      refine @parseIpv4_of_headerFields _ _ _ pkt.length (pkt.getD 0 0) _ ?_ (by omega) version isLen.symm
      have swapped := headerFields_endpoints h.dst h.src (by omega : 20 ≤ pkt.length)
      rw [← isProtocol, icmp] at swapped
      -- what is written after the swap is checksums and the message itself
      refine headerFields_writeAt (headerFields_writeAt (headerFields_writeAt (headerFields_writeAt
        (headerFields_writeAt swapped ?_ ?_) ?_ ?_) ?_ ?_) ?_ ?_) ?_ ?_
      all_goals simp only [two, List.length_cons, List.length_nil]; omega

end Nfrp.Vnet
