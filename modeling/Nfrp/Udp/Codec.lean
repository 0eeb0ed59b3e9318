import Nfrp.Lib.Checked
import Nfrp.Lib.Octets
import Nfrp.Udp.Packet

/-!
# Datagrams in bytes

Where both ends can, a datagram is written without a text around it: a byte of flags, the
addresses, and the payload behind its length.  A zone is a text, read from whatever bytes
are there.
-/

namespace Nfrp.Udp

open Lib hiding SocketAddr
open Nfrp.NatHole

def flagLocal : UInt8 := (1 : UInt8) <<< 0

def flagRemote : UInt8 := (1 : UInt8) <<< 1

def maxUdpPayloadSize : Nat := 65507

def flagsFor (hasLocal : Bool) : UInt8 := if hasLocal then flagRemote ||| flagLocal else flagRemote

/-- The port and the zone, whose length is cut to a byte. -/
def portAndZone (port : UInt16) (zone : List UInt8) : List UInt8 :=
  beBytes 2 port.toNat ++ UInt8.ofNat zone.length :: zone

def putUdpAddr (out : List UInt8) (addr : UdpAddr) : Except String (List UInt8) :=
  match IpAddr.parse addr.ip.toList with
  | none => .error ("非法 IP：" ++ addr.ip)
  | some (.v4 v4) =>
    if addr.zone ≠ "" then .error "IPv4 不允许带 zone"
    else .ok (out ++ 4 :: (beBytes 4 v4.toNat ++ portAndZone addr.port (bytesOf addr.zone)))
  | some (.v6 v6) =>
    if 255 < (bytesOf addr.zone).length then .error "IPv6 zone 过长"
    else .ok (out ++ 6 :: (beBytes 16 v6.toNat ++ portAndZone addr.port (bytesOf addr.zone)))

def encodeUdpBinary (pkt : UdpPacket) : Except String (List UInt8) :=
  match pkt.remoteAddr with
  | none => .error "UDP 报文缺少远端地址"
  | some remote =>
    if maxUdpPayloadSize < pkt.payload.length then
      .error s!"UDP 载荷 {pkt.payload.length} 字节超过上限 {maxUdpPayloadSize}"
    else
      (match pkt.localAddr with
        | some address => putUdpAddr [flagsFor pkt.localAddr.isSome] address
        | none => .ok [flagsFor pkt.localAddr.isSome]) >>= fun body =>
        (putUdpAddr body remote).map fun body => body ++ (beBytes 2 pkt.payload.length ++ pkt.payload)

def ipLength (family : UInt8) : Option Nat :=
  if family = 4 then some 4 else if family = 6 then some 16 else none

def ipOf (family : UInt8) (bytes : List UInt8) : Option IpAddr :=
  if family = 4 then (slice bytes 0 4).map fun octets => .v4 (BitVec.ofNat 32 (ofBeBytes octets))
  else if bytes.length = 16 then some (.v6 (BitVec.ofNat 128 (ofBeBytes bytes)))
  else none

def takeUdpAddr (body : List UInt8) (i : Nat) : Option (Except String (UdpAddr × Nat)) :=
  if body.length ≤ i then some (.error "地址族被截断")
  else
    body[i]?.bind fun family =>
      match ipLength family with
      | none => some (.error s!"未知地址族：{family}")
      | some ipLen =>
        (checkedSub body.length (i + 1)).bind fun left =>
          if left < ipLen + 3 then some (.error "地址被截断")
          else
            (slice body (i + 1) (i + 1 + ipLen)).bind fun ipBytes =>
              (slice body (i + 1 + ipLen) (i + 1 + ipLen + 2)).bind fun port =>
                body[i + 1 + ipLen + 2]?.bind fun zoneLen =>
                  (checkedSub body.length (i + 1 + ipLen + 3)).bind fun left =>
                    if left < zoneLen.toNat then some (.error "zone 被截断")
                    else
                      (slice body (i + 1 + ipLen + 3) (i + 1 + ipLen + 3 + zoneLen.toNat)).bind fun zone =>
                        (ipOf family ipBytes).map fun ip =>
                          .ok (⟨ipText ip, UInt16.ofNat (ofBeBytes port), String.ofList (lossyTextOf zone)⟩,
                            i + 1 + ipLen + 3 + zoneLen.toNat)

def takeLocal (flags : UInt8) (body : List UInt8) : Option (Except String (Option UdpAddr × Nat)) :=
  if flags &&& flagLocal ≠ 0 then
    (takeUdpAddr body 1).map fun taken => taken.map fun found => (some found.1, found.2)
  else some (.ok (none, 1))

def takePayload (body : List UInt8) (i : Nat) : Option (Except String (List UInt8)) :=
  (checkedSub body.length i).bind fun left =>
    if left < 2 then some (.error "UDP 载荷长度被截断")
    else
      (slice body i (i + 2)).bind fun lenBytes =>
        let len := ofBeBytes lenBytes
        if maxUdpPayloadSize < len then some (.error s!"UDP 载荷长度非法：{len}")
        else
          (checkedSub body.length (i + 2)).bind fun left =>
            if left ≠ len then some (.error s!"UDP 载荷长度不符：声明 {len}，实际 {left}")
            else (slice body (i + 2) body.length).map .ok

/-- No result is an access that aborts. -/
def decodeUdpBinary (body : List UInt8) : Option (Except String UdpPacket) :=
  if body.length < 3 then some (.error s!"UDP 报文体过短：{body.length}")
  else
    body[0]?.bind fun flags =>
      if flags &&& ~~~(flagLocal ||| flagRemote) ≠ 0 then
        some (.error ("UDP 保留标志位被置位：0x" ++ String.ofList (hex [flags])))
      else if flags &&& flagRemote = 0 then some (.error "UDP 报文缺少远端地址")
      else
        (takeLocal flags body).bind fun
          | .error e => some (.error e)
          | .ok (localAddr, i) =>
            (takeUdpAddr body i).bind fun
              | .error e => some (.error e)
              | .ok (remote, i) =>
                (takePayload body i).map fun taken =>
                  taken.map fun content => { content := some content, localAddr, remoteAddr := some remote }

def ipBytes : IpAddr → List UInt8
  | .v4 addr => 4 :: beBytes 4 addr.toNat
  | .v6 addr => 6 :: beBytes 16 addr.toNat

structure RawAddr where
  ip : IpAddr
  port : UInt16
  zone : List UInt8
  short : zone.length < 256

namespace RawAddr

def bytes (raw : RawAddr) : List UInt8 := ipBytes raw.ip ++ portAndZone raw.port raw.zone

def addr (raw : RawAddr) : UdpAddr := ⟨ipText raw.ip, raw.port, String.ofList (lossyTextOf raw.zone)⟩

def Zoned (raw : RawAddr) : Prop := ∀ addr, raw.ip = .v4 addr → raw.zone = []

/-- The zone is the UTF-8 of a text. -/
def Textual (raw : RawAddr) : Prop := ∃ zone, raw.zone = bytesOf zone

theorem bytesOf_zone_iff {raw : RawAddr} : bytesOf raw.addr.zone = raw.zone ↔ raw.Textual := by
  constructor
  · exact fun same => ⟨raw.addr.zone, same.symm⟩
  · rintro ⟨zone, isZone⟩
    have same : raw.addr.zone = zone := by
      rw [addr, isZone, ← String.ofList_toList (s := zone), lossyTextOf_bytesOf]
    rw [same, isZone]

end RawAddr

/-- The bytes of the family are an address, which is written as them. -/
theorem ipOf_of_length {family : UInt8} {bytes : List UInt8} (isLong : ipLength family = some bytes.length) :
    ∃ ip, ipOf family bytes = some ip ∧ ipBytes ip = family :: bytes := by
  rw [ipLength] at isLong
  split at isLong
  next isFour =>
    have four : bytes.length = 4 := (Option.some.inj isLong).symm
    have fits : ofBeBytes bytes < 2 ^ 32 := ofBeBytes_lt four
    have whole : slice bytes 0 4 = some bytes := by
      rw [slice_of_le (Nat.zero_le 4) four.ge, List.drop_zero, List.take_of_length_le four.le]
    refine ⟨.v4 (BitVec.ofNat 32 (ofBeBytes bytes)), by rw [ipOf, if_pos isFour, whole]; rfl, ?_⟩
    rw [ipBytes, BitVec.toNat_ofNat, Nat.mod_eq_of_lt fits, beBytes_ofBeBytes four, isFour]
  next notFour =>
    split at isLong
    next isSix =>
      have sixteen : bytes.length = 16 := (Option.some.inj isLong).symm
      have fits : ofBeBytes bytes < 2 ^ 128 := ofBeBytes_lt sixteen
      refine ⟨.v6 (BitVec.ofNat 128 (ofBeBytes bytes)), by rw [ipOf, if_neg notFour, if_pos sixteen], ?_⟩
      rw [ipBytes, BitVec.toNat_ofNat, Nat.mod_eq_of_lt fits, beBytes_ofBeBytes sixteen, isSix]
    next => cases isLong

theorem ipOf_ipBytes (ip : IpAddr) :
    ∃ family bytes, ipBytes ip = family :: bytes ∧ ipLength family = some bytes.length ∧ ipOf family bytes = some ip := by
  cases ip with
  | v4 addr =>
    refine ⟨4, beBytes 4 addr.toNat, rfl, congrArg some (length_beBytes 4 addr.toNat).symm, ?_⟩
    have whole : slice (beBytes 4 addr.toNat) 0 4 = some (beBytes 4 addr.toNat) := by
      rw [slice_of_le (Nat.zero_le 4) (length_beBytes 4 _).ge, List.drop_zero,
        List.take_of_length_le (length_beBytes 4 _).le]
    rw [ipOf, if_pos rfl, whole, Option.map_some, ofBeBytes_beBytes_of_lt addr.isLt, BitVec.ofNat_toNat, BitVec.setWidth_eq]
  | v6 addr =>
    refine ⟨6, beBytes 16 addr.toNat, rfl, congrArg some (length_beBytes 16 addr.toNat).symm, ?_⟩
    rw [ipOf, if_neg (by decide), if_pos (length_beBytes 16 _), ofBeBytes_beBytes_of_lt addr.isLt, BitVec.ofNat_toNat,
      BitVec.setWidth_eq]

/-- What is read where an address and the length of a zone are there. -/
theorem takeUdpAddr_append (front : List UInt8) {family zoneLen : UInt8} {ip port tail : List UInt8}
    (isLong : ipLength family = some ip.length) (isPort : port.length = 2) :
    takeUdpAddr (front ++ family :: (ip ++ (port ++ zoneLen :: tail))) front.length =
      if tail.length < zoneLen.toNat then some (.error "zone 被截断")
      else (ipOf family ip).map fun found =>
        .ok (⟨ipText found, UInt16.ofNat (ofBeBytes port), String.ofList (lossyTextOf (tail.take zoneLen.toNat))⟩,
          front.length + 1 + ip.length + 3 + zoneLen.toNat) := by
  generalize isBody : front ++ family :: (ip ++ (port ++ zoneLen :: tail)) = body
  have isWhole : body.length = front.length + 1 + ip.length + 3 + tail.length := by
    simp only [← isBody, List.length_append, List.length_cons, isPort]
    omega
  have isFamily : body[front.length]? = some family := by simp [← isBody]
  have isIp : slice body (front.length + 1) (front.length + 1 + ip.length) = some ip := by
    have split : body = (front ++ [family]) ++ (ip ++ (port ++ zoneLen :: tail)) := by simp [← isBody]
    rw [split]
    exact slice_field (by simp) rfl
  have portThere : slice body (front.length + 1 + ip.length) (front.length + 1 + ip.length + 2) = some port := by
    have split : body = (front ++ family :: ip) ++ (port ++ zoneLen :: tail) := by simp [← isBody]
    rw [split]
    exact slice_field (by simp; omega) (by omega)
  have isZoneLen : body[front.length + 1 + ip.length + 2]? = some zoneLen := by
    have split : body = (front ++ family :: (ip ++ port)) ++ zoneLen :: tail := by simp [← isBody]
    have isFront : front.length + 1 + ip.length + 2 = (front ++ family :: (ip ++ port)).length := by
      simp only [List.length_append, List.length_cons, isPort]
      omega
    rw [split, isFront]
    simp
  have isTail : body.drop (front.length + 1 + ip.length + 3) = tail := by
    have split : body = (front ++ family :: (ip ++ (port ++ [zoneLen]))) ++ tail := by simp [← isBody]
    rw [split]
    refine List.drop_left' ?_
    simp only [List.length_append, List.length_cons, List.length_nil, isPort]
    omega
  rw [takeUdpAddr, if_neg (by omega), isFamily, Option.bind_some, isLong]
  simp only
  rw [checkedSub_of_le (by omega), Option.bind_some, if_neg (by omega), isIp, Option.bind_some, portThere, Option.bind_some,
    isZoneLen, Option.bind_some, checkedSub_of_le (by omega), Option.bind_some]
  have left : body.length - (front.length + 1 + ip.length + 3) = tail.length := by omega
  rw [left]
  split
  · rfl
  · rw [slice_of_le (by omega) (by omega), Nat.add_sub_cancel_left, isTail, Option.bind_some]

theorem takeUdpAddr_bytes (front : List UInt8) (raw : RawAddr) (rest : List UInt8) :
    takeUdpAddr (front ++ (raw.bytes ++ rest)) front.length =
      some (.ok (raw.addr, (front ++ raw.bytes).length)) := by
  obtain ⟨family, bytes, isBytes, isLong, isIp⟩ := ipOf_ipBytes raw.ip
  have isPort := length_beBytes 2 raw.port.toNat
  have zoneLen : (UInt8.ofNat raw.zone.length).toNat = raw.zone.length := by
    rw [UInt8.toNat_ofNat']
    exact Nat.mod_eq_of_lt raw.short
  have split : raw.bytes ++ rest = family :: (bytes ++ (beBytes 2 raw.port.toNat ++
      UInt8.ofNat raw.zone.length :: (raw.zone ++ rest))) := by
    simp [RawAddr.bytes, portAndZone, isBytes]
  have isNext : front.length + 1 + bytes.length + 3 + raw.zone.length = (front ++ raw.bytes).length := by
    simp only [RawAddr.bytes, portAndZone, isBytes, List.length_append, List.length_cons, isPort]
    omega
  rw [split, takeUdpAddr_append front isLong isPort, zoneLen, if_neg (by simp), isIp, List.take_left, Option.map_some,
    ofBeBytes_beBytes_of_lt raw.port.toNat_lt, UInt16.ofNat_toNat, isNext]
  rfl

/-- Either there is an address at the index, or it is said what is missing. -/
theorem takeUdpAddr_cases {body : List UInt8} {i : Nat} :
    (∃ reason, takeUdpAddr body i = some (.error reason)) ∨
      ∃ raw : RawAddr, ∃ rest, body = body.take i ++ (raw.bytes ++ rest) ∧ i = (body.take i).length := by
  by_cases out : body.length ≤ i
  · exact .inl ⟨_, by rw [takeUdpAddr, if_pos out]⟩
  have isIndex : (body.take i).length = i := by
    rw [List.length_take]
    omega
  obtain ⟨family, after, isAfter⟩ := List.exists_cons_of_length_pos (show 0 < (body.drop i).length by simp; omega)
  have isBody : body = body.take i ++ family :: after := by rw [← isAfter, List.take_append_drop]
  have isFamily : body[i]? = some family := by
    rw [← List.head?_drop, isAfter]
    rfl
  have isLength : body.length = i + 1 + after.length := by
    have whole := congrArg List.length isBody
    rw [List.length_append, isIndex, List.length_cons] at whole
    omega
  cases known : ipLength family with
  | none =>
    refine .inl ⟨s!"未知地址族：{family}", ?_⟩
    rw [takeUdpAddr, if_neg out, isFamily, Option.bind_some, known]
  | some ipLen =>
    by_cases short : after.length < ipLen + 3
    · refine .inl ⟨"地址被截断", ?_⟩
      have left : body.length - (i + 1) = after.length := by omega
      rw [takeUdpAddr, if_neg out, isFamily, Option.bind_some, known]
      simp only
      rw [checkedSub_of_le (by omega), Option.bind_some, left, if_pos short]
    · have isIp : (after.take ipLen).length = ipLen := by
        rw [List.length_take]
        omega
      have isPort : ((after.drop ipLen).take 2).length = 2 := by
        rw [List.length_take, List.length_drop]
        omega
      obtain ⟨zoneLen, tail, isTail⟩ := List.exists_cons_of_length_pos
        (show 0 < (after.drop (ipLen + 2)).length by rw [List.length_drop]; omega)
      have split : after = after.take ipLen ++ ((after.drop ipLen).take 2 ++ zoneLen :: tail) := by
        rw [← isTail, ← List.drop_drop, List.take_append_drop, List.take_append_drop]
      have isLong : ipLength family = some (after.take ipLen).length := by rw [isIp, known]
      have taken := @takeUdpAddr_append (body.take i) _ zoneLen _ _ tail isLong isPort
      rw [← split, ← isBody, isIndex] at taken
      by_cases cut : tail.length < zoneLen.toNat
      · exact .inl ⟨_, taken.trans (if_pos cut)⟩
      · obtain ⟨ip, -, isBytes⟩ := ipOf_of_length isLong
        have isZone : (tail.take zoneLen.toNat).length = zoneLen.toNat := by
          rw [List.length_take]
          omega
        have isPortNumber : (UInt16.ofNat (ofBeBytes ((after.drop ipLen).take 2))).toNat =
            ofBeBytes ((after.drop ipLen).take 2) := by
          rw [UInt16.toNat_ofNat']
          exact Nat.mod_eq_of_lt (ofBeBytes_lt isPort)
        have isRaw : ipBytes ip ++ portAndZone (UInt16.ofNat (ofBeBytes ((after.drop ipLen).take 2)))
            (tail.take zoneLen.toNat) ++ tail.drop zoneLen.toNat = family :: after := by
          rw [portAndZone, isBytes, isZone, isPortNumber, beBytes_ofBeBytes isPort, UInt8.ofNat_toNat]
          simp only [List.cons_append, List.append_assoc, List.take_append_drop]
          rw [← split]
        refine .inr ⟨⟨ip, UInt16.ofNat (ofBeBytes ((after.drop ipLen).take 2)), tail.take zoneLen.toNat,
          isZone.trans_lt zoneLen.toNat_lt⟩, tail.drop zoneLen.toNat, ?_, isIndex.symm⟩
        rw [RawAddr.bytes, isRaw, ← isBody]

theorem takePayload_append {front payload : List UInt8} (short : payload.length ≤ maxUdpPayloadSize) :
    takePayload (front ++ (beBytes 2 payload.length ++ payload)) front.length = some (.ok payload) := by
  generalize isBody : front ++ (beBytes 2 payload.length ++ payload) = body
  have isLen := length_beBytes 2 payload.length
  have isWhole : body.length = front.length + 2 + payload.length := by
    rw [← isBody, List.length_append, List.length_append, isLen]
    omega
  have fits : ofBeBytes (beBytes 2 payload.length) = payload.length :=
    ofBeBytes_beBytes_of_lt (short.trans_lt (by decide))
  have lenThere : slice body front.length (front.length + 2) = some (beBytes 2 payload.length) := by
    rw [← isBody]
    exact slice_field rfl (by rw [isLen])
  have isRest : body.drop (front.length + 2) = payload := by
    rw [← isBody, ← List.append_assoc]
    exact List.drop_left' (by rw [List.length_append, isLen])
  have left : body.length - (front.length + 2) = payload.length := by omega
  rw [takePayload, checkedSub_of_le (by omega), Option.bind_some, if_neg (by omega), lenThere, Option.bind_some]
  simp only [fits]
  rw [if_neg (Nat.not_lt_of_le short), checkedSub_of_le (by omega), Option.bind_some, left, if_neg (not_not.mpr rfl),
    slice_of_le (by omega) le_rfl, left, isRest, List.take_length]
  rfl

theorem takePayload_cases {body : List UInt8} {i : Nat} (inside : i ≤ body.length) :
    (∃ reason, takePayload body i = some (.error reason)) ∨
      ∃ payload, payload.length ≤ maxUdpPayloadSize ∧
        body = body.take i ++ (beBytes 2 payload.length ++ payload) := by
  by_cases short : body.length - i < 2
  · exact .inl ⟨_, by rw [takePayload, checkedSub_of_le inside, Option.bind_some, if_pos short]⟩
  have isLen : ((body.drop i).take 2).length = 2 := by
    rw [List.length_take, List.length_drop]
    omega
  have taken : takePayload body i =
      if maxUdpPayloadSize < ofBeBytes ((body.drop i).take 2) then
        some (.error s!"UDP 载荷长度非法：{ofBeBytes ((body.drop i).take 2)}")
      else if body.length - (i + 2) ≠ ofBeBytes ((body.drop i).take 2) then
        some (.error s!"UDP 载荷长度不符：声明 {ofBeBytes ((body.drop i).take 2)}，实际 {body.length - (i + 2)}")
      else (slice body (i + 2) body.length).map .ok := by
    rw [takePayload, checkedSub_of_le inside, Option.bind_some, if_neg short, slice_of_le (by omega) (by omega),
      Option.bind_some, Nat.add_sub_cancel_left, checkedSub_of_le (by omega)]
    rfl
  rw [taken]
  split
  · exact .inl ⟨_, rfl⟩
  next fits =>
    split
    · exact .inl ⟨_, rfl⟩
    next exact =>
      have isLength : (body.drop (i + 2)).length = ofBeBytes ((body.drop i).take 2) := by
        rw [List.length_drop]
        exact not_not.mp exact
      refine .inr ⟨body.drop (i + 2), ?_, ?_⟩
      · rw [isLength]
        exact Nat.le_of_not_lt fits
      · rw [isLength, beBytes_ofBeBytes isLen, ← List.drop_drop, List.take_append_drop, List.take_append_drop]

structure RawPacket where
  localAddr : Option RawAddr
  remoteAddr : RawAddr
  payload : List UInt8
  short : payload.length ≤ maxUdpPayloadSize

namespace RawPacket

def flags (raw : RawPacket) : UInt8 := flagsFor raw.localAddr.isSome

def localBytes (raw : RawPacket) : List UInt8 := (raw.localAddr.map RawAddr.bytes).getD []

def bytes (raw : RawPacket) : List UInt8 :=
  raw.flags :: (raw.localBytes ++ (raw.remoteAddr.bytes ++ (beBytes 2 raw.payload.length ++ raw.payload)))

def packet (raw : RawPacket) : UdpPacket where
  content := some raw.payload
  localAddr := raw.localAddr.map RawAddr.addr
  remoteAddr := some raw.remoteAddr.addr

def addrs (raw : RawPacket) : List RawAddr := raw.localAddr.toList ++ [raw.remoteAddr]

end RawPacket

theorem flags_cases {flags : UInt8} (known : ¬flags &&& ~~~(flagLocal ||| flagRemote) ≠ 0) (isRemote : ¬flags &&& flagRemote = 0) :
    flags = flagsFor false ∧ ¬flags &&& flagLocal ≠ 0 ∨ flags = flagsFor true ∧ flags &&& flagLocal ≠ 0 := by
  have all : ∀ n < 256, ¬UInt8.ofNat n &&& ~~~(flagLocal ||| flagRemote) ≠ 0 → ¬UInt8.ofNat n &&& flagRemote = 0 →
      UInt8.ofNat n = flagsFor false ∧ ¬UInt8.ofNat n &&& flagLocal ≠ 0 ∨
        UInt8.ofNat n = flagsFor true ∧ UInt8.ofNat n &&& flagLocal ≠ 0 := by
    decide +kernel
  have ofFlags := all flags.toNat flags.toNat_lt
  rw [UInt8.ofNat_toNat] at ofFlags
  exact ofFlags known isRemote

theorem takeLocal_bytes (raw : RawPacket) (rest : List UInt8) :
    takeLocal raw.flags (raw.flags :: (raw.localBytes ++ rest)) =
      some (.ok (raw.localAddr.map RawAddr.addr, (raw.flags :: raw.localBytes).length)) := by
  rw [takeLocal, RawPacket.localBytes, RawPacket.flags]
  cases raw.localAddr with
  | none => rfl
  | some address =>
    have isLocal : flagsFor (some address).isSome &&& flagLocal ≠ 0 := show flagsFor true &&& flagLocal ≠ 0 by decide
    rw [if_pos isLocal]
    exact congrArg (Option.map _) (takeUdpAddr_bytes [flagsFor true] address rest)

theorem decode_bytes (raw : RawPacket) : decodeUdpBinary raw.bytes = some (.ok raw.packet) := by
  have long : ¬raw.bytes.length < 3 := by
    have two := length_beBytes 2 raw.remoteAddr.port.toNat
    simp only [RawPacket.bytes, RawAddr.bytes, portAndZone, List.length_cons, List.length_append, two]
    omega
  have known : ¬raw.flags &&& ~~~(flagLocal ||| flagRemote) ≠ 0 ∧ ¬raw.flags &&& flagRemote = 0 := by
    rw [RawPacket.flags]
    cases raw.localAddr.isSome <;> decide
  have isFlags : raw.bytes[0]? = some raw.flags := rfl
  have isLocal := takeLocal_bytes raw (raw.remoteAddr.bytes ++ (beBytes 2 raw.payload.length ++ raw.payload))
  have isRemote := takeUdpAddr_bytes (raw.flags :: raw.localBytes) raw.remoteAddr
    (beBytes 2 raw.payload.length ++ raw.payload)
  have isPayload := @takePayload_append (raw.flags :: raw.localBytes ++ raw.remoteAddr.bytes) raw.payload raw.short
  rw [List.append_assoc] at isPayload
  rw [decodeUdpBinary, if_neg long, isFlags, Option.bind_some, if_neg known.1, if_neg known.2]
  have isBytes : raw.bytes = raw.flags :: (raw.localBytes ++
      (raw.remoteAddr.bytes ++ (beBytes 2 raw.payload.length ++ raw.payload))) := rfl
  rw [isBytes, isLocal, Option.bind_some]
  dsimp only
  rw [← List.cons_append, isRemote, Option.bind_some]
  dsimp only
  rw [isPayload]
  rfl

/-- Whatever the bytes are, they are a datagram or it is said why not. -/
theorem decode_cases (body : List UInt8) :
    (∃ reason, decodeUdpBinary body = some (.error reason)) ∨ ∃ raw : RawPacket, raw.bytes = body := by
  by_cases short : body.length < 3
  · exact .inl ⟨_, by rw [decodeUdpBinary, if_pos short]⟩
  obtain ⟨flags, rest, rfl⟩ := List.exists_cons_of_length_pos (show 0 < body.length by omega)
  have isFlags : (flags :: rest)[0]? = some flags := rfl
  rw [decodeUdpBinary, if_neg short, isFlags, Option.bind_some]
  by_cases reserved : flags &&& ~~~(flagLocal ||| flagRemote) ≠ 0
  · exact .inl ⟨_, if_pos reserved⟩
  by_cases noRemote : flags &&& flagRemote = 0
  · exact .inl ⟨_, by rw [if_neg reserved, if_pos noRemote]⟩
  rw [if_neg reserved, if_neg noRemote]
  -- the local address, which may not be there
  have hasLocal : (∃ reason, takeLocal flags (flags :: rest) = some (.error reason)) ∨
      ∃ (localAddr : Option RawAddr) (after : List UInt8), rest = (localAddr.map RawAddr.bytes).getD [] ++ after ∧
        flags = flagsFor localAddr.isSome ∧
        takeLocal flags (flags :: rest) =
          some (.ok (localAddr.map RawAddr.addr, (flags :: (localAddr.map RawAddr.bytes).getD []).length)) := by
    rcases flags_cases reserved noRemote with ⟨isRemote, notLocal⟩ | ⟨isBoth, isLocal⟩
    · exact .inr ⟨none, rest, rfl, isRemote, by rw [takeLocal, if_neg notLocal]; rfl⟩
    · rw [takeLocal, if_pos isLocal]
      rcases @takeUdpAddr_cases (flags :: rest) 1 with ⟨reason, isError⟩ | ⟨address, after, isBody, -⟩
      · exact .inl ⟨reason, by rw [isError]; rfl⟩
      · have isRest : rest = address.bytes ++ after := List.cons.inj isBody |>.2
        refine .inr ⟨some address, after, isRest, isBoth, ?_⟩
        have taken := takeUdpAddr_bytes [flags] address after
        rw [← isRest] at taken
        exact congrArg (Option.map _) taken
  rcases hasLocal with ⟨reason, isError⟩ | ⟨localAddr, after, rfl, rfl, isLocal⟩
  · exact .inl ⟨reason, by rw [isError]; rfl⟩
  rw [isLocal, Option.bind_some]
  dsimp only
  generalize isFront : _ :: (localAddr.map RawAddr.bytes).getD [] = front
  rw [← List.cons_append, isFront]
  rcases @takeUdpAddr_cases (front ++ after) front.length with ⟨reason, isError⟩ | ⟨remote, later, isBody, -⟩
  · exact .inl ⟨reason, by rw [isError]; rfl⟩
  rw [List.take_left' rfl, List.append_cancel_left_eq] at isBody
  subst isBody
  rw [takeUdpAddr_bytes, Option.bind_some]
  dsimp only
  rw [← List.append_assoc]
  have inside : (front ++ remote.bytes).length ≤ (front ++ remote.bytes ++ later).length := by
    rw [@List.length_append _ (front ++ remote.bytes)]
    exact Nat.le_add_right _ _
  rcases takePayload_cases inside with ⟨reason, isError⟩ | ⟨payload, isShort, isBody⟩
  · exact .inl ⟨reason, by rw [isError]; rfl⟩
  rw [List.take_left' rfl, List.append_cancel_left_eq] at isBody
  subst isBody
  exact .inr ⟨⟨localAddr, remote, payload, isShort⟩, by rw [← isFront]; simp [RawPacket.bytes, RawPacket.flags, RawPacket.localBytes]⟩

structure RawAddr.Writes (raw : RawAddr) (addr : UdpAddr) : Prop where
  ip : IpAddr.parse addr.ip.toList = some raw.ip
  port : raw.port = addr.port
  zone : raw.zone = bytesOf addr.zone
  zoned : raw.Zoned

/-- The text of the address is the one that addresses are shown as. -/
def UdpAddr.Canonical (addr : UdpAddr) : Prop := ∃ ip, addr.ip = ipText ip

theorem putUdpAddr_eq_ok_iff {out after : List UInt8} {addr : UdpAddr} :
    putUdpAddr out addr = .ok after ↔ ∃ raw : RawAddr, raw.Writes addr ∧ out ++ raw.bytes = after := by
  have noZone : bytesOf addr.zone = [] ↔ addr.zone = "" := bytesOf_inj (t := "")
  constructor
  · intro written
    unfold putUdpAddr at written
    split at written
    next => cases written
    next v4 isIp =>
      split at written
      next => cases written
      next empty =>
        have isEmpty := noZone.mpr (not_not.mp empty)
        refine ⟨⟨.v4 v4, addr.port, bytesOf addr.zone, ?_⟩, ⟨isIp, rfl, rfl, fun _ _ => isEmpty⟩, Except.ok.inj written⟩
        rw [isEmpty]
        decide
    next v6 isIp =>
      split at written
      next => cases written
      next short =>
        refine ⟨⟨.v6 v6, addr.port, bytesOf addr.zone, ?_⟩, ⟨isIp, rfl, rfl, by rintro _ ⟨⟩⟩, Except.ok.inj written⟩
        exact Nat.lt_succ_of_le (Nat.le_of_not_lt short)
  · rintro ⟨⟨ip, port, zone, short⟩, ⟨isIp, rfl, rfl, zoned⟩, rfl⟩
    unfold putUdpAddr
    rw [isIp]
    cases ip with
    | v4 v4 =>
      have empty := noZone.mp (zoned v4 rfl)
      exact if_neg (not_not.mpr empty)
    | v6 v6 => exact if_neg (Nat.not_lt_of_le (Nat.le_of_lt_succ short))

/-- A text that is read as an address is shown as it only where it was canonical. -/
theorem RawAddr.Writes.addr_eq {raw : RawAddr} {addr : UdpAddr} (writes : raw.Writes addr) (canonical : addr.Canonical) :
    raw.addr = addr := by
  obtain ⟨ip, port, zone⟩ := addr
  obtain ⟨shown, rfl⟩ := canonical
  have isIp : shown = raw.ip := Option.some.inj ((parse_ipText shown).symm.trans writes.ip)
  have isZone : raw.addr.zone = zone := bytesOf_inj.mp ((RawAddr.bytesOf_zone_iff.mpr ⟨zone, writes.zone⟩).trans writes.zone)
  rw [RawAddr.addr, UdpAddr.mk.injEq, isIp]
  exact ⟨rfl, writes.port, isZone⟩

theorem RawAddr.writes_addr {raw : RawAddr} (zoned : raw.Zoned) (textual : raw.Textual) : raw.Writes raw.addr where
  ip := parse_ipText raw.ip
  port := rfl
  zone := (RawAddr.bytesOf_zone_iff.mpr textual).symm
  zoned := zoned

theorem RawAddr.zone_of_bytes {raw other : RawAddr} {rest later : List UInt8} (sameIp : raw.ip = other.ip)
    (samePort : raw.port = other.port) (same : raw.bytes ++ rest = other.bytes ++ later) :
    raw.zone = other.zone ∧ rest = later := by
  simp only [RawAddr.bytes, portAndZone, sameIp, samePort, List.append_assoc, List.append_cancel_left_eq, List.cons_append,
    List.cons.injEq] at same
  obtain ⟨sameLength, sameZone⟩ := same
  have lengths : raw.zone.length = other.zone.length := by
    have lengthOf {n : Nat} (short : n < 256) : (UInt8.ofNat n).toNat = n := by
      rw [UInt8.toNat_ofNat']
      exact Nat.mod_eq_of_lt short
    rw [← lengthOf raw.short, sameLength, lengthOf other.short]
  exact List.append_inj sameZone lengths

structure RawPacket.Writes (raw : RawPacket) (pkt : UdpPacket) : Prop where
  localAddr : Option.Rel RawAddr.Writes raw.localAddr pkt.localAddr
  remoteAddr : ∃ addr, pkt.remoteAddr = some addr ∧ raw.remoteAddr.Writes addr
  payload : raw.payload = pkt.payload

theorem encodeUdpBinary_eq_ok_iff {pkt : UdpPacket} {body : List UInt8} :
    encodeUdpBinary pkt = .ok body ↔ ∃ raw : RawPacket, raw.Writes pkt ∧ raw.bytes = body := by
  rw [encodeUdpBinary]
  cases isRemote : pkt.remoteAddr with
  | none =>
    constructor
    · rintro ⟨⟩
    · rintro ⟨raw, ⟨-, ⟨addr, isAddr, -⟩, -⟩, -⟩
      cases isRemote.symm.trans isAddr
  | some remote =>
    dsimp only
    constructor
    · intro written
      split at written
      next => cases written
      next short =>
        obtain ⟨front, isFront, written⟩ := bind_eq_ok_iff.mp written
        obtain ⟨whole, isWhole, rfl⟩ := map_eq_ok_iff.mp written
        obtain ⟨rawRemote, writesRemote, rfl⟩ := putUdpAddr_eq_ok_iff.mp isWhole
        cases isLocal : pkt.localAddr with
        | none =>
          rw [isLocal] at isFront
          obtain rfl := Except.ok.inj isFront
          refine ⟨⟨none, rawRemote, pkt.payload, Nat.le_of_not_lt short⟩,
            ⟨isLocal ▸ .none, ⟨remote, isRemote, writesRemote⟩, rfl⟩, ?_⟩
          simp [RawPacket.bytes, RawPacket.flags, RawPacket.localBytes]
        | some address =>
          rw [isLocal] at isFront
          obtain ⟨rawLocal, writesLocal, rfl⟩ := putUdpAddr_eq_ok_iff.mp isFront
          refine ⟨⟨some rawLocal, rawRemote, pkt.payload, Nat.le_of_not_lt short⟩,
            ⟨isLocal ▸ .some writesLocal, ⟨remote, isRemote, writesRemote⟩, rfl⟩, ?_⟩
          simp [RawPacket.bytes, RawPacket.flags, RawPacket.localBytes]
    · rintro ⟨⟨localAddr, rawRemote, payload, short⟩, ⟨isLocal, ⟨addr, isAddr, writesRemote⟩, rfl⟩, rfl⟩
      obtain rfl := Option.some.inj (isRemote.symm.trans isAddr)
      rw [if_neg (Nat.not_lt_of_le short)]
      refine bind_eq_ok_iff.mpr ?_
      cases isPkt : pkt.localAddr with
      | none =>
        rw [isPkt] at isLocal
        cases isLocal
        refine ⟨_, rfl, map_eq_ok_iff.mpr ⟨_, putUdpAddr_eq_ok_iff.mpr ⟨rawRemote, writesRemote, rfl⟩, ?_⟩⟩
        simp [RawPacket.bytes, RawPacket.flags, RawPacket.localBytes]
      | some address =>
        rw [isPkt] at isLocal
        cases isLocal with
        | some writesLocal =>
          rename_i rawLocal
          refine ⟨_, putUdpAddr_eq_ok_iff.mpr ⟨rawLocal, writesLocal, rfl⟩,
            map_eq_ok_iff.mpr ⟨_, putUdpAddr_eq_ok_iff.mpr ⟨rawRemote, writesRemote, rfl⟩, ?_⟩⟩
          simp [RawPacket.bytes, RawPacket.flags, RawPacket.localBytes]

def UdpPacket.Canonical (pkt : UdpPacket) : Prop :=
  (∀ addr, pkt.localAddr = some addr → addr.Canonical) ∧ ∀ addr, pkt.remoteAddr = some addr → addr.Canonical

theorem RawPacket.Writes.packet_eq {raw : RawPacket} {pkt : UdpPacket} (writes : raw.Writes pkt) (canonical : pkt.Canonical) :
    raw.packet = { pkt with content := some pkt.payload } := by
  obtain ⟨isLocal, ⟨addr, isAddr, writesRemote⟩, isPayload⟩ := writes
  obtain ⟨localAddr, remoteAddr, payload, short⟩ := raw
  dsimp only at isLocal writesRemote isPayload
  have sameLocal : localAddr.map RawAddr.addr = pkt.localAddr := by
    have localCanonical := canonical.1
    generalize pkt.localAddr = target at isLocal localCanonical
    cases isLocal with
    | none => rfl
    | some writesLocal => exact congrArg some (writesLocal.addr_eq (localCanonical _ rfl))
  have sameRemote : some remoteAddr.addr = pkt.remoteAddr := by
    rw [writesRemote.addr_eq (canonical.2 addr isAddr), isAddr]
  exact UdpPacket.mk.injEq .. ▸ ⟨congrArg some isPayload, sameLocal, sameRemote⟩

/-- What is read is written again as it was where every zone is the UTF-8 of a text. -/
theorem encode_packet_iff {raw : RawPacket} (zoned : ∀ addr ∈ raw.addrs, addr.Zoned) :
    encodeUdpBinary raw.packet = .ok raw.bytes ↔ ∀ addr ∈ raw.addrs, addr.Textual := by
  rw [encodeUdpBinary_eq_ok_iff]
  obtain ⟨localAddr, remoteAddr, payload, short⟩ := raw
  constructor
  · rintro ⟨⟨otherLocal, otherRemote, otherPayload, otherShort⟩, ⟨isLocal, ⟨addr, isAddr, writesRemote⟩, isPayload⟩, same⟩
    obtain rfl := Option.some.inj isAddr
    have sameRemote : otherRemote.ip = remoteAddr.ip := Option.some.inj (writesRemote.ip.symm.trans (parse_ipText _))
    have same := (List.cons.inj same).2
    simp only [RawPacket.localBytes, RawPacket.packet] at same isLocal
    have textual {written read : RawAddr} (writes : written.Writes read.addr) (sameZone : written.zone = read.zone) :
        read.Textual := RawAddr.bytesOf_zone_iff.mp (writes.zone.symm.trans sameZone)
    cases localAddr with
    | none =>
      cases isLocal
      have sameZone := (RawAddr.zone_of_bytes sameRemote writesRemote.port same).1
      exact List.forall_mem_singleton.mpr (textual writesRemote sameZone)
    | some address =>
      cases isLocal with
      | some writesLocal =>
        have sameLocal := Option.some.inj (writesLocal.ip.symm.trans (parse_ipText _))
        obtain ⟨sameZone, sameRest⟩ := RawAddr.zone_of_bytes sameLocal writesLocal.port same
        have sameZone' := (RawAddr.zone_of_bytes sameRemote writesRemote.port sameRest).1
        exact List.forall_mem_cons.mpr ⟨textual writesLocal sameZone,
          List.forall_mem_singleton.mpr (textual writesRemote sameZone')⟩
  · intro textual
    have isWritten : ∀ addr ∈ RawPacket.addrs ⟨localAddr, remoteAddr, payload, short⟩, addr.Writes addr.addr :=
      fun addr isAddr => RawAddr.writes_addr (zoned addr isAddr) (textual addr isAddr)
    refine ⟨⟨localAddr, remoteAddr, payload, short⟩, ⟨?_, ⟨_, rfl, isWritten _ (by simp [RawPacket.addrs])⟩, rfl⟩, rfl⟩
    cases localAddr with
    | none => exact .none
    | some address => exact .some (isWritten address (by simp [RawPacket.addrs]))

/-- A packet and its bytes: the bytes of a packet are read as the packet, none are read out of
range, and bytes that are read are written again as they were, unless a zone is no text. -/
structure BinaryFaithful (pkt : UdpPacket) (body : List UInt8) : Prop where
  reads : encodeUdpBinary pkt = .ok body → pkt.Canonical →
    decodeUdpBinary body = some (.ok { pkt with content := some pkt.payload })
  inRange : decodeUdpBinary body ≠ none
  writes : decodeUdpBinary body = some (.ok pkt) → ∃ raw : RawPacket, raw.bytes = body ∧ raw.packet = pkt ∧
    ((∀ addr ∈ raw.addrs, addr.Zoned) → (encodeUdpBinary pkt = .ok body ↔ ∀ addr ∈ raw.addrs, addr.Textual))

theorem udpBinary_faithful (pkt : UdpPacket) (body : List UInt8) : BinaryFaithful pkt body where
  reads isBody canonical := by
    obtain ⟨raw, writes, rfl⟩ := encodeUdpBinary_eq_ok_iff.mp isBody
    rw [decode_bytes, writes.packet_eq canonical]
  inRange := by
    rcases decode_cases body with ⟨reason, isError⟩ | ⟨raw, rfl⟩
    · rw [isError]
      rintro ⟨⟩
    · rw [decode_bytes]
      rintro ⟨⟩
  writes isPkt := by
    rcases decode_cases body with ⟨reason, isError⟩ | ⟨raw, rfl⟩
    · cases isError.symm.trans isPkt
    · obtain rfl := Except.ok.inj (Option.some.inj ((decode_bytes raw).symm.trans isPkt))
      exact ⟨raw, rfl, rfl, encode_packet_iff⟩

/-- A packet without a content is read as one with an empty one, and a zone that is no UTF-8
is read as another. -/
theorem not_inverse_udpBinary :
    (¬∀ pkt body, encodeUdpBinary pkt = .ok body → pkt.Canonical → decodeUdpBinary body = some (.ok pkt)) ∧
    ¬∀ body pkt, decodeUdpBinary body = some (.ok pkt) → encodeUdpBinary pkt = .ok body := by
  constructor
  · intro inverse
    let pkt : UdpPacket := { remoteAddr := some { ip := ipText (.v4 0x01020304) } }
    have canonical : pkt.Canonical := by
      refine ⟨by rintro _ ⟨⟩, ?_⟩
      intro addr isAddr
      obtain rfl := Option.some.inj isAddr
      exact ⟨.v4 0x01020304, rfl⟩
    have same := inverse pkt [2, 4, 1, 2, 3, 4, 0, 0, 0, 0, 0] (by decide +kernel) canonical
    revert same
    decide +kernel
  · intro inverse
    let raw : RawPacket := ⟨none, ⟨.v6 1, 7, [0xff], by decide⟩, [], by decide⟩
    have same := inverse raw.bytes raw.packet (decode_bytes raw)
    revert same
    decide +kernel

end Nfrp.Udp
