import Nfrp.P2p.Told

/-!
# Any bytes may come

The reader takes its bytes at indices, and a read past the end would stop the program.
There is none: whatever comes, the reader answers, and what it reads can be written and
read again.
-/

namespace Nfrp.P2p

open Lib

inductive Fault where
  | outOfRange
  | underflow
  deriving DecidableEq, Repr

namespace Indexed

def byteAt (bytes : List UInt8) (i : Nat) : Except Fault UInt8 :=
  match bytes[i]? with
  | some b => .ok b
  | none => .error .outOfRange

def slice (bytes : List UInt8) (i j : Nat) : Except Fault (List UInt8) :=
  if i ≤ j ∧ j ≤ bytes.length then .ok ((bytes.drop i).take (j - i)) else .error .outOfRange

def sub (a b : Nat) : Except Fault Nat :=
  if b ≤ a then .ok (a - b) else .error .underflow

def takeStr (body : List UInt8) (i : Nat) : Except Fault (Option (String × Nat)) :=
  if body.length ≤ i then return none
  else do
    let len := (← byteAt body i).toNat
    let i := i + 1
    if (← sub body.length i) < len then return none
    else
      let bytes ← slice body i (i + len)
      return (textOf bytes).map (·, i + len)

def takeAddr (body : List UInt8) (i : Nat) : Except Fault (Option (SocketAddr × Nat)) := do
  match ← takeStr body i with
  | none => return none
  | some (s, i) => return (SocketAddr.parse s.toList).map (·, i)

def takeAddrs (body : List UInt8) : Nat → Nat → Except Fault (Option (List SocketAddr))
  | 0, _ => return some []
  | count + 1, i => do
      match ← takeAddr body i with
      | none => return none
      | some (addr, i) => return (← takeAddrs body count i).map (addr :: ·)

def sidAt (pkt : List UInt8) (off : Nat) : Except Fault (Option String) := do
  return (textOf (← slice pkt off (off + sidLen))).filter fun sid => sid.toList.all (isDigit 16)

def decodeV1 (pkt : List UInt8) : Except Fault (Option Packet) := do
  match Role.fromU8 (← byteAt pkt 6) with
  | none => return none
  | some role =>
    match ← sidAt pkt headerLenV1 with
    | none => return none
    | some sid =>
      let kind ← byteAt pkt 5
      if kind = kindHello then return some (.hello role sid defaultTransport)
      else if kind = kindPeer then
        let text := textOf (← slice pkt helloLenV1 pkt.length)
        return (text.bind fun s => SocketAddr.parse s.toList).map (.peer role sid defaultTransport)
      else return none

def decodeV2 (pkt : List UInt8) : Except Fault (Option Packet) := do
  if pkt.length < helloLen then return none
  else
    match Role.fromU8 (← byteAt pkt 6) with
    | none => return none
    | some role =>
      match Transport.fromU8 (← byteAt pkt 7) with
      | none => return none
      | some transport =>
        match ← sidAt pkt headerLen with
        | none => return none
        | some sid =>
          let body ← slice pkt helloLen pkt.length
          let kind ← byteAt pkt 5
          if kind = kindHello then return some (.hello role sid transport)
          else if kind = kindPeer then
            return (← takeAddr body 0).map fun found => .peer role sid transport found.1
          else if kind = kindPeers then
            if body = [] then return none
            else
              let count ← byteAt body 0
              match ← takeAddrs body count.toNat 1 with
              | none => return none
              | some addrs => return if addrs = [] then none else some (.peers role sid transport addrs)
          else return none

def decode (pkt : List UInt8) : Except Fault (Option Packet) := do
  if pkt.length < helloLenV1 then return none
  else if (← slice pkt 0 4) ≠ magic then return none
  else
    let version ← byteAt pkt 4
    if version = versionV1 then decodeV1 pkt
    else if version = versionV2 then decodeV2 pkt
    else return none

variable {bytes : List UInt8} {i j : Nat}

theorem byteAt_eq (inside : i < bytes.length) : byteAt bytes i = .ok (bytes.getD i 0) := by
  rw [byteAt, List.getD_eq_getElem?_getD, List.getElem?_eq_getElem inside]
  rfl

theorem slice_eq (order : i ≤ j) (inside : j ≤ bytes.length) : slice bytes i j = .ok ((bytes.drop i).take (j - i)) :=
  if_pos ⟨order, inside⟩

theorem takeStr_suffix {body : List UInt8} {s : String} {rest : List UInt8} (taken : P2p.takeStr body = some (s, rest)) :
    rest <:+ body := by
  cases body with
  | nil => cases taken
  | cons len body =>
    rw [P2p.takeStr] at taken
    split at taken
    · cases taken
    · obtain ⟨_, -, same⟩ := Option.map_eq_some_iff.mp taken
      obtain ⟨-, rfl⟩ := Prod.mk.inj same
      exact (List.drop_suffix _ _).trans (List.suffix_cons _ _)

theorem takeStr_eq (inside : i ≤ bytes.length) :
    takeStr bytes i = .ok ((P2p.takeStr (bytes.drop i)).map fun found => (found.1, bytes.length - found.2.length)) := by
  rw [takeStr]
  split
  next atEnd =>
    rw [List.drop_of_length_le atEnd]
    rfl
  next more =>
    rw [not_le] at more
    have left : (bytes.drop (i + 1)).length = bytes.length - (i + 1) := List.length_drop
    have isLeft : sub bytes.length (i + 1) = .ok (bytes.length - (i + 1)) := if_pos more
    rw [List.drop_eq_getElem_cons more, P2p.takeStr, byteAt, List.getElem?_eq_getElem more, left]
    dsimp only [bind, Except.bind]
    rw [isLeft]
    dsimp only
    split
    next => rfl
    next fits =>
      rw [slice_eq (Nat.le_add_right _ _) (by omega), Nat.add_sub_cancel_left, Option.map_map]
      have next : bytes.length - ((bytes.drop (i + 1)).drop bytes[i].toNat).length = i + 1 + bytes[i].toNat := by
        rw [List.length_drop, left]
        omega
      change Except.ok (Option.map _ _) = Except.ok (Option.map _ _)
      rw [Function.comp_def]
      dsimp only
      rw [next]

theorem takeAddrs_eq (count : Nat) (inside : i ≤ bytes.length) :
    takeAddrs bytes count i = .ok (P2p.takeAddrs count (bytes.drop i)) := by
  induction count generalizing i with
  | zero => rfl
  | succ count ih =>
    rw [takeAddrs, takeAddr, takeStr_eq inside, P2p.takeAddrs]
    cases taken : P2p.takeStr (bytes.drop i) with
    | none => rfl
    | some found =>
      obtain ⟨s, rest⟩ := found
      have suffix : rest <:+ bytes := (takeStr_suffix taken).trans (List.drop_suffix _ _)
      have later := ih (Nat.sub_le bytes.length rest.length)
      rw [← List.suffix_iff_eq_drop.mp suffix] at later
      change (match (SocketAddr.parse s.toList).map (·, bytes.length - rest.length) with
        | none => Except.ok none
        | some (addr, i) => takeAddrs bytes count i >>= fun addrs => Except.ok (addrs.map (addr :: ·))) =
        Except.ok ((SocketAddr.parse s.toList).bind fun addr => (P2p.takeAddrs count rest).bind fun addrs => some (addr :: addrs))
      cases SocketAddr.parse s.toList with
      | none => rfl
      | some addr =>
        change (takeAddrs bytes count _ >>= _) = _
        rw [later]
        cases P2p.takeAddrs count rest with
        | none => rfl
        | some addrs => rfl

theorem sidAt_eq {pkt : List UInt8} {off : Nat} (inside : off + sidLen ≤ pkt.length) :
    sidAt pkt off = .ok (P2p.sidAt pkt off) := by
  rw [sidAt, slice_eq (Nat.le_add_right _ _) inside, Nat.add_sub_cancel_left]
  rfl

theorem decodeV1_eq {pkt : List UInt8} (long : helloLenV1 ≤ pkt.length) : decodeV1 pkt = .ok (P2p.decodeV1 pkt) := by
  have isLong : 39 ≤ pkt.length := long
  have isText : slice pkt helloLenV1 pkt.length = .ok (pkt.drop helloLenV1) := by
    rw [slice_eq long le_rfl, List.take_of_length_le List.length_drop.le]
  rw [decodeV1, byteAt_eq (by omega), byteAt_eq (by omega), sidAt_eq long, isText, P2p.decodeV1]
  dsimp only [bind, Except.bind, Option.bind, pure, Except.pure]
  cases Role.fromU8 (pkt.getD 6 0) with
  | none => rfl
  | some role =>
    cases P2p.sidAt pkt headerLenV1 with
    | none => rfl
    | some sid =>
      dsimp only
      by_cases isHello : pkt.getD 5 0 = kindHello
      · rw [if_pos isHello, if_pos isHello]
      by_cases isPeer : pkt.getD 5 0 = kindPeer
      · rw [if_neg isHello, if_neg isHello, if_pos isPeer, if_pos isPeer]
        cases textOf (pkt.drop helloLenV1) with
        | none => rfl
        | some s =>
          dsimp only
          cases SocketAddr.parse s.toList <;> rfl
      · rw [if_neg isHello, if_neg isHello, if_neg isPeer, if_neg isPeer]

theorem takeAddr_zero (body : List UInt8) : takeAddr body 0 = .ok ((P2p.takeStr body).bind fun found =>
    (SocketAddr.parse found.1.toList).map fun addr => (addr, body.length - found.2.length)) := by
  rw [takeAddr, takeStr_eq (Nat.zero_le _), List.drop_zero]
  cases P2p.takeStr body <;> rfl

theorem decodeV2_eq {pkt : List UInt8} (long : helloLenV1 ≤ pkt.length) : decodeV2 pkt = .ok (P2p.decodeV2 pkt) := by
  rw [decodeV2, P2p.decodeV2]
  by_cases short : pkt.length < helloLen
  · rw [if_pos short, if_pos short]
    rfl
  have isLong : 40 ≤ pkt.length := not_lt.mp short
  have isBody : slice pkt helloLen pkt.length = .ok (pkt.drop helloLen) := by
    rw [slice_eq (not_lt.mp short) le_rfl, List.take_of_length_le List.length_drop.le]
  rw [if_neg short, if_neg short, byteAt_eq (by omega), byteAt_eq (by omega), byteAt_eq (by omega),
    sidAt_eq (not_lt.mp short), isBody]
  dsimp only [bind, Except.bind, Option.bind, pure, Except.pure]
  cases Role.fromU8 (pkt.getD 6 0) with
  | none => rfl
  | some role =>
    cases Transport.fromU8 (pkt.getD 7 0) with
    | none => rfl
    | some transport =>
      cases P2p.sidAt pkt headerLen with
      | none => rfl
      | some sid =>
        dsimp only
        by_cases isHello : pkt.getD 5 0 = kindHello
        · rw [if_pos isHello, if_pos isHello]
        by_cases isPeer : pkt.getD 5 0 = kindPeer
        · rw [if_neg isHello, if_neg isHello, if_pos isPeer, if_pos isPeer, takeAddr_zero]
          cases P2p.takeStr (pkt.drop helloLen) with
          | none => rfl
          | some found =>
            rw [Option.bind_some]
            dsimp only
            cases SocketAddr.parse found.1.toList <;> rfl
        by_cases isPeers : pkt.getD 5 0 = kindPeers
        · rw [if_neg isHello, if_neg isHello, if_neg isPeer, if_neg isPeer, if_pos isPeers, if_pos isPeers]
          cases pkt.drop helloLen with
          | nil => rfl
          | cons count body =>
            have rest : takeAddrs (count :: body) ((count :: body).getD 0 0).toNat 1 =
                .ok (P2p.takeAddrs count.toNat body) :=
              takeAddrs_eq count.toNat (Nat.succ_le_succ (Nat.zero_le body.length))
            rw [if_neg (List.cons_ne_nil _ _), byteAt_eq (Nat.zero_lt_succ _)]
            dsimp only
            rw [rest]
            cases P2p.takeAddrs count.toNat body <;> rfl
        · rw [if_neg isHello, if_neg isHello, if_neg isPeer, if_neg isPeer, if_neg isPeers, if_neg isPeers]

theorem decode_eq (pkt : List UInt8) : decode pkt = .ok (P2p.decode pkt) := by
  rw [decode, P2p.decode]
  by_cases short : pkt.length < helloLenV1
  · rw [if_pos short, if_pos short]
    rfl
  have isLong : 39 ≤ pkt.length := not_lt.mp short
  have front : slice pkt 0 4 = .ok (pkt.take 4) := slice_eq (Nat.zero_le 4) (by omega)
  rw [if_neg short, if_neg short, front, byteAt_eq (by omega), decodeV1_eq isLong, decodeV2_eq isLong]
  dsimp only [bind, Except.bind, pure, Except.pure]
  by_cases strange : pkt.take 4 ≠ magic
  · rw [if_pos strange, if_pos strange]
  by_cases first : pkt.getD 4 0 = versionV1
  · rw [if_neg strange, if_neg strange, if_pos first, if_pos first]
  by_cases second : pkt.getD 4 0 = versionV2
  · rw [if_neg strange, if_neg strange, if_neg first, if_neg first, if_pos second, if_pos second]
  · rw [if_neg strange, if_neg strange, if_neg first, if_neg first, if_neg second, if_neg second]

end Indexed

namespace Packet

def encode : Packet → Option (List UInt8)
  | hello role sid transport => encodeHello role sid transport
  | peer role sid transport addr => encodePeer role sid transport addr
  | peers role sid transport addrs => encodePeers role sid transport addrs

/-- The packet with what the texts of its addresses do not tell left out. -/
def withoutFlow : Packet → Packet
  | hello role sid transport => hello role sid transport
  | peer role sid transport addr => peer role sid transport addr.withoutFlow
  | peers role sid transport addrs => peers role sid transport (addrs.map SocketAddr.withoutFlow)

inductive Writable : Packet → Prop
  | hello {sid : String} (isSid : IsSid sid) (role : Role) (transport : Transport) : Writable (hello role sid transport)
  | peer {sid : String} (isSid : IsSid sid) (role : Role) (transport : Transport) (addr : SocketAddr) :
      Writable (peer role sid transport addr)
  | peers {sid : String} (isSid : IsSid sid) (role : Role) (transport : Transport) {addrs : List SocketAddr}
      (some : addrs ≠ []) (few : addrs.length ≤ 255) : Writable (peers role sid transport addrs)

theorem Writable.decode_encode {packet : Packet} (writable : packet.Writable) :
    ∃ pkt, packet.encode = some pkt ∧ decode pkt = some packet.withoutFlow := by
  cases writable with
  | hello isSid role transport =>
    have encoded := pushHeader_eq isSid role transport kindHello
    exact ⟨_, encoded, decode_encodeHello isSid role transport encoded⟩
  | peer isSid role transport addr =>
    have encoded := congrArg (Option.map (· ++ putStr addr.text)) (pushHeader_eq isSid role transport kindPeer)
    exact ⟨_, encoded, decode_encodePeer isSid encoded⟩
  | peers isSid role transport some few =>
    obtain ⟨pkt, encoded⟩ := exists_encodePeers isSid role transport some few
    exact ⟨pkt, encoded, decode_encodePeers isSid encoded⟩

end Packet

theorem bytesOf_of_textOf {bytes : List UInt8} {s : String} (isText : textOf bytes = some s) : bytesOf s = bytes := by
  rw [textOf, String.fromUTF8?] at isText
  split at isText
  · obtain rfl := Option.some.inj isText
    rfl
  · cases isText

theorem isSid_of_sidAt {pkt : List UInt8} {off : Nat} {sid : String} (long : off + sidLen ≤ pkt.length)
    (found : sidAt pkt off = some sid) : IsSid sid := by
  obtain ⟨isText, hex⟩ := Option.filter_eq_some_iff.mp found
  refine ⟨?_, hex⟩
  rw [bytesOf_of_textOf isText, List.length_take, List.length_drop]
  omega

theorem plain_of_takeAddrs {count : Nat} {body : List UInt8} {addrs : List SocketAddr}
    (taken : takeAddrs count body = some addrs) :
    addrs.length = count ∧ addrs.map SocketAddr.withoutFlow = addrs := by
  induction count generalizing body addrs with
  | zero =>
    obtain rfl := Option.some.inj taken
    exact ⟨rfl, rfl⟩
  | succ count ih =>
    obtain ⟨found, -, taken⟩ := Option.bind_eq_some_iff.mp taken
    obtain ⟨addr, isAddr, taken⟩ := Option.bind_eq_some_iff.mp taken
    obtain ⟨rest, isRest, taken⟩ := Option.bind_eq_some_iff.mp taken
    obtain rfl := Option.some.inj taken
    obtain ⟨length, plain⟩ := ih isRest
    refine ⟨congrArg Nat.succ length, ?_⟩
    rw [List.map_cons, plain, SocketAddr.isPlain_of_parse isAddr]

theorem writable_of_decodeV1 {pkt : List UInt8} (long : helloLenV1 ≤ pkt.length) {packet : Packet}
    (read : decodeV1 pkt = some packet) : packet.Writable ∧ packet.withoutFlow = packet := by
  obtain ⟨role, -, read⟩ := Option.bind_eq_some_iff.mp read
  obtain ⟨sid, isSid, read⟩ := Option.bind_eq_some_iff.mp read
  have isSid := isSid_of_sidAt long isSid
  dsimp only at read
  split at read
  next =>
    obtain rfl := Option.some.inj read
    exact ⟨.hello isSid role _, rfl⟩
  next =>
    split at read
    next =>
      obtain ⟨s, -, read⟩ := Option.bind_eq_some_iff.mp read
      obtain ⟨addr, isAddr, read⟩ := Option.bind_eq_some_iff.mp read
      obtain rfl := Option.some.inj read
      refine ⟨.peer isSid role _ addr, ?_⟩
      rw [Packet.withoutFlow, SocketAddr.isPlain_of_parse isAddr]
    next => cases read

theorem writable_of_decodeV2 {pkt : List UInt8} {packet : Packet} (read : decodeV2 pkt = some packet) :
    packet.Writable ∧ packet.withoutFlow = packet := by
  rw [decodeV2] at read
  split at read
  next => cases read
  next long =>
    obtain ⟨role, -, read⟩ := Option.bind_eq_some_iff.mp read
    obtain ⟨transport, -, read⟩ := Option.bind_eq_some_iff.mp read
    obtain ⟨sid, isSid, read⟩ := Option.bind_eq_some_iff.mp read
    have isSid := isSid_of_sidAt (not_lt.mp long) isSid
    dsimp only at read
    split at read
    next =>
      obtain rfl := Option.some.inj read
      exact ⟨.hello isSid role transport, rfl⟩
    next =>
      split at read
      next =>
        obtain ⟨found, -, read⟩ := Option.bind_eq_some_iff.mp read
        obtain ⟨addr, isAddr, read⟩ := Option.bind_eq_some_iff.mp read
        obtain rfl := Option.some.inj read
        refine ⟨.peer isSid role transport addr, ?_⟩
        rw [Packet.withoutFlow, SocketAddr.isPlain_of_parse isAddr]
      next =>
        split at read
        next =>
          split at read
          next => cases read
          next count body _ =>
            obtain ⟨addrs, taken, read⟩ := Option.bind_eq_some_iff.mp read
            obtain ⟨length, plain⟩ := plain_of_takeAddrs taken
            split at read
            next => cases read
            next some =>
              obtain rfl := Option.some.inj read
              refine ⟨.peers isSid role transport some (length ▸ Nat.le_of_lt_succ count.toNat_lt), ?_⟩
              rw [Packet.withoutFlow, plain]
        next => cases read

/-- What has been read can be written, and is read again as it was. -/
theorem writable_of_decode {pkt : List UInt8} {packet : Packet} (read : decode pkt = some packet) :
    packet.Writable ∧ packet.withoutFlow = packet := by
  rw [decode] at read
  split at read
  next => cases read
  next long =>
    split at read
    next => cases read
    next =>
      split at read
      next => exact writable_of_decodeV1 (not_lt.mp long) read
      next =>
        split at read
        next => exact writable_of_decodeV2 read
        next => cases read

/-- What a peer of the first version sends: the text of an address follows the name of
the session up to the end. -/
def packetV1 (kind : UInt8) (role : Role) (sid : String) (body : List UInt8) : List UInt8 :=
  magic ++ [versionV1, kind, role.toU8] ++ bytesOf sid ++ body

section VersionOne

variable {sid : String} (isSid : IsSid sid) (role : Role)

include isSid

theorem decode_packetV1 (kind : UInt8) (body : List UInt8) :
    decode (packetV1 kind role sid body) =
      if kind = kindHello then some (.hello role sid defaultTransport)
      else if kind = kindPeer then
        ((textOf body).bind fun s => SocketAddr.parse s.toList).map (.peer role sid defaultTransport)
      else none := by
  have isLong : helloLenV1 ≤ (packetV1 kind role sid body).length := by
    rw [packetV1, List.length_append, List.length_append, isSid.length]
    exact Nat.le_add_right _ _
  have isText : sidAt (packetV1 kind role sid body) headerLenV1 = some sid := by
    have front : (bytesOf sid ++ body).take sidLen = bytesOf sid := by
      rw [← isSid.length]
      exact List.take_left
    rw [packetV1, List.append_assoc, sidAt, show List.drop headerLenV1 _ = bytesOf sid ++ body from rfl, front,
      textOf_bytesOf, Option.filter, isSid.hex]
    rfl
  have isBody : (packetV1 kind role sid body).drop helloLenV1 = body := by
    have front : (bytesOf sid ++ body).drop sidLen = body := by
      rw [← isSid.length]
      exact List.drop_left
    rw [packetV1, List.append_assoc]
    exact front
  have isRole : Role.fromU8 ((packetV1 kind role sid body).getD 6 0) = some role := Role.fromU8_toU8 role
  have isMagic : (packetV1 kind role sid body).take 4 = magic := rfl
  have isFirst : (packetV1 kind role sid body).getD 4 0 = versionV1 := rfl
  rw [decode, if_neg (not_lt.mpr isLong), if_neg (not_not.mpr isMagic), if_pos isFirst, decodeV1, isText, isBody, isRole]
  change (if kind = kindHello then _ else if kind = kindPeer then _ else _) = _
  by_cases isHello : kind = kindHello
  · rw [if_pos isHello, if_pos isHello]
    rfl
  by_cases isPeer : kind = kindPeer
  · rw [if_neg isHello, if_neg isHello, if_pos isPeer, if_pos isPeer]
    cases textOf body with
    | none => rfl
    | some s => cases parsed : SocketAddr.parse s.toList <;> simp [parsed]
  · rw [if_neg isHello, if_neg isHello, if_neg isPeer, if_neg isPeer]

end VersionOne

inductive HubEvent where
  | create (now : Nat) (sid : String) (visitorIp providerIp : IpAddr)
  | datagram (now : Nat) (peer : SocketAddr) (bytes : List UInt8)

namespace P2PHub

def sends (checkIp : IpAddr → Except String Unit) (hub : P2PHub) : HubEvent → List (SocketAddr × List UInt8)
  | .create .. => []
  | .datagram now peer bytes => (hub.runRendezvous checkIp now peer bytes).2

def step (checkIp : IpAddr → Except String Unit) (hub : P2PHub) : HubEvent → P2PHub
  | .create now sid visitorIp providerIp => hub.create now sid visitorIp providerIp
  | .datagram now peer bytes => (hub.runRendezvous checkIp now peer bytes).1

def Sampled (hub : P2PHub) : Prop :=
  ∀ sid session, hub.lookup sid = some session → ∀ role, (session.heard role).length ≤ maxSamples

variable {hub : P2PHub}

theorem Sampled.reap (sampled : hub.Sampled) (now : Nat) : (hub.reap now).Sampled :=
  fun sid session found => sampled sid session (Setting.lookup_of_reap found)

theorem Sampled.insert (sampled : hub.Sampled) (sid : String) {session : Session}
    (few : ∀ role, (session.heard role).length ≤ maxSamples) : Sampled (hub.insert sid session) :=
  forall_lookup_insert few sampled

theorem Sampled.finish (sampled : hub.Sampled) (sid : String) : (hub.finish sid).Sampled := by
  intro other session found
  rw [P2PHub.finish, lookup_erase_eq] at found
  split at found
  next => cases found
  next => exact sampled other session found

theorem Sampled.create (sampled : hub.Sampled) (now : Nat) (sid : String) (visitorIp providerIp : IpAddr) :
    (hub.create now sid visitorIp providerIp).Sampled := by
  rw [P2PHub.create]
  split
  next => exact sampled.reap now
  next =>
    refine (sampled.reap now).insert sid fun role => ?_
    cases role <;> exact Nat.zero_le _

theorem length_heard_observe {session : Session} (few : ∀ role, (session.heard role).length ≤ maxSamples) (now : Nat)
    (role other : Role) (addr : SocketAddr) (transport : Transport) :
    ((session.observe now role addr transport).heard other).length ≤ maxSamples := by
  obtain ⟨addrs, observed, noted⟩ := session.observe_eq role now addr transport
  rw [observed]
  rcases Role.eq_or_eq_peer other role with rfl | rfl
  · rw [Session.heard_put]
    rcases noted with ⟨rfl, -, room⟩ | ⟨rfl, -⟩
    · rw [List.length_append]
      exact room
    · exact few _
  · rw [Session.heard_put_peer]
    exact few _

theorem Sampled.register (sampled : hub.Sampled) (now : Nat) (sid : String) (role : Role) (addr : SocketAddr)
    (transport : Transport) :
    (hub.register now sid role addr transport).1.Sampled ∧
      ∀ addrs chosen, (hub.register now sid role addr transport).2 = .ready addrs chosen → addrs.length ≤ maxSamples := by
  have reaped := sampled.reap now
  rw [P2PHub.register]
  cases found : (hub.reap now).lookup sid with
  | none => exact ⟨reaped, by rintro _ _ ⟨⟩⟩
  | some session =>
    have few := fun other => length_heard_observe (reaped sid session found) now role other addr transport
    dsimp only
    split
    next =>
      refine ⟨reaped.insert sid few, fun addrs chosen isReady => ?_⟩
      have heard := few role.peer
      rw [Session.heard] at heard
      cases isOther : (session.observe now role addr transport).get role.peer with
      | none =>
        rw [isOther] at isReady
        cases isReady
      | some other =>
        rw [isOther] at isReady heard
        obtain ⟨rfl, -⟩ := RegisterOutcome.ready.inj isReady
        exact heard
    next => exact ⟨reaped, by rintro _ _ ⟨⟩⟩

/-- An answer of the server tells addresses under which a peer was noted. -/
structure IsAnswer (pkt : List UInt8) (addrs : List SocketAddr) : Prop where
  few : addrs.length ≤ maxSamples
  encoded : ∃ role sid transport, IsSid sid ∧ encodePeers role sid transport addrs = some pkt

theorem Sampled.serve (sampled : hub.Sampled) (checkIp : IpAddr → Except String Unit) (now : Nat) (peer : SocketAddr)
    (bytes : List UInt8) :
    (hub.runRendezvous checkIp now peer bytes).1.Sampled ∧
      ∀ answer ∈ (hub.runRendezvous checkIp now peer bytes).2, ∃ addrs, IsAnswer answer.2 addrs := by
  rw [runRendezvous]
  split
  next => exact ⟨sampled, List.forall_mem_nil _⟩
  next =>
    split
    next role sid transport read =>
      obtain ⟨writable, -⟩ := writable_of_decode read
      have isSid : IsSid sid := by
        cases writable
        assumption
      have registered := sampled.register now sid role peer transport
      split
      next hub addrs chosen outcome =>
        rw [outcome] at registered
        have few := registered.2 addrs chosen rfl
        have others : ∀ answer ∈ addrs.filterMap fun a => (encodePeers role sid chosen [peer]).map (a, ·),
            ∃ addrs, IsAnswer answer.2 addrs := by
          intro answer member
          obtain ⟨a, -, isAnswer⟩ := List.mem_filterMap.mp member
          obtain ⟨pkt, encoded, rfl⟩ := Option.map_eq_some_iff.mp isAnswer
          exact ⟨[peer], Nat.le_of_ble_eq_true rfl, role, sid, chosen, isSid, encoded⟩
        dsimp only
        split
        next pkt encoded =>
          refine ⟨registered.1.finish sid, List.forall_mem_cons.mpr ⟨?_, others⟩⟩
          exact ⟨addrs, few, role.peer, sid, chosen, isSid, encoded⟩
        next => exact ⟨registered.1, others⟩
      next hub outcome notReady =>
        rw [notReady] at registered
        exact ⟨registered.1, List.forall_mem_nil _⟩
    next => exact ⟨sampled, List.forall_mem_nil _⟩

theorem mem_runRendezvous {checkIp : IpAddr → Except String Unit} {now : Nat} {peer : SocketAddr} {bytes : List UInt8}
    {role : Role} {sid : String} {transport chosen : Transport} {addrs : List SocketAddr} {pkt : List UInt8}
    (allowed : checkIp peer.ip = .ok ()) (isHello : decode (bytes.take 2048) = some (.hello role sid transport))
    (ready : (hub.register now sid role peer transport).2 = .ready addrs chosen)
    (encoded : encodePeers role.peer sid chosen addrs = some pkt) :
    (peer, pkt) ∈ (hub.runRendezvous checkIp now peer bytes).2 := by
  rw [runRendezvous, allowed, isHello]
  dsimp only
  split
  next hub others transport registered =>
    rw [registered] at ready
    obtain ⟨rfl, rfl⟩ := RegisterOutcome.ready.inj ready
    rw [encoded]
    exact List.mem_cons_self
  next later outcome notReady registered =>
    rw [registered] at ready
    exact absurd ready (notReady addrs chosen)

end P2PHub

def TooLong (addrs : List SocketAddr) : Prop :=
  addrs.length = maxSamples ∧ ∀ a ∈ addrs, (bytesOf a.text).length = SocketAddr.maxTextLen

theorem length_le_iff {role : Role} {sid : String} {transport : Transport} {addrs : List SocketAddr} {pkt : List UInt8}
    (few : addrs.length ≤ maxSamples) (encoded : encodePeers role sid transport addrs = some pkt) :
    pkt.length ≤ 512 ↔ ¬TooLong addrs := by
  have most : (addrs.map fun _ => SocketAddr.maxTextLen + 1).sum = 59 * addrs.length := by
    rw [List.map_const', List.sum_replicate, smul_eq_mul, Nat.mul_comm]
    rfl
  have isLong : ∀ a ∈ addrs, (bytesOf a.text).length + 1 ≤ SocketAddr.maxTextLen + 1 :=
    fun a _ => Nat.succ_le_succ a.length_bytesOf_text_le
  have length := length_encodePeers encoded
  have header : helloLen + 1 = 41 := rfl
  rw [header] at length
  constructor
  · rintro fits ⟨eight, all⟩
    have sum : (addrs.map fun a => (bytesOf a.text).length + 1).sum = 59 * addrs.length := by
      rw [← most, List.map_congr_left fun a member => congrArg Nat.succ (all a member)]
    rw [maxSamples] at eight
    omega
  · intro short
    by_cases eight : addrs.length = 8
    · obtain ⟨a, member, shorter⟩ : ∃ a ∈ addrs, (bytesOf a.text).length ≠ SocketAddr.maxTextLen := by
        by_contra none
        push Not at none
        exact short ⟨eight, none⟩
      have less := List.sum_lt_sum _ _ isLong
        ⟨a, member, Nat.succ_lt_succ (lt_of_le_of_ne a.length_bytesOf_text_le shorter)⟩
      rw [most] at less
      omega
    · have sum := List.sum_le_sum isLong
      rw [most] at sum
      rw [maxSamples] at few
      omega

/-- What can be written is read, packets of the first version are read, what the server
sends fits into the buffer of the peer but where an answer is too long, and whatever
comes is read without a fault, as something that can be written. -/
theorem codec_faithful :
    (∀ packet : Packet, packet.Writable → ∃ pkt, packet.encode = some pkt ∧ decode pkt = some packet.withoutFlow) ∧
      (∀ sid role, IsSid sid →
        (∀ body, decode (packetV1 kindHello role sid body) = some (.hello role sid defaultTransport)) ∧
          ∀ s addr, SocketAddr.parse s.toList = some addr →
            decode (packetV1 kindPeer role sid (bytesOf s)) = some (.peer role sid defaultTransport addr)) ∧
      (∀ checkIp events event, ∀ answer ∈ P2PHub.sends checkIp (run (P2PHub.step checkIp) ∅ events) event,
        ∃ addrs, P2PHub.IsAnswer answer.2 addrs ∧ (¬TooLong addrs → answer.2.length ≤ 512)) ∧
      (∀ pkt, Indexed.decode pkt = .ok (decode pkt)) ∧
      ∀ pkt packet, decode pkt = some packet → ∃ again, packet.encode = some again ∧ decode again = some packet := by
  refine ⟨fun packet writable => writable.decode_encode, fun sid role isSid => ⟨fun body => ?_, ?_⟩, ?_,
    Indexed.decode_eq, ?_⟩
  · rw [decode_packetV1 isSid, if_pos rfl]
  · intro s addr isText
    rw [decode_packetV1 isSid, if_neg (by decide), if_pos rfl, textOf_bytesOf, Option.bind_some, isText, Option.map_some]
  · intro checkIp events event answer member
    have sampled : P2PHub.Sampled (run (P2PHub.step checkIp) ∅ events) := by
      refine run_invariant (fun hub event sampled => ?_) (fun sid session found => (nomatch found)) events
      cases event with
      | create now sid visitorIp providerIp => exact sampled.create now sid visitorIp providerIp
      | datagram now peer bytes => exact (sampled.serve checkIp now peer bytes).1
    cases event with
    | create => cases member
    | datagram now peer bytes =>
      obtain ⟨addrs, isAnswer⟩ := (sampled.serve checkIp now peer bytes).2 answer member
      obtain ⟨role, sid, transport, -, encoded⟩ := isAnswer.encoded
      exact ⟨addrs, isAnswer, (length_le_iff isAnswer.few encoded).mpr⟩
  · intro pkt packet read
    obtain ⟨writable, plain⟩ := writable_of_decode read
    obtain ⟨again, encoded, readAgain⟩ := writable.decode_encode
    rw [plain] at readAgain
    exact ⟨again, encoded, readAgain⟩

/-- An address whose text has no zero to leave out, seen through an interface with a
large number. -/
def farAddr (port : UInt16) : SocketAddr := .v6 0xfebfffffffffffffffffffffffffffff port 0 2147483647

def farAddrs : List SocketAddr := [10000, 10001, 10002, 10003, 10004, 10005, 10006, 10007].map farAddr

theorem tooLong_farAddrs : TooLong farAddrs := by
  refine ⟨rfl, ?_⟩
  decide

def seenOften : List HubEvent :=
  .create 0 someSid (.v4 0x0A000002) (farAddr 0).ip ::
    farAddrs.map fun addr => .datagram 0 addr ((encodeHello .provider someSid .quic).getD [])

def helloAfter : HubEvent :=
  .datagram 0 (.v4 0x0A000002 40000) ((encodeHello .visitor someSid .quic).getD [])

theorem not_codec_exact :
    (∃ packet pkt, packet.encode = some pkt ∧ decode pkt ≠ some packet) ∧
      encodePeers .visitor someSid .quic [] = none ∧
      ∃ answer ∈ P2PHub.sends (fun _ => .ok ()) (run (P2PHub.step fun _ => .ok ()) ∅ seenOften) helloAfter,
        answer.2.take 512 ≠ answer.2 := by
  refine ⟨?_, rfl, ?_⟩
  · refine ⟨.peer .visitor someSid .quic (.v6 1 80 1 0), ?_⟩
    obtain ⟨pkt, encoded, read⟩ := (Packet.Writable.peer isSid_someSid .visitor .quic (.v6 1 80 1 0)).decode_encode
    refine ⟨pkt, encoded, ?_⟩
    rw [read]
    decide
  · obtain ⟨pkt, encoded⟩ :=
      exists_encodePeers isSid_someSid .provider .quic (List.cons_ne_nil _ _ : farAddrs ≠ []) (by decide)
    have seen : run (P2PHub.step fun _ => .ok ()) ∅ seenOften = (∅ : P2PHub).insert someSid
        { created := 0, visitorIp := .v4 0x0A000002, providerIp := (farAddr 0).ip,
          provider := some { addrs := farAddrs, transport := .quic, «at» := 0 } } := rfl
    rw [seen]
    refine ⟨_, P2PHub.mem_runRendezvous rfl rfl rfl encoded, fun fits => ?_⟩
    have short : min 512 pkt.length = pkt.length := List.length_take.symm.trans (congrArg List.length fits)
    exact (length_le_iff tooLong_farAddrs.1.le encoded).mp (min_eq_right_iff.mp short) tooLong_farAddrs

end Nfrp.P2p
