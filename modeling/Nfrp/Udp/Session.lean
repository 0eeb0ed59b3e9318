import Nfrp.Lib.Seen
import Nfrp.Udp.Packet

/-!
# A session of a UDP proxy

A reader takes datagrams from the public socket and queues them for the session, which
sends them over its work connection and answers the visitors.  It answers no address
that was not seen.
-/

namespace Nfrp.Udp

open Lib hiding SocketAddr
open Nfrp.P2p

def maxSeenVisitorIps : Nat := 4096

abbrev SeenVisitorIps := Finset IpAddr

namespace SeenVisitorIps

def record (seen : SeenVisitorIps) (ip : IpAddr) : SeenVisitorIps := noteSeen maxSeenVisitorIps seen ip

/-- The port does not matter. -/
def allows (seen : SeenVisitorIps) (ip : IpAddr) : Bool := ip ∈ seen

end SeenVisitorIps

/-- Packets that fit between the reader and the session. -/
def sessionCapacity : Nat := 1024

inductive Reader where
  | receiving
  | sending (pkt : UdpPacket)
  | stopped
  deriving DecidableEq, Repr

/-- A session after its StartWorkConn.  It runs as long as it has no result.  No code
reads the fields behind that: the addresses of the datagrams the access control let
pass, what went over the work connection, which datagrams were sent and where none was
sent, and how often the socket failed. -/
structure Session where
  seen : SeenVisitorIps := ∅
  reader : Reader := .receiving
  toClient : List UdpPacket := []
  result : Option (Except String Unit) := none
  ips : List IpAddr := []
  forwarded : List UdpPacket := []
  sent : List (SocketAddr × List UInt8) := []
  refused : List SocketAddr := []
  errors : Nat := 0

/-- What the access control says of a source is said when the datagram is there. -/
inductive Event where
  | datagram (src : SocketAddr) (bytes : List UInt8) (allowed : Except String Unit)
  | receiveError
  | room
  | message (received : Except String (Option FrpMessage))
  | forward (outcome : Except String Unit)
  | keepalive

namespace Session

/-- The reader gives a packet to the session, or waits until there is room for it. -/
def offer (s : Session) (pkt : UdpPacket) : Session :=
  if s.toClient.length < sessionCapacity then { s with toClient := s.toClient ++ [pkt], reader := .receiving }
  else { s with reader := .sending pkt }

def stop (s : Session) (result : Except String Unit) : Session :=
  { s with result := some result, reader := .stopped }

def answer (s : Session) (pkt : UdpPacket) : Session :=
  match pkt.remoteAddr.bind (·.toSocket) with
  | none => s
  | some dst =>
    if s.seen.allows dst.ip then { s with sent := s.sent ++ [(dst, pkt.payload)] }
    else { s with refused := s.refused ++ [dst] }

def step (packetSize : Nat) (s : Session) (event : Event) : Session :=
  if s.result.isSome then s
  else
    match event with
    | .datagram src bytes allowed =>
      match s.reader, allowed with
      | .receiving, .ok _ =>
        { s with seen := s.seen.record src.ip, ips := s.ips ++ [src.ip] }.offer
          (.new (bytes.take packetSize) src)
      | _, _ => s
    | .receiveError =>
      match s.reader with
      | .receiving => { s with reader := .stopped, errors := s.errors + 1 }
      | _ => s
    | .room =>
      match s.reader with
      | .sending pkt => s.offer pkt
      | _ => s
    | .message (.error e) => s.stop (.error e)
    | .message (.ok none) => s.stop (.ok ())
    | .message (.ok (some (.udpPacket pkt))) => s.answer pkt
    | .message (.ok (some _)) => s
    | .forward outcome =>
      match s.toClient, outcome with
      | [], _ => s
      | pkt :: rest, .ok _ => { s with toClient := rest, forwarded := s.forwarded ++ [pkt] }
      | _ :: _, .error _ => s.stop (.error "UDP 报文写往工作连接失败")
    | .keepalive => s

def CameFrom (ips : List IpAddr) (pkt : UdpPacket) : Prop :=
  ∃ src bytes, src.ip ∈ ips ∧ pkt = .new bytes src

structure Sound (s : Session) : Prop where
  seen : s.seen = seenAfter maxSeenVisitorIps s.ips
  sent : ∀ d ∈ s.sent, d.1.ip ∈ s.ips
  queued : ∀ pkt ∈ s.toClient, CameFrom s.ips pkt
  waiting : ∀ pkt, s.reader = .sending pkt → CameFrom s.ips pkt
  forwarded : ∀ pkt ∈ s.forwarded, CameFrom s.ips pkt
  reader : s.result = none → s.errors = 0 → s.reader ≠ .stopped

variable {s : Session}

theorem CameFrom.more {ips : List IpAddr} {pkt : UdpPacket} (came : CameFrom ips pkt) (later : List IpAddr) :
    CameFrom (ips ++ later) pkt := by
  obtain ⟨src, bytes, member, rfl⟩ := came
  exact ⟨src, bytes, List.mem_append_left _ member, rfl⟩

theorem Sound.offer (sound : s.Sound) {pkt : UdpPacket} (came : CameFrom s.ips pkt) : (s.offer pkt).Sound := by
  rw [Session.offer]
  split
  · exact { sound with
      queued := List.forall_mem_append.mpr ⟨sound.queued, List.forall_mem_singleton.mpr came⟩
      waiting := fun pkt isSending => nomatch isSending
      reader := fun _ _ isStopped => nomatch isStopped }
  · exact { sound with
      waiting := fun other isSending => Reader.sending.inj isSending ▸ came
      reader := fun _ _ isStopped => nomatch isStopped }

theorem Sound.stop (sound : s.Sound) (result : Except String Unit) : (s.stop result).Sound :=
  { sound with
    waiting := fun _ isSending => nomatch isSending
    reader := fun running => nomatch running }

theorem Sound.record (sound : s.Sound) (ip : IpAddr) (notWaiting : s.reader = .receiving) :
    Sound { s with seen := s.seen.record ip, ips := s.ips ++ [ip] } where
  seen := by rw [seenAfter_append, ← sound.seen]; rfl
  sent := fun d member => List.mem_append_left _ (sound.sent d member)
  queued := fun pkt member => (sound.queued pkt member).more _
  waiting := fun pkt isSending => (nomatch notWaiting.symm.trans isSending)
  forwarded := fun pkt member => (sound.forwarded pkt member).more _
  reader := fun running noError => sound.reader running noError

theorem Sound.answer (sound : s.Sound) (pkt : UdpPacket) : (s.answer pkt).Sound := by
  rw [Session.answer]
  split
  next => exact sound
  next dst isDst =>
    split
    next allowed =>
      have isSeen : dst.ip ∈ s.seen := of_decide_eq_true allowed
      rw [sound.seen] at isSeen
      have member := List.mem_toFinset.mp (seenAfter_subset _ isSeen)
      exact { sound with sent := List.forall_mem_append.mpr ⟨sound.sent, List.forall_mem_singleton.mpr member⟩ }
    next => exact { sound with }

theorem Sound.step (sound : s.Sound) (packetSize : Nat) (event : Event) : (s.step packetSize event).Sound := by
  unfold Session.step
  split
  next => exact sound
  next running =>
    split
    next src bytes allowed =>
      split
      next isReceiving =>
        exact (sound.record src.ip isReceiving).offer ⟨src, _, List.mem_append_right _ (List.mem_singleton_self _), rfl⟩
      next => exact sound
    next =>
      split
      next => exact { sound with
        waiting := fun _ isSending => nomatch isSending
        reader := fun _ noError => nomatch noError }
      next => exact sound
    next =>
      split
      next pkt isSending => exact sound.offer (sound.waiting pkt isSending)
      next => exact sound
    next => exact sound.stop _
    next => exact sound.stop _
    next pkt => exact sound.answer pkt
    next => exact sound
    next outcome =>
      split
      next => exact sound
      next pkt rest _ queue =>
        have all := List.forall_mem_cons.mp (queue ▸ sound.queued)
        exact { sound with
          queued := all.2
          forwarded := List.forall_mem_append.mpr ⟨sound.forwarded, List.forall_mem_singleton.mpr all.1⟩ }
      next => exact sound.stop _
    next => exact sound

theorem sound_start : Sound {} where
  seen := rfl
  sent := List.forall_mem_nil _
  queued := List.forall_mem_nil _
  waiting := nofun
  forwarded := List.forall_mem_nil _
  reader := nofun

structure Answering (s : Session) : Prop where
  toVisitors : ∀ d ∈ s.sent, d.1.ip ∈ s.ips
  replies : ∀ src bytes, .new bytes src ∈ s.forwarded → ¬Forgotten maxSeenVisitorIps s.ips src.ip →
    ∀ reply : UdpPacket, reply.remoteAddr = some (.fromSocket src) →
      s.answer reply = { s with sent := s.sent ++ [(.new src.ip src.port, reply.payload)] }
  reads : s.result = none → s.errors = 0 → s.reader ≠ .stopped

theorem fromSocket_ip_inj {a b : SocketAddr} (same : UdpAddr.fromSocket a = .fromSocket b) : a.ip = b.ip := by
  have sockets := congrArg UdpAddr.toSocket same
  rw [toSocket_fromSocket, toSocket_fromSocket] at sockets
  have ips := congrArg P2p.SocketAddr.ip (Option.some.inj sockets)
  rwa [P2p.SocketAddr.ip_new, P2p.SocketAddr.ip_new] at ips

theorem Sound.answering (sound : s.Sound) : s.Answering where
  toVisitors := sound.sent
  replies := by
    intro src bytes isForwarded remembered reply isReply
    obtain ⟨other, otherBytes, member, same⟩ := sound.forwarded _ isForwarded
    have sameIp : src.ip = other.ip := fromSocket_ip_inj (Option.some.inj (congrArg UdpPacket.remoteAddr same))
    rw [← sameIp] at member
    have allowed : s.seen.allows src.ip := by
      rw [← notMem_seenAfter_iff member, not_not, ← sound.seen] at remembered
      exact decide_eq_true remembered
    rw [Session.answer, isReply, Option.bind_some, toSocket_fromSocket]
    dsimp only
    rw [P2p.SocketAddr.ip_new, if_pos allowed]
  reads := sound.reader

/-- In every run a session sends datagrams to visitors only, answers each visitor it has
not forgotten, and reads from its socket as long as that has not failed. -/
theorem answering_throughout (packetSize : Nat) (events : List Event) :
    Throughout (Session.step packetSize) Answering {} events :=
  throughout_of_runMeets (fun _ event _ sound => sound.step packetSize event) (fun _ sound => sound.answering) sound_start
    (runMeets_of_forall (fun _ _ => trivial) _ events)

/-- A datagram from each address, sent on to the client at once. -/
def visits (addrs : List SocketAddr) : List Event :=
  addrs.flatMap fun src => [.datagram src [] (.ok ()), .forward (.ok ())]

theorem run_visits (packetSize : Nat) (addrs : List SocketAddr) (receiving : s.reader = .receiving)
    (empty : s.toClient = []) (running : s.result = none) :
    ∃ seen, run (Session.step packetSize) s (visits addrs) =
      { s with seen, ips := s.ips ++ addrs.map (·.ip), forwarded := s.forwarded ++ addrs.map (.new []) } := by
  induction addrs generalizing s with
  | nil => exact ⟨s.seen, by simp [visits, run]⟩
  | cons src addrs ih =>
    have visited : ((s.step packetSize (.datagram src [] (.ok ()))).step packetSize (.forward (.ok ()))) =
        { s with seen := s.seen.record src.ip, ips := s.ips ++ [src.ip], forwarded := s.forwarded ++ [.new [] src] } := by
      simp [Session.step, running, receiving, empty, offer, sessionCapacity]
    obtain ⟨seen, later⟩ := ih
      (s := { s with seen := s.seen.record src.ip, ips := s.ips ++ [src.ip], forwarded := s.forwarded ++ [.new [] src] })
      receiving empty running
    refine ⟨seen, ?_⟩
    rw [visits, List.flatMap_cons, List.cons_append, List.cons_append, List.nil_append, run_cons, run_cons, visited]
    simpa [visits] using later

def visitor (n : Nat) : SocketAddr := .v4 (BitVec.ofNat 32 n) 40000

def crowd : List SocketAddr := (List.range (maxSeenVisitorIps + 1)).map visitor

theorem forgotten_crowd : Forgotten maxSeenVisitorIps (crowd.map (·.ip)) (visitor 0).ip := by
  obtain ⟨limit, isLimit⟩ : ∃ limit, limit = maxSeenVisitorIps := ⟨_, rfl⟩
  have small : limit < 2 ^ 32 := by rw [isLimit, maxSeenVisitorIps]; decide
  have positive : 0 < limit := by rw [isLimit, maxSeenVisitorIps]; decide
  have inj : ∀ m ≤ limit, ∀ n ≤ limit, (visitor m).ip = (visitor n).ip → m = n := by
    intro m below n alsoBelow same
    have numbers := congrArg BitVec.toNat (IpAddr.v4.inj same)
    rw [BitVec.toNat_ofNat, BitVec.toNat_ofNat, Nat.mod_eq_of_lt (by omega), Nat.mod_eq_of_lt (by omega)] at numbers
    exact numbers
  rw [crowd, ← isLimit, List.range_succ, List.map_append, List.map_append, List.map_map]
  refine ⟨_, (visitor limit).ip, [], rfl, fun same => ?_, List.not_mem_nil, ?_⟩
  · exact positive.ne' (inj limit le_rfl 0 (Nat.zero_le _) same)
  · have nodup : ((List.range limit).map (P2p.SocketAddr.ip ∘ visitor)).Nodup := by
      refine List.Nodup.map_on (fun m below n alsoBelow same => ?_) List.nodup_range
      exact inj m (List.mem_range.mp below).le n (List.mem_range.mp alsoBelow).le same
    have length : ((List.range limit).map (P2p.SocketAddr.ip ∘ visitor)).length = limit := by
      rw [List.length_map, List.length_range]
    exact (card_seenAfter_of_nodup nodup length.le).trans length |>.ge

theorem not_answering_crowd :
    (∃ s, run (Session.step 1500) {} (visits crowd) = s ∧ UdpPacket.new [] (visitor 0) ∈ s.forwarded ∧
      s.result = none ∧ (s.answer (.new [] (visitor 0))).refused = [visitor 0]) ∧
    ∃ s, run (Session.step 1500) {} [.receiveError] = s ∧ s.result = none ∧ s.reader = .stopped ∧
      ∀ src bytes allowed, s.step 1500 (.datagram src bytes allowed) = s := by
  constructor
  · obtain ⟨seen, last⟩ := run_visits (s := {}) 1500 crowd rfl rfl rfl
    have sound : Sound (run (Session.step 1500) {} (visits crowd)) :=
      run_invariant (fun _ event sound => sound.step 1500 event) sound_start _
    have isVisitor : visitor 0 ∈ crowd := List.mem_map.mpr ⟨0, List.mem_range.mpr (Nat.succ_pos _), rfl⟩
    refine ⟨_, last, List.mem_append_right _ (List.mem_map.mpr ⟨_, isVisitor, rfl⟩), rfl, ?_⟩
    have notSeen : (visitor 0).ip ∉ seen := by
      have member : (visitor 0).ip ∈ crowd.map (·.ip) := List.mem_map.mpr ⟨_, isVisitor, rfl⟩
      have isSeen : seen = seenAfter maxSeenVisitorIps (crowd.map (·.ip)) := by
        have same := sound.seen
        rw [last] at same
        simpa only [List.nil_append] using same
      have gone := (notMem_seenAfter_iff member).mpr forgotten_crowd
      rwa [← isSeen] at gone
    have refuses : SeenVisitorIps.allows seen (visitor 0).ip = false := decide_eq_false notSeen
    have isDst : (UdpPacket.new [] (visitor 0)).remoteAddr.bind (·.toSocket) = some (visitor 0) :=
      toSocket_fromSocket (visitor 0)
    rw [Session.answer, isDst]
    dsimp only
    rw [refuses]
    rfl
  · exact ⟨_, rfl, rfl, rfl, fun _ _ _ => rfl⟩

end Session

end Nfrp.Udp
