import Nfrp.P2p.Packet

/-!
# Bringing two peers together over UDP

Each peer says HELLO from its main socket and some sampling sockets; the server notes
where the packets come from and tells each peer the addresses of the other.  The network
between them loses, repeats and reorders datagrams, and others talk to the server too.
-/

namespace Nfrp.P2p

open Lib

/-- Times are in milliseconds. -/
def sessionTtl : Nat := 60000

def maxSamples : Nat := 8

structure PeerSlot where
  addrs : List SocketAddr
  transport : Transport
  «at» : Nat

/-- The addresses of the control connections are known from the start. -/
structure Session where
  created : Nat
  visitorIp : IpAddr
  providerIp : IpAddr
  visitor : Option PeerSlot := none
  provider : Option PeerSlot := none

namespace Session

def expectedIp (s : Session) : Role → IpAddr
  | .visitor => s.visitorIp
  | .provider => s.providerIp

def get (s : Session) : Role → Option PeerSlot
  | .visitor => s.visitor
  | .provider => s.provider

def put (s : Session) (slot : PeerSlot) : Role → Session
  | .visitor => { s with visitor := some slot }
  | .provider => { s with provider := some slot }

def observe (s : Session) (now : Nat) (role : Role) (addr : SocketAddr) (transport : Transport) : Session :=
  match s.get role with
  | none => s.put { addrs := [addr], transport, «at» := now } role
  | some slot =>
    let addrs := if slot.addrs.length < maxSamples ∧ addr ∉ slot.addrs then slot.addrs ++ [addr] else slot.addrs
    s.put { addrs, transport, «at» := now } role

def fresh (s : Session) (now : Nat) : Bool :=
  now - s.created < sessionTtl && s.visitor.all (fun slot => now - slot.at < sessionTtl) &&
    s.provider.all fun slot => now - slot.at < sessionTtl

end Session

/-- An IPv4 address may be written as an IPv6 address. -/
def norm : IpAddr → IpAddr
  | .v4 addr => .v4 addr
  | .v6 addr => if addr >>> 32 = 0xffff then .v4 (addr.truncate 32) else .v6 addr

def sameHost (a b : IpAddr) : Bool := norm a = norm b

inductive RegisterOutcome where
  | noSession
  | ipMismatch
  | waiting
  | ready (addrs : List SocketAddr) (transport : Transport)

abbrev P2PHub := AList fun _ : String => Session

namespace P2PHub

def reap (hub : P2PHub) (now : Nat) : P2PHub := retain (fun _ s => s.fresh now) hub

def create (hub : P2PHub) (now : Nat) (sid : String) (visitorIp providerIp : IpAddr) : P2PHub :=
  let hub := hub.reap now
  if sid ∈ hub then hub else hub.insert sid { created := now, visitorIp, providerIp }

def register (hub : P2PHub) (now : Nat) (sid : String) (role : Role) (addr : SocketAddr) (transport : Transport) :
    P2PHub × RegisterOutcome :=
  let hub := hub.reap now
  match hub.lookup sid with
  | none => (hub, .noSession)
  | some session =>
    if sameHost addr.ip (session.expectedIp role) then
      let session := session.observe now role addr transport
      let chosen := (session.get .visitor).elim transport (·.transport)
      (hub.insert sid session,
        match session.get role.peer with
        | some other => .ready other.addrs chosen
        | none => .waiting)
    else (hub, .ipMismatch)

def finish (hub : P2PHub) (sid : String) : P2PHub := hub.erase sid

/-- What the server does with a datagram, and what it sends to whom.  The session ends
with the first answer. -/
def runRendezvous (checkIp : IpAddr → Except String Unit) (hub : P2PHub) (now : Nat) (peer : SocketAddr)
    (bytes : List UInt8) : P2PHub × List (SocketAddr × List UInt8) :=
  match checkIp peer.ip with
  | .error _ => (hub, [])
  | .ok _ =>
    match decode (bytes.take 2048) with
    | some (.hello role sid transport) =>
      match hub.register now sid role peer transport with
      | (hub, .ready addrs chosen) =>
        let others := addrs.filterMap fun a => (encodePeers role sid chosen [peer]).map (a, ·)
        match encodePeers role.peer sid chosen addrs with
        | some pkt => (hub.finish sid, (peer, pkt) :: others)
        | none => (hub, others)
      | (hub, _) => (hub, [])
    | _ => (hub, [])

end P2PHub

def punchTimeout : Nat := 8000

def helloInterval : Nat := 200

def predictSamples : Nat := 3

def maxStep : Nat := 32

def maxCandidates : Nat := 48

/-- Ports a peer may be seen under next, after those it was seen under. -/
def predictPorts (samples : List Nat) (window : Nat) : List Nat :=
  let window := max window 1
  match samples, samples.getLast? with
  | [], _ | _, none => []
  | [base], _ => ((base :: (List.range window).map fun k => (base + (k + 1)) % 65536).eraseDups).take maxCandidates
  | samples, some last =>
    let deltas := (samples.zipWith (fun a b => (b + 65536 - a) % 65536) samples.tail).mergeSort
    let step := deltas.getD (deltas.length / 2) 0
    let guessed :=
      if 1 ≤ step ∧ step ≤ maxStep then (List.range window).map fun k => (last + (k + 1) * step) % 65536
      else
        samples.flatMap fun p =>
          (List.range (max (window / 4) 1)).flatMap fun d => [(p + (d + 1)) % 65536, (p + 65536 - (d + 1)) % 65536]
    ((samples ++ guessed).eraseDups).take maxCandidates

def expandCandidates (sampleAddrs : List SocketAddr) (window : Nat) : List SocketAddr :=
  match sampleAddrs with
  | [] => []
  | first :: _ => (predictPorts (sampleAddrs.map (·.port.toNat)) window).map fun port => first.setPort (UInt16.ofNat port)

structure Rendezvous where
  addrs : List SocketAddr
  candidates : List SocketAddr
  transport : Transport

def buildRendezvous (addrs : List SocketAddr) (transport : Transport) (window : Nat) : Rendezvous where
  addrs
  candidates := if 0 < window then expandCandidates addrs window else addrs
  transport

/-- In the loop a call sends, waits for a datagram until its deadline, and sleeps where it
has no use for what came. -/
inductive Phase where
  | receiving
  | sleeping (wake : Nat)
  | returned (result : Except String Rendezvous)

structure Call where
  role : Role
  sid : String
  hello : List UInt8
  main : SocketAddr
  probes : List SocketAddr
  window : Nat
  deadline : Nat
  inbox : List (List UInt8) := []
  phase : Phase := .receiving

structure Datagram where
  src : SocketAddr
  dst : SocketAddr
  bytes : List UInt8
  sent : Nat

namespace Call

variable (c : Call) (now : Nat)

def timedOut : Call :=
  { c with phase := .returned (.error "等待服务端牵线下发对端地址超时（8s）") }

def round (server : SocketAddr) : Call × List Datagram :=
  if c.deadline ≤ now then (c.timedOut, [])
  else
    ({ c with phase := .receiving },
      (c.main :: c.probes).map fun src => { src, dst := server, bytes := c.hello, sent := now })

def receive (bytes : List UInt8) : Call :=
  match decode (bytes.take 512) with
  | some (.peers role sid transport addrs) =>
    if sid = c.sid ∧ role = c.role.peer then { c with phase := .returned (.ok (buildRendezvous addrs transport c.window)) }
    else { c with phase := .sleeping (now + helloInterval) }
  | some (.peer role sid transport addr) =>
    if sid = c.sid ∧ role = c.role.peer then
      { c with phase := .returned (.ok (buildRendezvous [addr] transport c.window)) }
    else { c with phase := .sleeping (now + helloInterval) }
  | _ => { c with phase := .sleeping (now + helloInterval) }

def next : Call :=
  match c.phase, c.inbox with
  | .receiving, bytes :: rest => { c with inbox := rest }.receive now bytes
  | _, _ => c

def arrive (bytes : List UInt8) : Call :=
  match c.phase with
  | .receiving => c.receive now bytes
  | .sleeping _ => { c with inbox := c.inbox ++ [bytes] }
  | .returned _ => c

end Call

/-- A peer: where its control connection comes from, and its sockets as the server sees
them. -/
structure Peer where
  controlIp : IpAddr
  main : SocketAddr
  probes : List SocketAddr
  transport : Transport
  window : Nat

def Peer.sockets (peer : Peer) : List SocketAddr := peer.main :: peer.probes

/-- Two peers of one session.  The source of a datagram has no flow label.  A datagram
that is on its way for longer than `latency` counts as lost; a question and its answer
fit into a second. -/
structure Setting where
  sid : String
  isSid : IsSid sid
  server : SocketAddr
  checkIp : IpAddr → Except String Unit
  created : Nat
  peer : Role → Peer
  latency : Nat
  plain : ∀ role, ∀ a ∈ (peer role).sockets, a.IsPlain
  host : ∀ role, ∀ a ∈ (peer role).sockets, sameHost a.ip (peer role).controlIp
  admitted : ∀ role, ∀ a ∈ (peer role).sockets, checkIp a.ip = .ok ()
  few : ∀ role, (peer role).probes.length < predictSamples
  apart : ((peer .visitor).sockets ++ (peer .provider).sockets ++ [server]).Nodup
  answerFits : 2 * latency < 1000

/-- `calmSince` is when a datagram was lost last, `fullSecond` whether a second without a
loss has passed while both calls went on; no code reads these. -/
structure System where
  now : Nat
  hub : P2PHub
  calls : Role → Option Call := fun _ => none
  inFlight : List Datagram := []
  calmSince : Nat
  fullSecond : Bool := false

def System.setCall (s : System) (role : Role) (c : Call) : System :=
  { s with calls := fun other => if other = role then some c else s.calls other }

inductive Event where
  | tick
  | start (role : Role)
  | deliver (index : Nat)
  | duplicate (index : Nat)
  | lose (index : Nat)
  | wake (role : Role)
  | expire (role : Role)
  | foreign (src : SocketAddr) (bytes : List UInt8)
  | create (sid : String) (visitorIp providerIp : IpAddr)

namespace Setting

variable (p : Setting)

def start : System where
  now := p.created
  hub := P2PHub.create ∅ p.created p.sid (p.peer .visitor).controlIp (p.peer .provider).controlIp
  calmSince := p.created

def isForeign (a : SocketAddr) : Bool :=
  !sameHost a.ip (p.peer .visitor).controlIp && !sameHost a.ip (p.peer .provider).controlIp && a ≠ p.server

/-- The second that ends now is inside both calls, and in the life of the session. -/
def secondPassed (s : System) : Bool :=
  match s.calls .visitor, s.calls .provider with
  | some v, some q =>
    max s.calmSince (max (v.deadline - punchTimeout) (q.deadline - punchTimeout)) + 1000 ≤ s.now ∧
      s.now ≤ v.deadline ∧ s.now ≤ q.deadline ∧ s.now < p.created + sessionTtl
  | _, _ => false

def rendezvous (role : Role) (now : Nat) : Call × List Datagram :=
  let peer := p.peer role
  let deadline := now + punchTimeout
  match encodeHello role p.sid peer.transport with
  | none =>
    ({ role, sid := p.sid, hello := [], main := peer.main, probes := peer.probes, window := peer.window, deadline,
       phase := .returned (.error "sid 长度不是 32，无法编码 HELLO") }, [])
  | some hello =>
    Call.round { role, sid := p.sid, hello, main := peer.main, probes := peer.probes, window := peer.window, deadline }
      now p.server

def serve (s : System) (src : SocketAddr) (bytes : List UInt8) : System :=
  let (hub, answers) := s.hub.runRendezvous p.checkIp s.now src bytes
  { s with
    hub
    inFlight := s.inFlight ++ answers.map fun answer =>
      { src := p.server, dst := answer.1, bytes := answer.2, sent := s.now } }

def arrive (s : System) (d : Datagram) : System :=
  if d.dst = p.server then p.serve s d.src d.bytes
  else
    { s with
      calls := fun role =>
        if d.dst = (p.peer role).main then (s.calls role).map (·.arrive s.now d.bytes) else s.calls role }

def step (s : System) : Event → System
  | .tick =>
    let now := s.now + 1
    let s :=
      { s with now, calmSince := if s.inFlight.any (·.sent + p.latency < now) then now else s.calmSince }
    { s with fullSecond := s.fullSecond || p.secondPassed s }
  | .start role =>
    match s.calls role with
    | some _ => s
    | none =>
      let (c, sends) := p.rendezvous role s.now
      { s with inFlight := s.inFlight ++ sends }.setCall role c
  | .deliver index =>
    match s.inFlight[index]? with
    | none => s
    | some d => p.arrive { s with inFlight := s.inFlight.eraseIdx index } d
  | .duplicate index => { s with inFlight := s.inFlight ++ s.inFlight[index]?.toList }
  | .lose index =>
    match s.inFlight[index]? with
    | none => s
    | some _ => { s with inFlight := s.inFlight.eraseIdx index, calmSince := s.now }
  | .wake role =>
    match s.calls role with
    | none => s
    | some c =>
      match c.phase with
      | .sleeping wake =>
        if wake ≤ s.now then
          let (c, sends) := c.round s.now p.server
          { s with inFlight := s.inFlight ++ sends }.setCall role (c.next s.now)
        else s
      | _ => s
  | .expire role =>
    match s.calls role with
    | none => s
    | some c =>
      match c.phase with
      | .receiving => if c.deadline ≤ s.now then s.setCall role c.timedOut else s
      | _ => s
  | .foreign src bytes => if p.isForeign src then p.serve s src bytes else s
  | .create sid visitorIp providerIp =>
    if sid = p.sid then s else { s with hub := s.hub.create s.now sid visitorIp providerIp }

end Setting

end Nfrp.P2p
