import Nfrp.Vnet.Hub

/-!
# Traffic through the switch

Every registration has a queue of its own and a connection that is served by one
task: it hands packets to the switch and writes what comes out of the queue.  A
registration is named by its position in the list of all of them.
-/

namespace Nfrp.Vnet

open Lib

/-- A full queue loses packets, it does not stop the sender. -/
def peerQueue : Nat := 1024

/-- One registration: the network it asked for, its queue, and what was written
to its connection.  An answer of the gateway is made in one critical section and
put into the queue in another; in between it is in the hands of the task. -/
structure Member where
  key : SessionKey
  network : String
  generation : Nat
  inbox : List Packet
  received : List Packet
  reply : Option Packet
  deriving DecidableEq

structure Net where
  hub : VnetHub
  members : List Member

inductive Event where
  /-- The network is what the registration asks for; the switch is not told. -/
  | join (client : SessionKey) (network : String) (want : Option Ipv4Addr)
  | leave (client : SessionKey)
  /-- The connection of a registration has ended. -/
  | dropGuard (i : Nat)
  /-- A packet read from the connection of a registration. -/
  | packet (i : Nat) (pkt : Packet)
  /-- The gateway's answer reaches the queue. -/
  | deliver (i : Nat)
  /-- The next packet of the queue is written to the connection. -/
  | recv (i : Nat)
  deriving DecidableEq

def Event.IsTraffic : Event → Prop
  | .packet .. | .deliver _ | .recv _ => True
  | .join .. | .leave _ | .dropGuard _ => False

/-- A registration with a display name and a random id. -/
def sessionKey (displayName runId : String) : SessionKey :=
  displayName ++ "-" ++ runId

/-- What a connection does with the switch once its first line was read;
`verified` is the answer of the authentication. -/
def serveConn (reg : VnetRegister) (runId : String) (verified : Bool) : Except String Event :=
  if trim reg.client = "" then .error "client 不能为空"
  else if !verified then .error "认证失败"
  else if trim reg.address = "" then .ok (.join (sessionKey reg.client runId) reg.network none)
  else
    match Ipv4Addr.parse (bareAddress reg.address) with
    | some ip => .ok (.join (sessionKey reg.client runId) reg.network (some ip))
    | none => .error ("地址非法：" ++ reg.address)

def Member.push (pkt : Packet) (m : Member) : Member :=
  { m with inbox := m.inbox ++ [pkt] }

def Member.hasRoom (m : Member) : Bool :=
  m.inbox.length < peerQueue

def Member.holdReply (reply : Option Packet) (m : Member) : Member :=
  { m with reply := reply }

def Member.write (m : Member) : Member :=
  { m with inbox := m.inbox.tail, received := m.received ++ m.inbox.take 1 }

namespace Net

def start (hub : VnetHub) : Net := ⟨hub, []⟩

variable (w : Net)

def trySend (pkt : Packet) (i : Nat) : Net :=
  if w.members[i]?.any Member.hasRoom then { w with members := w.members.modify i (Member.push pkt) }
  else { w with hub := { w.hub with droppedFull := w.hub.droppedFull + 1 } }

def others (client : SessionKey) : List Nat :=
  (w.hub.sinks.entries.filter (·.1 ≠ client)).map (·.2)

def deliver (client : SessionKey) (pkt : Packet) : Net :=
  match w.hub.sinks.lookup client with
  | some i => w.trySend pkt i
  | none => w

/-- Whether the packet got through is not asked by the connection it came from. -/
def route (i : Nat) (client : SessionKey) (pkt : Packet) : Net :=
  match parseIpv4 pkt with
  | none => w
  | some h =>
    if h.src ∉ w.hub.routes.ipsOf w.hub.network client then
      { w with hub := { w.hub with droppedSpoofed := w.hub.droppedSpoofed + 1 } }
    else if h.dst = w.hub.gateway then
      match icmpEchoReply pkt with
      | some reply => { w with members := w.members.modify i (Member.holdReply (some reply)) }
      | none => w
    else if h.dst = BitVec.allOnes 32 ∨ h.dst = w.hub.subnet.broadcast then
      (w.others client).foldl (fun w i => w.trySend pkt i) w
    else
      match w.hub.routes.lookup w.hub.network h.dst with
      | none => { w with hub := { w.hub with droppedUnroutable := w.hub.droppedUnroutable + 1 } }
      | some owner =>
        match w.hub.sinks.lookup owner with
        | none => { w with hub := { w.hub with droppedUnroutable := w.hub.droppedUnroutable + 1 } }
        | some j => w.trySend pkt j

def step : Event → Net
  | .join client network want =>
    match w.hub.join client want w.members.length with
    | (.error _, hub) => { w with hub }
    | (.ok joined, hub) =>
      { w with hub, members := w.members ++ [⟨client, network, joined.generation, [], [], none⟩] }
  | .leave client => { w with hub := w.hub.leave client }
  | .dropGuard i =>
    match w.members[i]? with
    | some m => { w with hub := w.hub.leaveIfCurrent m.key m.generation }
    | none => w
  | .packet i pkt =>
    match w.members[i]? with
    -- the task takes no further packet before the answer is in the queue
    | some m => if m.reply.isSome then w else w.route i m.key pkt
    | none => w
  | .deliver i =>
    match w.members[i]? with
    | some m =>
      match m.reply with
      | some reply => { w with members := w.members.modify i (Member.holdReply none) }.deliver m.key reply
      | none => w
    | none => w
  | .recv i => { w with members := w.members.modify i Member.write }

end Net

def VnetHub.tables (g : VnetHub) : VnetHub :=
  { g with droppedUnroutable := 0, droppedFull := 0, droppedSpoofed := 0 }

def Member.registration (m : Member) : SessionKey × String × Nat :=
  (m.key, m.network, m.generation)

theorem map_modify_registration {change : Member → Member}
    (same : ∀ m, (change m).registration = m.registration) (members : List Member) (i : Nat) :
    (members.modify i change).map Member.registration = members.map Member.registration := by
  apply List.ext_getElem?
  intro j
  rw [List.getElem?_map, List.getElem?_map, List.getElem?_modify]
  cases members[j]? with
  | none => rfl
  | some m =>
    by_cases isIndex : i = j
    · simpa [isIndex] using same m
    · simp [isIndex]

namespace Net

variable {w : Net}

def registrations (w : Net) : VnetHub × List (SessionKey × String × Nat) :=
  (w.hub.tables, w.members.map Member.registration)

theorem registrations_trySend (pkt : Packet) (i : Nat) :
    (w.trySend pkt i).registrations = w.registrations := by
  rw [trySend]
  split
  · have same (m : Member) : (m.push pkt).registration = m.registration := rfl
    exact congrArg (Prod.mk _) (map_modify_registration same _ _)
  · rfl

theorem registrations_flood (pkt : Packet) (targets : List Nat) :
    (targets.foldl (fun w i => w.trySend pkt i) w).registrations = w.registrations := by
  induction targets generalizing w with
  | nil => rfl
  | cons i targets ih =>
    rw [List.foldl_cons, ih, registrations_trySend]

theorem registrations_deliver (client : SessionKey) (pkt : Packet) :
    (w.deliver client pkt).registrations = w.registrations := by
  rw [deliver]
  split
  · exact registrations_trySend _ _
  · rfl

theorem registrations_route (i : Nat) (client : SessionKey) (pkt : Packet) :
    (w.route i client pkt).registrations = w.registrations := by
  rw [route]
  split
  · rfl
  split
  · rfl
  split
  · split
    · have same (reply : Packet) (m : Member) : (m.holdReply (some reply)).registration = m.registration := rfl
      exact congrArg (Prod.mk _) (map_modify_registration (same _) _ _)
    · rfl
  split
  · exact registrations_flood _ _
  split
  · rfl
  split
  · rfl
  · exact registrations_trySend _ _

theorem registrations_step {event : Event} (traffic : event.IsTraffic) :
    (w.step event).registrations = w.registrations := by
  cases event with
  | packet i pkt =>
    rw [step]
    split
    · split
      · rfl
      · exact registrations_route _ _ _
    · rfl
  | deliver i =>
    rw [step]
    split
    · split
      · rw [registrations_deliver]
        have same (m : Member) : (m.holdReply none).registration = m.registration := rfl
        exact congrArg (Prod.mk _) (map_modify_registration same _ _)
      · rfl
    · rfl
  | recv i =>
    have same (m : Member) : m.write.registration = m.registration := rfl
    exact congrArg (Prod.mk _) (map_modify_registration same _ _)
  | join | leave | dropGuard => exact traffic.elim

end Net

end Nfrp.Vnet
