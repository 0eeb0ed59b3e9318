import Nfrp.Lib.Runs
import Nfrp.Lib.Tally

/-!
# Quotas of user connections

A user connection holds one slot of the server and one of the client it goes to, and
gives both back when it is dropped.  Each kind of proxy has its own way from the user to
the work connection.
-/

namespace Nfrp

open Lib

inductive Permit where
  | unlimited
  | counted
  deriving DecidableEq, Repr

/-- A semaphore, or, with `max` zero, no limit. -/
structure Limit where
  max : Nat
  available : Nat
  deriving DecidableEq, Repr

namespace Limit

def new (max : Nat) : Limit := ⟨max, max⟩

def tryAcquire (l : Limit) : Option (Permit × Limit) :=
  if l.max = 0 then some (.unlimited, l)
  else if l.available = 0 then none
  else some (.counted, { l with available := l.available - 1 })

def release (l : Limit) (count : Nat) : Limit :=
  { l with available := l.available + count }

end Limit

namespace Quota

/-- How a user comes to a client: a public port, a virtual host, a visitor that is
relayed, or a visitor of a UDP service. -/
inductive Path where
  | port
  | virtualHost
  | relayVisitor
  | sudpVisitor
  deriving DecidableEq, Repr

inductive Stage where
  | accepted
  | queued (since : Nat)
  | awaiting
  | relaying
  deriving DecidableEq, Repr

structure ConnSlot where
  global : Permit
  client : Permit
  deriving DecidableEq, Repr

/-- What a user connection and the work connection it was given hold. -/
structure UserConn where
  id : Nat
  client : Nat
  path : Path
  stage : Stage
  slot : Option ConnSlot
  queuePermit : Option Permit := none
  idlePermit : Option Permit := none
  deriving DecidableEq, Repr

structure WorkItem where
  since : Nat
  idlePermit : Option Permit
  deriving DecidableEq, Repr

structure ClientState where
  connLimit : Limit
  backlogLimit : Limit
  idleWorkLimit : Limit
  suspended : Bool := false
  stopped : Bool := false
  work : List WorkItem := []

structure ServerLimits where
  maxTotalConns : Nat := 0
  maxConnsPerClient : Nat := 0
  maxPendingPerClient : Nat := 0
  maxPoolCount : Nat := 0
  idleTimeout : Nat := 60
  userConnTimeout : Nat := 10

/-- The clients of one run of the server, those that are gone included, and the user
connections in the order they came. -/
structure Server where
  limits : ServerLimits
  connLimit : Limit
  clients : Nat → Option ClientState := fun _ => none
  conns : List UserConn := []

def ClientState.new (limits : ServerLimits) : ClientState where
  connLimit := .new limits.maxConnsPerClient
  backlogLimit := .new limits.maxPendingPerClient
  idleWorkLimit :=
    .new
      (match limits.maxPendingPerClient, limits.maxPoolCount with
      | 0, m => m
      | b, 0 => b
      | b, m => min b m)

def Server.start (limits : ServerLimits) : Server where
  limits
  connLimit := .new limits.maxTotalConns

def Stage.isQueued : Stage → Bool
  | queued _ => true
  | _ => false

def Stage.expired (now timeout : Nat) : Stage → Bool
  | queued since => timeout < now - since
  | _ => false

namespace UserConn

def holdsGlobal (u : UserConn) : Bool := u.slot.any (·.global = .counted)

def holdsClient (u : UserConn) : Bool := u.slot.any (·.client = .counted)

def takeSlot (u : UserConn) : UserConn := { u with slot := none }

/-- A request to a virtual host that asks for a work connection. -/
def requested (id c : Nat) : UserConn where
  id
  client := c
  path := .virtualHost
  stage := .awaiting
  slot := none

end UserConn

def ConnSlot.acquire (global client : Limit) : Option (ConnSlot × Limit × Limit) :=
  match global.tryAcquire with
  | none => none
  | some (globalPermit, global) =>
    match client.tryAcquire with
    | some (clientPermit, client) => some (⟨globalPermit, clientPermit⟩, global, client)
    | none => none

namespace Server

variable (s : Server)

def find (id : Nat) : Option UserConn := s.conns.find? (·.id = id)

def put (c : Nat) (client : ClientState) : Server :=
  { s with clients := Function.update s.clients c (some client) }

def change (id : Nat) (f : UserConn → UserConn) : Server :=
  { s with conns := s.conns.map fun u => if u.id = id then f u else u }

def drop (gone : UserConn → Bool) : Server :=
  { s with
    connLimit := s.connLimit.release (s.conns.countP fun u => gone u && u.holdsGlobal)
    clients := fun c => (s.clients c).map fun client =>
      { client with
        connLimit := client.connLimit.release (s.conns.countP fun u => gone u && (u.client == c && u.holdsClient))
        backlogLimit := client.backlogLimit.release
          (s.conns.countP fun u => gone u && (u.client == c && u.queuePermit = some .counted))
        idleWorkLimit := client.idleWorkLimit.release
          (s.conns.countP fun u => gone u && (u.client == c && u.idlePermit = some .counted)) }
    conns := s.conns.filter fun u => !gone u }

/-- A task ends that held the slot of a connection which goes on. -/
def dropSlot (id : Nat) : Server :=
  { s with
    connLimit := s.connLimit.release (s.conns.countP fun u => u.id == id && u.holdsGlobal)
    clients := fun c => (s.clients c).map fun client =>
      { client with
        connLimit := client.connLimit.release (s.conns.countP fun u => u.id == id && (u.client == c && u.holdsClient)) }
    conns := s.conns.map fun u => if u.id = id then u.takeSlot else u }

/-- The users that wait for a work connection of the client, the first to come first. -/
def users (c : Nat) : List UserConn := s.conns.filter fun u => u.client == c && u.stage.isQueued

/-- Users and work connections that have waited too long, as far as they are at the front. -/
def reap (c now : Nat) : Server :=
  let late := (s.users c).takeWhile (·.stage.expired now s.limits.userConnTimeout)
  let s := s.drop fun u => late.any (·.id == u.id)
  match s.clients c with
  | none => s
  | some client =>
    let old := client.work.takeWhile fun w => decide (s.limits.idleTimeout < now - w.since)
    s.put c
      { client with
        work := client.work.drop old.length
        idleWorkLimit := client.idleWorkLimit.release (old.countP fun w => w.idlePermit = some .counted) }

def enter (id c : Nat) (path : Path) : Option Server :=
  match s.clients c with
  | none => none
  | some client =>
    match ConnSlot.acquire s.connLimit client.connLimit with
    | none => none
    | some (slot, connLimit, clientLimit) =>
      some
        { s.put c { client with connLimit := clientLimit } with
          connLimit
          conns := s.conns ++ [{ id, client := c, path, stage := .accepted, slot := some slot }] }

def live (c : Nat) : Bool :=
  (s.clients c).any fun client => !client.suspended && !client.stopped

def pair (id c : Nat) (client : ClientState) (item : WorkItem) (rest : List WorkItem) : Server :=
  (s.put c { client with work := rest }).change id fun u =>
    { u with stage := .relaying, idlePermit := item.idlePermit }

def enqueue (id c now : Nat) (client : ClientState) : Server :=
  match client.backlogLimit.tryAcquire with
  | none => s.drop fun u => u.id == id
  | some (permit, backlogLimit) =>
    (s.put c { client with backlogLimit }).change id fun u =>
      { u with stage := .queued now, queuePermit := some permit }

def submitUser (id c now : Nat) : Server :=
  if s.live c then
    let s := s.reap c now
    match s.clients c with
    | none => s
    | some client =>
      match client.work with
      | item :: rest => s.pair id c client item rest
      | [] => s.enqueue id c now client
  else s.drop fun u => u.id == id

def submitWork (c now : Nat) : Server :=
  let s := s.reap c now
  match s.users c with
  | u :: _ => s.change u.id fun u => { u with stage := .relaying }
  | [] =>
    match s.clients c with
    | none => s
    | some client =>
      match client.idleWorkLimit.tryAcquire with
      | none => s
      | some (permit, idleWorkLimit) =>
        s.put c { client with work := client.work ++ [⟨now, some permit⟩], idleWorkLimit }

/-- A task that waits for a work connection looks whether there is one.  The task of a
UDP visitor ends when its connection is relayed. -/
def acquireWorkConn (u : UserConn) : Server :=
  match s.clients u.client with
  | none => s
  | some client =>
    if client.stopped then s.drop fun other => other.id == u.id
    else
      match client.work with
      | [] => s
      | item :: rest =>
        let paired := s.pair u.id u.client client item rest
        if u.path = .sudpVisitor then paired.dropSlot u.id else paired

def stop (c : Nat) : Server :=
  match s.clients c with
  | none => s
  | some client =>
    s.put c
      { client with
        stopped := true
        work := []
        idleWorkLimit := client.idleWorkLimit.release (client.work.countP fun w => w.idlePermit = some .counted) }

end Server

/-- `forgotten` is when nothing holds a client any more that was stopped; `awaits` is
when the task of a visitor that was let in asks for a work connection. -/
inductive Event where
  | login (c : Nat)
  | suspend (c : Nat)
  | resume (c : Nat)
  | stop (c : Nat)
  | forgotten (c : Nat)
  | user (id c now : Nat)
  | visitor (id c : Nat) (sudp : Bool)
  | request (id c : Nat)
  | awaits (id : Nat)
  | woken (id : Nat)
  | timeout (id : Nat)
  | work (c now : Nat)
  | ended (id : Nat)

def step (s : Server) : Event → Server
  | .login c => if (s.clients c).isSome then s else s.put c (.new s.limits)
  | .suspend c =>
    match s.clients c with
    | some client => if client.stopped then s else s.put c { client with suspended := true }
    | none => s
  | .resume c =>
    match s.clients c with
    | some client => if client.stopped then s else s.put c { client with suspended := false }
    | none => s
  | .stop c => s.stop c
  | .forgotten c =>
    if (s.clients c).any (·.stopped) then s.drop fun u => u.client == c && u.stage.isQueued else s
  | .user id c now =>
    if (s.find id).isSome then s
    else
      match s.enter id c .port with
      | some s => s.submitUser id c now
      | none => s
  | .visitor id c sudp =>
    if (s.find id).isSome then s else (s.enter id c (if sudp then .sudpVisitor else .relayVisitor)).getD s
  | .request id c =>
    if (s.find id).isSome then s
    else if s.live c then
      { s with conns := s.conns ++ [.requested id c] }
    else s
  | .awaits id =>
    match s.find id with
    | some u =>
      if u.stage = .accepted then
        if s.live u.client then s.change id fun u => { u with stage := .awaiting }
        else s.drop fun u => u.id == id
      else s
    | none => s
  | .woken id =>
    match s.find id with
    | some u => if u.stage = .awaiting then s.acquireWorkConn u else s
    | none => s
  | .timeout id =>
    match s.find id with
    | some u => if u.stage = .awaiting then s.drop fun u => u.id == id else s
    | none => s
  | .work c now => s.submitWork c now
  | .ended id =>
    match s.find id with
    | some u => if u.stage = .relaying then s.drop fun u => u.id == id else s
    | none => s

/-- The slots that are held are those of the connections, and the limits hold of both. -/
structure Kept (s : Server) : Prop where
  total : s.limits.maxTotalConns = 0 ∨ s.conns.length ≤ s.limits.maxTotalConns
  perClient : ∀ c, s.limits.maxConnsPerClient = 0 ∨
    s.conns.countP (fun u => u.client == c) ≤ s.limits.maxConnsPerClient
  slots : ∀ u ∈ s.conns, u.slot.isSome
  totalUsed : s.limits.maxTotalConns = 0 ∨ s.connLimit.available + s.conns.length = s.limits.maxTotalConns
  clientUsed : ∀ c client, s.clients c = some client → s.limits.maxConnsPerClient = 0 ∨
    client.connLimit.available + s.conns.countP (fun u => u.client == c) = s.limits.maxConnsPerClient

/-- A request to a virtual host comes to a client, or a UDP visitor is given its work
connection. -/
def Unslotted (s : Server) : Event → Prop
  | .request id c => s.find id = none ∧ s.live c
  | .woken id =>
    ∃ u client item rest, s.find id = some u ∧ u.stage = .awaiting ∧ u.path = .sudpVisitor ∧
      s.clients u.client = some client ∧ client.stopped = false ∧ client.work = item :: rest
  | _ => False

end Quota

end Nfrp
