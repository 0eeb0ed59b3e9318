import Nfrp.Udp.Packet

/-!
# Sessions of visitors

The client gives every visitor a socket of its own to the inner service.  One task takes the
visitor's packets from a queue and sends them, another waits for replies; the table of the
sessions is shared with the task that reads the work connection.
-/

namespace Nfrp.Udp

open Lib hiding SocketAddr
open Nfrp.P2p

/-- Milliseconds. -/
def sessionIdle : Nat := 30000

/-- Datagrams that fit between the reader of the connection and a session. -/
def visitorCapacity : Nat := 256

/-- Replies that fit between the sessions and the connection. -/
def replyCapacity : Nat := 1024

/-- The task that waits for replies: it listens since some time, hands a reply over, has left
its loop, or is gone. -/
inductive ReplyTask where
  | receiving (since : Nat)
  | replying (pkt : UdpPacket)
  | leaving
  | ended
  deriving DecidableEq

def ReplyTask.since? : ReplyTask → Option Nat
  | .receiving since => some since
  | _ => none

structure VisitorSession where
  remote : UdpAddr
  queue : List (List UInt8) := []
  senderRuns : Bool := true
  receiver : ReplyTask
  sentAt : List Nat := []
  repliedAt : List Nat := []
  deriving DecidableEq

inductive Dispatcher where
  | selecting
  | creating (remote : UdpAddr) (payload : List UInt8)
  | spawned (key : String) (i : Nat) (payload : List UInt8)
  | sending (key : String) (i : Nat) (payload : List UInt8)
  | stopped
  deriving DecidableEq

/-- A reply stands with the visitor whose session received it.  No code reads that, nor what
was written, nor when a session was given up as idle and when datagrams had passed there. -/
structure UdpWork where
  now : Nat := 0
  sessions : List VisitorSession := []
  entries : String → Option Nat := fun _ => none
  dispatcher : Dispatcher := .selecting
  toServer : List (UdpAddr × UdpPacket) := []
  written : List (UdpAddr × UdpPacket) := []
  reclaimed : List (Nat × List Nat) := []

inductive DispatchAction where
  | message (received : Except String (Option FrpMessage))
  | create (outcome : Except String Unit)
  | insert
  | send
  | write (outcome : Except String Unit)

inductive TaskAction where
  | sendLocal (outcome : Except String Unit)
  | closeLocal
  | reply (bytes : List UInt8)
  | replied
  | receiveError
  | idle
  | remove

inductive WorkEvent where
  | elapse (time : Nat)
  | dispatch (action : DispatchAction)
  | task (i : Nat) (action : TaskAction)

namespace UdpWork

def finish (s : UdpWork) : UdpWork := { s with entries := fun _ => none, dispatcher := .stopped, toServer := [] }

def receive (s : UdpWork) (pkt : UdpPacket) : UdpWork :=
  match pkt.remoteAddr with
  | none => s
  | some remote =>
    match s.entries remote.key with
    | some i => { s with dispatcher := .sending remote.key i pkt.payload }
    | none => { s with dispatcher := .creating remote pkt.payload }

def create (s : UdpWork) (remote : UdpAddr) (payload : List UInt8) : UdpWork :=
  { s with
    sessions := s.sessions ++ [{ remote, receiver := .receiving s.now }]
    dispatcher := .spawned remote.key s.sessions.length payload }

/-- Where nobody takes from the queue, whatever has the key is taken out. -/
def send (s : UdpWork) (key : String) (i : Nat) (payload : List UInt8) : UdpWork :=
  match s.sessions[i]? with
  | none => s
  | some v =>
    if v.senderRuns then
      if v.queue.length < visitorCapacity then
        { s with sessions := s.sessions.set i { v with queue := v.queue ++ [payload] }, dispatcher := .selecting }
      else s
    else { s with entries := Function.update s.entries key none, dispatcher := .selecting }

/-- Only packets matter, and the end of the connection. -/
def message (s : UdpWork) : Except String (Option FrpMessage) → UdpWork
  | .ok (some (.udpPacket pkt)) => s.receive pkt
  | .ok (some _) => s
  | _ => s.finish

def dispatch (s : UdpWork) : DispatchAction → UdpWork
  | .message received =>
    match s.dispatcher with
    | .selecting => s.message received
    | _ => s
  | .create outcome =>
    match s.dispatcher with
    | .creating remote payload =>
      match outcome with
      | .ok _ => s.create remote payload
      | .error _ => { s with dispatcher := .selecting }
    | _ => s
  | .insert =>
    match s.dispatcher with
    | .spawned key i payload =>
      { s with entries := Function.update s.entries key (some i), dispatcher := .sending key i payload }
    | _ => s
  | .send =>
    match s.dispatcher with
    | .sending key i payload => s.send key i payload
    | _ => s
  | .write outcome =>
    match s.dispatcher, s.toServer with
    | .selecting, reply :: rest =>
      match outcome with
      | .ok _ => { s with toServer := rest, written := s.written ++ [reply] }
      | .error _ => s.finish
    | _, _ => s

/-- Somebody can still put something into the queue of the session. -/
def reaches (s : UdpWork) (key : String) (i : Nat) : Prop :=
  s.entries key = some i ∨
    match s.dispatcher with
    | .spawned _ j _ | .sending _ j _ => j = i
    | _ => False

instance (s : UdpWork) (key : String) (i : Nat) : Decidable (s.reaches key i) := by
  unfold reaches
  cases s.dispatcher <;> infer_instance

def put (s : UdpWork) (i : Nat) (v : VisitorSession) : UdpWork := { s with sessions := s.sessions.set i v }

def act (packetSize : Nat) (s : UdpWork) (i : Nat) (v : VisitorSession) : TaskAction → UdpWork
  | .sendLocal outcome =>
    match v.senderRuns, v.queue with
    | true, _ :: rest =>
      match outcome with
      | .ok _ => s.put i { v with queue := rest, sentAt := v.sentAt ++ [s.now] }
      | .error _ => s.put i { v with queue := [], senderRuns := false }
    | _, _ => s
  | .closeLocal =>
    if v.queue = [] ∧ ¬s.reaches v.remote.key i then s.put i { v with senderRuns := false } else s
  | .reply bytes =>
    match v.receiver with
    | .receiving _ =>
      match v.remote.toSocket with
      | none => s.put i { v with receiver := .ended }
      | some dst =>
        s.put i
          { v with receiver := .replying (.new (bytes.take packetSize) dst), repliedAt := v.repliedAt ++ [s.now] }
    | _ => s
  | .replied =>
    match v.receiver with
    | .replying pkt =>
      if s.dispatcher = .stopped then s.put i { v with receiver := .leaving }
      else if s.toServer.length < replyCapacity then
        { s.put i { v with receiver := .receiving s.now } with toServer := s.toServer ++ [(v.remote, pkt)] }
      else s
    | _ => s
  | .receiveError =>
    match v.receiver with
    | .receiving _ => s.put i { v with receiver := .leaving }
    | _ => s
  | .idle =>
    match v.receiver with
    | .receiving since =>
      if since + sessionIdle ≤ s.now then
        { s.put i { v with receiver := .leaving } with
          reclaimed := s.reclaimed ++ [(s.now, v.sentAt ++ v.repliedAt)] }
      else s
    | _ => s
  | .remove =>
    if v.receiver = .leaving then
      { s.put i { v with receiver := .ended } with entries := Function.update s.entries v.remote.key none }
    else s

def step (packetSize : Nat) (s : UdpWork) : WorkEvent → UdpWork
  | .elapse time => { s with now := s.now + time }
  | .dispatch action => s.dispatch action
  | .task i action =>
    match s.sessions[i]? with
    | none => s
    | some v => s.act packetSize i v action

def Carries (reply : UdpAddr × UdpPacket) : Prop :=
  ∃ dst, reply.1.toSocket = some dst ∧ reply.2.remoteAddr.bind (·.toSocket) = some dst

/-- The entry of a key is the newest session with the key and one whose replies are waited for;
a session that works both ways is in the table.  Who leaves is taken out next, no session was
given up where a datagram had passed, and replies go to the visitors they are for. -/
structure Exact (packetSize : Nat) (s : UdpWork) : Prop where
  newest : ∀ key i, s.entries key = some i → ∃ v, s.sessions[i]? = some v ∧ v.remote.key = key ∧ v.receiver ≠ .ended ∧
    ∀ (j : Nat) (w : VisitorSession), s.sessions[j]? = some w → w.remote.key = key → j ≤ i
  entered : ∀ (i : Nat) (v : VisitorSession), s.sessions[i]? = some v → v.senderRuns → v.receiver ≠ .ended →
    s.dispatcher ≠ .stopped → (∀ key payload, s.dispatcher ≠ .spawned key i payload) → s.entries v.remote.key = some i
  removes : ∀ (i : Nat) (v : VisitorSession), s.sessions[i]? = some v → v.receiver = .leaving →
    (s.step packetSize (.task i .remove)).entries v.remote.key = none
  idle : ∀ r ∈ s.reclaimed, ∀ t ∈ r.2, t + sessionIdle ≤ r.1
  addressed : ∀ reply ∈ s.toServer ++ s.written, Carries reply

/-- A reply comes for a visitor whose address is one, who is given up as idle has sent nothing
for as long, and who leaves finds its own entry or none, and is in the table by then. -/
def Careful (s : UdpWork) : WorkEvent → Prop
  | .task i (.reply _) => ∀ v ∈ s.sessions[i]?, v.receiver.since? ≠ none → v.remote.toSocket ≠ none
  | .task i .idle => ∀ v ∈ s.sessions[i]?, ∀ since ∈ v.receiver.since?, since + sessionIdle ≤ s.now →
      ∀ t ∈ v.sentAt, t + sessionIdle ≤ s.now
  | .task i .remove => ∀ v ∈ s.sessions[i]?, v.receiver = .leaving →
      (∀ j ∈ s.entries v.remote.key, j = i) ∧
        match s.dispatcher with
        | .spawned _ j _ => j ≠ i
        | _ => True
  | _ => True

instance (s : UdpWork) : (event : WorkEvent) → Decidable (s.Careful event)
  | .task i (.reply _) => inferInstanceAs (Decidable (∀ v ∈ s.sessions[i]?, _ → _))
  | .task i .idle => inferInstanceAs (Decidable (∀ v ∈ s.sessions[i]?, ∀ since ∈ v.receiver.since?, _ → ∀ t ∈ v.sentAt, _))
  | .task i .remove => by
      unfold Careful
      cases s.dispatcher <;> infer_instance
  | .elapse _ | .dispatch _ => .isTrue trivial
  | .task _ (.sendLocal _) | .task _ .closeLocal | .task _ .replied | .task _ .receiveError => .isTrue trivial

/-- What the sessions, the table and the dispatcher know of each other. -/
structure Tabled (s : UdpWork) : Prop where
  newest : ∀ key i, s.entries key = some i → ∃ v, s.sessions[i]? = some v ∧ v.remote.key = key ∧ v.receiver ≠ .ended ∧
    ∀ (j : Nat) (w : VisitorSession), s.sessions[j]? = some w → w.remote.key = key → j ≤ i
  entered : ∀ (i : Nat) (v : VisitorSession), s.sessions[i]? = some v → v.senderRuns → v.receiver ≠ .ended →
    s.dispatcher ≠ .stopped → (∀ key payload, s.dispatcher ≠ .spawned key i payload) → s.entries v.remote.key = some i
  creating : ∀ remote payload, s.dispatcher = .creating remote payload → s.entries remote.key = none
  spawned : ∀ key i payload, s.dispatcher = .spawned key i payload → s.entries key = none ∧ i + 1 = s.sessions.length ∧
    ∃ v, s.sessions[i]? = some v ∧ v.remote.key = key ∧ v.receiver ≠ .ended
  sending : ∀ key i payload, s.dispatcher = .sending key i payload → (∀ j, s.entries key = some j → j = i) ∧
    ∃ v, s.sessions[i]? = some v ∧ v.remote.key = key

structure Timely (now : Nat) (v : VisitorSession) : Prop where
  receiving : ∀ since, v.receiver = .receiving since → since ≤ now ∧ ∀ t ∈ v.repliedAt, t ≤ since
  replying : ∀ pkt, v.receiver = .replying pkt → Carries (v.remote, pkt) ∧ ∀ t ∈ v.repliedAt, t ≤ now

structure Timed (s : UdpWork) : Prop where
  timely : ∀ (i : Nat) (v : VisitorSession), s.sessions[i]? = some v → Timely s.now v
  idle : ∀ r ∈ s.reclaimed, ∀ t ∈ r.2, t + sessionIdle ≤ r.1
  addressed : ∀ reply ∈ s.toServer ++ s.written, Carries reply

section Steps

variable {packetSize : Nat} {s : UdpWork} {i : Nat} {v w : VisitorSession}

theorem getElem?_put (isSession : s.sessions[i]? = some v) (j : Nat) :
    (s.put i w).sessions[j]? = if j = i then some w else s.sessions[j]? := by
  obtain ⟨inside, -⟩ := List.getElem?_eq_some_iff.mp isSession
  rw [put, List.getElem?_set]
  by_cases same : i = j
  · subst same
    simp [inside]
  · rw [if_neg same, if_neg (Ne.symm same)]

/-- Another session in the place of one: what it is not listed for any more it was not, or it
has ended. -/
theorem Tabled.replace (tabled : s.Tabled) (isSession : s.sessions[i]? = some v) (sameRemote : w.remote = v.remote)
    (works : w.senderRuns → w.receiver ≠ .ended → v.senderRuns ∧ v.receiver ≠ .ended) {entries : String → Option Nat}
    (fewer : ∀ key j, entries key = some j → s.entries key = some j)
    (kept : ∀ key j, s.entries key = some j → entries key = some j ∨ j = i ∧ w.receiver = .ended)
    (gone : w.receiver = .ended → (∀ key, entries key ≠ some i) ∧ ∀ key payload, s.dispatcher ≠ .spawned key i payload) :
    Tabled { s.put i w with entries } := by
  have get := fun j => @getElem?_put s i v w isSession j
  -- every session of the new list has the remote address of the old one in its place
  have old {j : Nat} {u : VisitorSession} (isThere : (s.put i w).sessions[j]? = some u) :
      ∃ u', s.sessions[j]? = some u' ∧ u'.remote = u.remote := by
    rw [get] at isThere
    split at isThere
    next same =>
      obtain rfl := Option.some.inj isThere
      exact ⟨v, same ▸ isSession, sameRemote.symm⟩
    next => exact ⟨u, isThere, rfl⟩
  have new {j : Nat} {u : VisitorSession} (isThere : s.sessions[j]? = some u) :
      ∃ u', (s.put i w).sessions[j]? = some u' ∧ u'.remote = u.remote := by
    rw [get]
    split
    next same =>
      subst same
      exact ⟨w, rfl, sameRemote.trans (congrArg _ (Option.some.inj (isSession.symm.trans isThere)))⟩
    next => exact ⟨u, isThere, rfl⟩
  constructor
  · intro key j isEntry
    obtain ⟨u, isThere, isKey, waits, isNewest⟩ := tabled.newest key j (fewer key j isEntry)
    obtain ⟨u', isNow, sameAddr⟩ := new isThere
    refine ⟨u', isNow, by rw [sameAddr, isKey], ?_, ?_⟩
    · rw [get] at isNow
      split at isNow
      next same =>
        obtain rfl := Option.some.inj isNow
        exact fun ended => (gone ended).1 key (same ▸ isEntry)
      next =>
        obtain rfl := Option.some.inj (isThere.symm.trans isNow)
        exact waits
    · intro j' u'' isOther otherKey
      obtain ⟨before, wasThere, sameBefore⟩ := old isOther
      exact isNewest j' before wasThere (by rw [sameBefore, otherKey])
  · intro j u isThere runs waits goesOn isIn
    rw [get] at isThere
    split at isThere
    next same =>
      subst same
      obtain rfl := Option.some.inj isThere
      obtain ⟨ran, waited⟩ := works runs waits
      rw [sameRemote]
      rcases kept _ _ (tabled.entered j v isSession ran waited goesOn isIn) with still | ⟨-, ended⟩
      · exact still
      · exact absurd ended waits
    next other =>
      rcases kept _ _ (tabled.entered j u isThere runs waits goesOn isIn) with still | ⟨same, -⟩
      · exact still
      · exact absurd same other
  · intro remote payload isCreating
    refine Option.eq_none_iff_forall_not_mem.mpr fun j isEntry => ?_
    cases (tabled.creating remote payload isCreating).symm.trans (fewer _ j isEntry)
  · intro key j payload isSpawned
    obtain ⟨free, isLast, u, isThere, isKey, waits⟩ := tabled.spawned key j payload isSpawned
    refine ⟨Option.eq_none_iff_forall_not_mem.mpr fun k isEntry => ?_, ?_, ?_⟩
    · cases free.symm.trans (fewer key k isEntry)
    · exact isLast.trans (List.length_set ..).symm
    · obtain ⟨u', isNow, sameAddr⟩ := new isThere
      refine ⟨u', isNow, by rw [sameAddr, isKey], ?_⟩
      rw [get] at isNow
      split at isNow
      next same =>
        obtain rfl := Option.some.inj isNow
        exact fun ended => (gone ended).2 key payload (same ▸ isSpawned)
      next =>
        obtain rfl := Option.some.inj (isThere.symm.trans isNow)
        exact waits
  · intro key j payload isSending
    obtain ⟨atMost, u, isThere, isKey⟩ := tabled.sending key j payload isSending
    obtain ⟨u', isNow, sameAddr⟩ := new isThere
    exact ⟨fun k isEntry => atMost k (fewer key k isEntry), u', isNow, by rw [sameAddr, isKey]⟩

theorem Tabled.put (tabled : s.Tabled) (isSession : s.sessions[i]? = some v) (sameRemote : w.remote = v.remote)
    (works : w.senderRuns → v.senderRuns) (waits : w.receiver = .ended ↔ v.receiver = .ended) : (s.put i w).Tabled := by
  refine tabled.replace isSession sameRemote (fun runs goesOn => ⟨works runs, mt waits.mpr goesOn⟩)
    (fun _ _ isEntry => isEntry) (fun _ _ isEntry => .inl isEntry) fun ended => ⟨fun key isEntry => ?_, fun key payload isSpawned => ?_⟩
  · obtain ⟨u, isThere, -, waited, -⟩ := tabled.newest key i isEntry
    obtain rfl := Option.some.inj (isSession.symm.trans isThere)
    exact waited (waits.mp ended)
  · obtain ⟨-, -, u, isThere, -, waited⟩ := tabled.spawned key i payload isSpawned
    obtain rfl := Option.some.inj (isSession.symm.trans isThere)
    exact waited (waits.mp ended)

theorem Tabled.act (tabled : s.Tabled) (isSession : s.sessions[i]? = some v) {action : TaskAction}
    (careful : s.Careful (.task i action)) : (s.act packetSize i v action).Tabled := by
  cases action with
  | sendLocal outcome =>
    rw [UdpWork.act]
    split
    next _ rest runs isQueue =>
      split
      · exact tabled.put isSession rfl id Iff.rfl
      · exact tabled.put isSession rfl (by rintro ⟨⟩) Iff.rfl
    next => exact tabled
  | closeLocal =>
    rw [UdpWork.act]
    split
    · exact tabled.put isSession rfl (by rintro ⟨⟩) Iff.rfl
    · exact tabled
  | reply bytes =>
    rw [UdpWork.act]
    split
    next since isReceiving =>
      split
      next noAddress =>
        have isAddress := careful v isSession (by simp [isReceiving, ReplyTask.since?])
        exact absurd noAddress isAddress
      next dst _ => exact tabled.put isSession rfl id (by simp [isReceiving])
    next => exact tabled
  | replied =>
    rw [UdpWork.act]
    split
    next pkt isReplying =>
      split
      next => exact tabled.put isSession rfl id (by simp [isReplying])
      next =>
        split
        · obtain ⟨newest, entered, creating, spawned, sending⟩ :=
            @Tabled.put s i v { v with receiver := .receiving s.now } tabled isSession rfl id (by simp [isReplying])
          exact ⟨newest, entered, creating, spawned, sending⟩
        · exact tabled
    next => exact tabled
  | receiveError =>
    rw [UdpWork.act]
    split
    next since isReceiving => exact tabled.put isSession rfl id (by simp [isReceiving])
    next => exact tabled
  | idle =>
    rw [UdpWork.act]
    split
    next since isReceiving =>
      split
      · obtain ⟨newest, entered, creating, spawned, sending⟩ :=
          @Tabled.put s i v { v with receiver := .leaving } tabled isSession rfl id (by simp [isReceiving])
        exact ⟨newest, entered, creating, spawned, sending⟩
      · exact tabled
    next => exact tabled
  | remove =>
    rw [UdpWork.act]
    split
    next isLeaving =>
      obtain ⟨own, isIn⟩ := careful v isSession isLeaving
      refine tabled.replace (w := { v with receiver := .ended }) isSession rfl (fun _ goesOn => absurd rfl goesOn) (fun key j isEntry => ?_)
        (fun key j isEntry => ?_) fun _ => ⟨fun key isEntry => ?_, fun key payload isSpawned => ?_⟩
      · by_cases same : key = v.remote.key
        · rw [same, Function.update_self] at isEntry
          cases isEntry
        · rwa [Function.update_of_ne same] at isEntry
      · by_cases same : key = v.remote.key
        · exact .inr ⟨own j (same ▸ isEntry), rfl⟩
        · exact .inl ((Function.update_of_ne same _ _).trans isEntry)
      · by_cases same : key = v.remote.key
        · rw [same, Function.update_self] at isEntry
          cases isEntry
        · rw [Function.update_of_ne same] at isEntry
          obtain ⟨u, isThere, isKey, -⟩ := tabled.newest key i isEntry
          obtain rfl := Option.some.inj (isSession.symm.trans isThere)
          exact same isKey.symm
      · rw [isSpawned] at isIn
        exact isIn rfl
    next => exact tabled

theorem Tabled.receive (tabled : s.Tabled) (free : s.dispatcher = .selecting) (pkt : UdpPacket) :
    (s.receive pkt).Tabled := by
  rw [UdpWork.receive]
  split
  next => exact tabled
  next remote _ =>
    split
    next j isEntry =>
      obtain ⟨u, isThere, isKey, -⟩ := tabled.newest _ j isEntry
      refine ⟨tabled.newest, fun k w isSession runs waits _ _ => ?_, by rintro _ _ ⟨⟩, by rintro _ _ _ ⟨⟩, ?_⟩
      · exact tabled.entered k w isSession runs waits (by simp [free]) (by simp [free])
      · rintro _ _ _ ⟨⟩
        exact ⟨fun k isOther => Option.some.inj (isOther.symm.trans isEntry), u, isThere, isKey⟩
    next noEntry =>
      refine ⟨tabled.newest, fun k w isSession runs waits _ _ => ?_, ?_, by rintro _ _ _ ⟨⟩, by rintro _ _ _ ⟨⟩⟩
      · exact tabled.entered k w isSession runs waits (by simp [free]) (by simp [free])
      · rintro _ _ ⟨⟩
        exact noEntry

theorem tabled_finish : s.finish.Tabled where
  newest := by rintro _ _ ⟨⟩
  entered _ _ _ _ _ goesOn := absurd rfl goesOn
  creating := by rintro _ _ ⟨⟩
  spawned := by rintro _ _ _ ⟨⟩
  sending := by rintro _ _ _ ⟨⟩

theorem Tabled.create (tabled : s.Tabled) {remote : UdpAddr} {payload : List UInt8}
    (isCreating : s.dispatcher = .creating remote payload) : (s.create remote payload).Tabled := by
  have free := tabled.creating remote payload isCreating
  have isNew : (s.create remote payload).sessions[s.sessions.length]? = some { remote, receiver := .receiving s.now } :=
    List.getElem?_concat_length
  have isOld {j : Nat} {w : VisitorSession} (isThere : (s.create remote payload).sessions[j]? = some w)
      (other : j ≠ s.sessions.length) : s.sessions[j]? = some w := by
    have inside := (List.getElem?_eq_some_iff.mp isThere).1
    simp only [UdpWork.create, List.length_append, List.length_singleton] at inside
    rwa [UdpWork.create, List.getElem?_append_left (by omega)] at isThere
  constructor
  · intro key j isEntry
    obtain ⟨u, isThere, isKey, waits, isNewest⟩ := tabled.newest key j isEntry
    refine ⟨u, ?_, isKey, waits, fun k w isOther otherKey => ?_⟩
    · exact (List.getElem?_append_left (List.getElem?_eq_some_iff.mp isThere).1).trans isThere
    · by_cases same : k = s.sessions.length
      · subst same
        obtain rfl := Option.some.inj (isNew.symm.trans isOther)
        subst otherKey
        cases free.symm.trans isEntry
      · exact isNewest k w (isOld isOther same) otherKey
  · intro j w isThere runs waits _ isIn
    have other : j ≠ s.sessions.length := by
      rintro rfl
      exact isIn remote.key payload rfl
    exact tabled.entered j w (isOld isThere other) runs waits (by simp [isCreating]) (by simp [isCreating])
  · rintro _ _ ⟨⟩
  · rintro _ _ _ ⟨⟩
    refine ⟨free, ?_, _, isNew, rfl, by simp⟩
    simp [UdpWork.create]
  · rintro _ _ _ ⟨⟩

theorem Tabled.insert (tabled : s.Tabled) {key : String} {payload : List UInt8}
    (isSpawned : s.dispatcher = .spawned key i payload) :
    Tabled { s with entries := Function.update s.entries key (some i), dispatcher := .sending key i payload } := by
  obtain ⟨free, isLast, u, isThere, isKey, waits⟩ := tabled.spawned key i payload isSpawned
  constructor
  · intro other j isEntry
    by_cases same : other = key
    · subst same
      dsimp only at isEntry
      rw [Function.update_self] at isEntry
      obtain rfl := Option.some.inj isEntry
      refine ⟨u, isThere, isKey, waits, fun k w isOther _ => ?_⟩
      have inside := (List.getElem?_eq_some_iff.mp isOther).1
      have isLast : i + 1 = s.sessions.length := isLast
      dsimp only at inside
      omega
    · exact tabled.newest other j ((Function.update_of_ne same _ _).symm.trans isEntry)
  · intro j w isSession runs waits _ _
    by_cases same : j = i
    · subst same
      obtain rfl := Option.some.inj (isThere.symm.trans isSession)
      rw [isKey]
      exact Function.update_self ..
    · have isEntry := tabled.entered j w isSession runs waits (by simp [isSpawned]) (by simp [isSpawned, Ne.symm same])
      have other : w.remote.key ≠ key := by
        rintro rfl
        cases free.symm.trans isEntry
      exact (Function.update_of_ne other _ _).trans isEntry
  · rintro _ _ ⟨⟩
  · rintro _ _ _ ⟨⟩
  · rintro _ _ _ ⟨⟩
    refine ⟨fun j isEntry => ?_, u, isThere, isKey⟩
    dsimp only at isEntry
    rw [Function.update_self] at isEntry
    exact (Option.some.inj isEntry).symm

theorem Tabled.send (tabled : s.Tabled) {key : String} {payload : List UInt8}
    (isSending : s.dispatcher = .sending key i payload) : (s.send key i payload).Tabled := by
  obtain ⟨atMost, u, isThere, isKey⟩ := tabled.sending key i payload isSending
  rw [UdpWork.send, isThere]
  dsimp only
  split
  next =>
    split
    · obtain ⟨newest, entered, -, -, -⟩ :=
        @Tabled.put s i u { u with queue := u.queue ++ [payload] } tabled isThere rfl id Iff.rfl
      refine ⟨newest, fun j w isSession runs waits _ _ => ?_, by rintro _ _ ⟨⟩, by rintro _ _ _ ⟨⟩, by rintro _ _ _ ⟨⟩⟩
      exact entered j w isSession runs waits (by simp [UdpWork.put, isSending]) (by simp [UdpWork.put, isSending])
    · exact tabled
  next stopped =>
    constructor
    · intro other j isEntry
      by_cases same : other = key
      · subst same
        dsimp only at isEntry
        rw [Function.update_self] at isEntry
        cases isEntry
      · exact tabled.newest other j ((Function.update_of_ne same _ _).symm.trans isEntry)
    · intro j w isSession runs waits _ _
      have isEntry := tabled.entered j w isSession runs waits (by simp [isSending]) (by simp [isSending])
      have other : w.remote.key ≠ key := by
        intro same
        obtain rfl := atMost j (same ▸ isEntry)
        obtain rfl := Option.some.inj (isThere.symm.trans isSession)
        exact stopped runs
      exact (Function.update_of_ne other _ _).trans isEntry
    · rintro _ _ ⟨⟩
    · rintro _ _ _ ⟨⟩
    · rintro _ _ _ ⟨⟩

theorem Tabled.dispatch (tabled : s.Tabled) (action : DispatchAction) : (s.dispatch action).Tabled := by
  cases action with
  | message received =>
    rw [UdpWork.dispatch]
    split
    next free =>
      unfold UdpWork.message
      split
      · exact tabled.receive free _
      · exact tabled
      · exact tabled_finish
    next => exact tabled
  | create outcome =>
    rw [UdpWork.dispatch]
    split
    next remote payload isCreating =>
      split
      · exact tabled.create isCreating
      · refine ⟨tabled.newest, fun j w isSession runs waits _ _ => ?_, by rintro _ _ ⟨⟩, by rintro _ _ _ ⟨⟩,
          by rintro _ _ _ ⟨⟩⟩
        exact tabled.entered j w isSession runs waits (by simp [isCreating]) (by simp [isCreating])
    next => exact tabled
  | insert =>
    rw [UdpWork.dispatch]
    split
    next isSpawned => exact tabled.insert isSpawned
    next => exact tabled
  | send =>
    rw [UdpWork.dispatch]
    split
    next isSending => exact tabled.send isSending
    next => exact tabled
  | write outcome =>
    rw [UdpWork.dispatch]
    split
    next reply rest free isQueue =>
      split
      · exact ⟨tabled.newest, tabled.entered, tabled.creating, tabled.spawned, tabled.sending⟩
      · exact tabled_finish
    next => exact tabled

theorem Tabled.step (tabled : s.Tabled) {event : WorkEvent} (careful : s.Careful event) :
    (s.step packetSize event).Tabled := by
  cases event with
  | elapse time => exact ⟨tabled.newest, tabled.entered, tabled.creating, tabled.spawned, tabled.sending⟩
  | dispatch action => exact tabled.dispatch action
  | task i action =>
    rw [UdpWork.step]
    split
    next => exact tabled
    next v isSession => exact tabled.act isSession careful

theorem Timely.later {now later : Nat} (timely : Timely now v) (order : now ≤ later) : Timely later v where
  receiving since isReceiving := by
    obtain ⟨past, before⟩ := timely.receiving since isReceiving
    exact ⟨past.trans order, before⟩
  replying pkt isReplying := by
    obtain ⟨carries, before⟩ := timely.replying pkt isReplying
    exact ⟨carries, fun t isTime => (before t isTime).trans order⟩

theorem Timed.put (timed : s.Timed) (isSession : s.sessions[i]? = some v) (timely : Timely s.now w) : (s.put i w).Timed where
  timely j u isThere := by
    rw [getElem?_put isSession] at isThere
    split at isThere
    next => exact Option.some.inj isThere ▸ timely
    next => exact timed.timely j u isThere
  idle := timed.idle
  addressed := timed.addressed

theorem timely_of_away {now : Nat} {receiver : ReplyTask} (away : receiver = .leaving ∨ receiver = .ended) :
    Timely now { v with receiver } := by
  rcases away with rfl | rfl
  · exact ⟨by rintro _ ⟨⟩, by rintro _ ⟨⟩⟩
  · exact ⟨by rintro _ ⟨⟩, by rintro _ ⟨⟩⟩

theorem Timed.act (timed : s.Timed) (isSession : s.sessions[i]? = some v) {action : TaskAction}
    (careful : s.Careful (.task i action)) : (s.act packetSize i v action).Timed := by
  have timely := timed.timely i v isSession
  cases action with
  | sendLocal outcome =>
    rw [UdpWork.act]
    split
    next =>
      split
      · exact timed.put isSession ⟨timely.receiving, timely.replying⟩
      · exact timed.put isSession ⟨timely.receiving, timely.replying⟩
    next => exact timed
  | closeLocal =>
    rw [UdpWork.act]
    split
    · exact timed.put isSession ⟨timely.receiving, timely.replying⟩
    · exact timed
  | reply bytes =>
    rw [UdpWork.act]
    split
    next since isReceiving =>
      obtain ⟨past, before⟩ := timely.receiving since isReceiving
      split
      next => exact timed.put isSession (timely_of_away (.inr rfl))
      next dst isAddress =>
        refine timed.put isSession ⟨by rintro _ ⟨⟩, ?_⟩
        rintro _ ⟨⟩
        have same := toSocket_fromSocket dst
        refine ⟨⟨dst, isAddress, ?_⟩, ?_⟩
        · rw [UdpPacket.new, Option.bind_some, same]
          obtain ⟨ip, -, rfl⟩ := Option.map_eq_some_iff.mp isAddress
          cases ip <;> rfl
        · intro t isTime
          rcases List.mem_append.mp isTime with wasTime | isNow
          · exact (before t wasTime).trans past
          · exact (List.mem_singleton.mp isNow).le
    next => exact timed
  | replied =>
    rw [UdpWork.act]
    split
    next pkt isReplying =>
      obtain ⟨carries, before⟩ := timely.replying pkt isReplying
      split
      next => exact timed.put isSession (timely_of_away (.inl rfl))
      next =>
        split
        · have next : Timely s.now { v with receiver := .receiving s.now } := by
            refine ⟨?_, by rintro _ ⟨⟩⟩
            rintro _ ⟨⟩
            exact ⟨le_rfl, before⟩
          obtain ⟨allTimely, idle, addressed⟩ := timed.put isSession next
          refine ⟨allTimely, idle, fun reply isReply => ?_⟩
          rw [List.append_assoc, List.mem_append, List.mem_append, List.mem_singleton] at isReply
          rcases isReply with isQueued | rfl | isWritten
          · exact timed.addressed reply (List.mem_append_left _ isQueued)
          · exact carries
          · exact timed.addressed reply (List.mem_append_right _ isWritten)
        · exact timed
    next => exact timed
  | receiveError =>
    rw [UdpWork.act]
    split
    next => exact timed.put isSession (timely_of_away (.inl rfl))
    next => exact timed
  | idle =>
    rw [UdpWork.act]
    split
    next since isReceiving =>
      split
      next waited =>
        obtain ⟨-, before⟩ := timely.receiving since isReceiving
        have silent := careful v isSession since (by rw [isReceiving]; rfl) waited
        obtain ⟨allTimely, idle, addressed⟩ := timed.put isSession (@timely_of_away v s.now .leaving (.inl rfl))
        refine ⟨allTimely, List.forall_mem_append.mpr ⟨idle, List.forall_mem_singleton.mpr ?_⟩, addressed⟩
        refine List.forall_mem_append.mpr ⟨silent, fun t isTime => ?_⟩
        exact (Nat.add_le_add_right (before t isTime) _).trans waited
      next => exact timed
    next => exact timed
  | remove =>
    rw [UdpWork.act]
    split
    next =>
      obtain ⟨allTimely, idle, addressed⟩ := timed.put isSession (@timely_of_away v s.now .ended (.inr rfl))
      exact ⟨allTimely, idle, addressed⟩
    next => exact timed

theorem Timed.finish (timed : s.Timed) : s.finish.Timed where
  timely := timed.timely
  idle := timed.idle
  addressed reply isReply := timed.addressed reply (List.mem_append_right _ isReply)

theorem Timed.dispatch (timed : s.Timed) (action : DispatchAction) : (s.dispatch action).Timed := by
  cases action with
  | message received =>
    rw [UdpWork.dispatch]
    split
    next =>
      unfold UdpWork.message
      split
      next pkt =>
        rw [UdpWork.receive]
        split
        next => exact timed
        next =>
          split
          · exact ⟨timed.timely, timed.idle, timed.addressed⟩
          · exact ⟨timed.timely, timed.idle, timed.addressed⟩
      next => exact timed
      next => exact timed.finish
    next => exact timed
  | create outcome =>
    rw [UdpWork.dispatch]
    split
    next remote payload _ =>
      split
      · refine ⟨fun j w isThere => ?_, timed.idle, timed.addressed⟩
        rcases List.mem_append.mp (List.mem_of_getElem? isThere) with wasThere | isNew
        · obtain ⟨k, isOld⟩ := List.mem_iff_getElem?.mp wasThere
          exact timed.timely k w isOld
        · obtain rfl := List.mem_singleton.mp isNew
          refine ⟨?_, by rintro _ ⟨⟩⟩
          rintro _ ⟨⟩
          exact ⟨le_rfl, by rintro _ ⟨⟩⟩
      · exact ⟨timed.timely, timed.idle, timed.addressed⟩
    next => exact timed
  | insert =>
    rw [UdpWork.dispatch]
    split
    · exact ⟨timed.timely, timed.idle, timed.addressed⟩
    · exact timed
  | send =>
    rw [UdpWork.dispatch]
    split
    next key i payload _ =>
      rw [UdpWork.send]
      split
      next => exact timed
      next v isSession =>
        have timely := timed.timely i v isSession
        split
        · split
          · obtain ⟨allTimely, idle, addressed⟩ :=
              @Timed.put s i v { v with queue := v.queue ++ [payload] } timed isSession ⟨timely.receiving, timely.replying⟩
            exact ⟨allTimely, idle, addressed⟩
          · exact timed
        · exact ⟨timed.timely, timed.idle, timed.addressed⟩
    next => exact timed
  | write outcome =>
    rw [UdpWork.dispatch]
    split
    next reply rest _ isQueue =>
      split
      · refine ⟨timed.timely, timed.idle, fun other isOther => timed.addressed other ?_⟩
        rw [isQueue]
        simp only [List.mem_append, List.mem_cons, List.not_mem_nil, or_false] at isOther ⊢
        exact isOther.elim (fun later => .inl (.inr later)) fun both => both.elim .inr fun first => .inl (.inl first)
      · exact timed.finish
    next => exact timed

theorem Timed.step (timed : s.Timed) {event : WorkEvent} (careful : s.Careful event) : (s.step packetSize event).Timed := by
  cases event with
  | elapse time =>
    exact ⟨fun j w isThere => (timed.timely j w isThere).later (Nat.le_add_right _ _), timed.idle, timed.addressed⟩
  | dispatch action => exact timed.dispatch action
  | task i action =>
    rw [UdpWork.step]
    split
    next => exact timed
    next v isSession => exact timed.act isSession careful

theorem entries_step_remove (isSession : s.sessions[i]? = some v) (isLeaving : v.receiver = .leaving) :
    (s.step packetSize (.task i .remove)).entries v.remote.key = none := by
  rw [step, isSession]
  dsimp only [act]
  rw [if_pos isLeaving]
  exact Function.update_self ..

end Steps

def queried (ip : String) : List WorkEvent :=
  let pkt : UdpPacket := { content := some [1], remoteAddr := some { ip, port := 5353 } }
  [.dispatch (.message (.ok (some (.udpPacket pkt)))), .dispatch (.create (.ok ())), .dispatch .insert, .dispatch .send]

/-- A question and its answer, and a session that is given up half a minute later. -/
def answered : List WorkEvent :=
  queried "203.0.113.9" ++
    [.task 0 (.sendLocal (.ok ())), .elapse 3, .task 0 (.reply [2]), .task 0 .replied, .dispatch (.write (.ok ())),
      .elapse 30000, .task 0 .idle, .task 0 .remove, .task 0 .closeLocal]

/-- A session that cannot send is replaced, and its end takes out the new one. -/
def replaced : List WorkEvent :=
  let pkt : UdpPacket := { content := some [1], remoteAddr := some { ip := "203.0.113.9", port := 5353 } }
  queried "203.0.113.9" ++
    [.task 0 (.sendLocal (.error "refused")), .dispatch (.message (.ok (some (.udpPacket pkt)))), .dispatch .send] ++
    queried "203.0.113.9" ++ [.task 0 .receiveError, .task 0 .remove]

end UdpWork

end Nfrp.Udp
