import Nfrp.Lib.Duplex
import Nfrp.Udp.Packet

/-!
# Two connections that exchange datagrams

Each half of the relay owns a connection.  It reads from it into a bounded queue for
the other half, and writes to it what the other half has queued.  While it waits for
room it takes nothing.
-/

namespace Nfrp.Udp

open Lib

/-- Packets that fit between the halves in one direction. -/
def relayCapacity : Nat := 1024

/-- In the loop a half chooses between its connection and its queue, waits for room for
a packet it has read, or writes a packet it has taken. -/
inductive HalfState where
  | selecting
  | sending (pkt : UdpPacket)
  | writing (pkt : UdpPacket)
  | finished
  deriving DecidableEq, Repr

/-- A half with its connection: what has arrived there and is not read, and whether the
connection has ended behind it.  No code reads `read` and `written`. -/
structure Half where
  arrived : List FrpMessage := []
  ended : Bool := false
  state : HalfState := .selecting
  bytes : UInt64 := 0
  read : List UdpPacket := []
  written : List UdpPacket := []

/-- A queue is named after the half that takes from it. -/
structure Relay where
  half : Side → Half := fun _ => {}
  queue : Side → List UdpPacket := fun _ => []

inductive Action where
  | arrive (m : FrpMessage)
  | close (unread : Nat)
  | recv
  | take
  | room
  | sent
  | failed

namespace Action

def isInternal : Action → Bool
  | arrive _ | close _ => false
  | _ => true

end Action

namespace Relay

def setHalf (r : Relay) (side : Side) (h : Half) : Relay :=
  { r with half := Function.update r.half side h }

def setQueue (r : Relay) (side : Side) (queue : List UdpPacket) : Relay :=
  { r with queue := Function.update r.queue side queue }

def isFinished (r : Relay) (side : Side) : Bool := (r.half side).state = .finished

/-- The half leaves its loop; its ends of both queues go with it. -/
def finish (r : Relay) (side : Side) : Relay :=
  r.setHalf side { r.half side with state := .finished }

/-- A packet for the other half.  Nobody takes it where that one has finished. -/
def offer (r : Relay) (side : Side) (pkt : UdpPacket) : Relay :=
  if r.isFinished side.peer then r.finish side
  else if (r.queue side.peer).length < relayCapacity then
    (r.setQueue side.peer (r.queue side.peer ++ [pkt])).setHalf side { r.half side with state := .selecting }
  else r.setHalf side { r.half side with state := .sending pkt }

def act (r : Relay) (side : Side) : Action → Option Relay
  | .arrive m =>
    let h := r.half side
    if h.ended then none else some (r.setHalf side { h with arrived := h.arrived ++ [m] })
  | .close unread =>
    let h := r.half side
    if h.ended then none else some (r.setHalf side { h with arrived := h.arrived.take unread, ended := true })
  | .recv =>
    let h := r.half side
    match h.state, h.arrived with
    | .selecting, .udpPacket pkt :: rest =>
      some ((r.setHalf side { h with arrived := rest, read := h.read ++ [pkt] }).offer side pkt)
    | .selecting, _ :: rest => some (r.setHalf side { h with arrived := rest })
    | .selecting, [] => if h.ended then some (r.finish side) else none
    | _, _ => none
  | .take =>
    let h := r.half side
    match h.state, r.queue side with
    | .selecting, pkt :: rest => some ((r.setQueue side rest).setHalf side { h with state := .writing pkt })
    | .selecting, [] => if r.isFinished side.peer then some (r.finish side) else none
    | _, _ => none
  | .room =>
    match (r.half side).state with
    | .sending pkt =>
      if r.isFinished side.peer ∨ (r.queue side.peer).length < relayCapacity then some (r.offer side pkt) else none
    | _ => none
  | .sent =>
    let h := r.half side
    match h.state with
    | .writing pkt =>
      some (r.setHalf side
        { h with
          state := .selecting
          bytes := h.bytes + UInt64.ofNat pkt.payload.length
          written := h.written ++ [pkt] })
    | _ => none
  | .failed =>
    let h := r.half side
    match h.state with
    | .writing _ => if h.ended then some (r.finish side) else none
    | _ => none

def step (r : Relay) (event : Side × Action) : Relay := (r.act event.1 event.2).getD r

section Lemmas

variable (r : Relay) (side : Side) (h : Half) (queue : List UdpPacket)

@[simp]
theorem half_setHalf : (r.setHalf side h).half side = h := Function.update_self ..

@[simp]
theorem half_setHalf_peer : (r.setHalf side h).half side.peer = r.half side.peer :=
  Function.update_of_ne side.peer_ne ..

@[simp]
theorem queue_setHalf (other : Side) : (r.setHalf side h).queue other = r.queue other := rfl

@[simp]
theorem half_setQueue (other : Side) : (r.setQueue side queue).half other = r.half other := rfl

@[simp]
theorem queue_setQueue : (r.setQueue side queue).queue side = queue := Function.update_self ..

@[simp]
theorem queue_setQueue_peer : (r.setQueue side queue).queue side.peer = r.queue side.peer :=
  Function.update_of_ne side.peer_ne ..

@[simp]
theorem queue_peer_setQueue : (r.setQueue side.peer queue).queue side = r.queue side :=
  Function.update_of_ne side.peer_ne.symm ..

@[simp]
theorem setQueue_self : r.setQueue side (r.queue side) = r :=
  congrArg (Relay.mk r.half) (Function.update_eq_self ..)

@[simp]
theorem setQueue_setQueue (last : List UdpPacket) : (r.setQueue side queue).setQueue side last = r.setQueue side last :=
  congrArg (Relay.mk r.half) (Function.update_idem ..)

@[simp]
theorem setHalf_self : r.setHalf side (r.half side) = r :=
  congrArg (Relay.mk · r.queue) (Function.update_eq_self ..)

@[simp]
theorem setHalf_setHalf (last : Half) : (r.setHalf side h).setHalf side last = r.setHalf side last :=
  congrArg (Relay.mk · r.queue) (Function.update_idem ..)

theorem setQueue_setHalf (other : Side) :
    (r.setHalf side h).setQueue other queue = (r.setQueue other queue).setHalf side h := rfl

@[simp]
theorem isFinished_setQueue (other : Side) : (r.setQueue side queue).isFinished other = r.isFinished other := rfl

@[simp]
theorem isFinished_setHalf_peer : (r.setHalf side h).isFinished side.peer = r.isFinished side.peer := by
  rw [isFinished, half_setHalf_peer, isFinished]

end Lemmas

end Relay

def Half.waiting (h : Half) : List UdpPacket :=
  match h.state with
  | .sending pkt => [pkt]
  | _ => []

def Half.inHand (h : Half) : List UdpPacket :=
  match h.state with
  | .writing pkt => [pkt]
  | _ => []

namespace Relay

/-- The half has read a packet and waits for room in the queue of the other. -/
def Waits (r : Relay) (side : Side) : Prop :=
  (∃ pkt, (r.half side).state = .sending pkt) ∧ r.isFinished side.peer = false ∧
    relayCapacity ≤ (r.queue side.peer).length

/-- The half is about to read a packet for which there is no room. -/
def TakesIn (r : Relay) (side : Side) : Prop :=
  (r.half side).state = .selecting ∧ (∃ pkt rest, (r.half side).arrived = .udpPacket pkt :: rest) ∧
    r.isFinished side.peer = false ∧ relayCapacity ≤ (r.queue side.peer).length

inductive Acted (r : Relay) (side : Side) (action : Action) : Relay → Prop
  | noted (arrived : List FrpMessage) {ended : Bool} (later : (r.half side).ended → ended) :
      Acted r side action (r.setHalf side { r.half side with arrived, ended })
  | queued (arrived : List FrpMessage) {more : List UdpPacket} {pkt : UdpPacket}
      (next : (r.half side).waiting ++ more = [pkt]) (running : r.isFinished side = false)
      (handless : (r.half side).inHand = []) :
      Acted r side action ((r.setQueue side.peer (r.queue side.peer ++ [pkt])).setHalf side
        { r.half side with arrived, state := .selecting, read := (r.half side).read ++ more })
  | blocked (arrived : List FrpMessage) (pkt : UdpPacket) (isRecv : action = .recv) (takesIn : r.TakesIn side) :
      Acted r side action (r.setHalf side
        { r.half side with arrived, state := .sending pkt, read := (r.half side).read ++ [pkt] })
  | takes {pkt : UdpPacket} {rest : List UdpPacket} (selecting : (r.half side).state = .selecting)
      (front : r.queue side = pkt :: rest) :
      Acted r side action ((r.setQueue side rest).setHalf side { r.half side with state := .writing pkt })
  | wrote {pkt : UdpPacket} (bytes : UInt64) (writing : (r.half side).state = .writing pkt) :
      Acted r side action (r.setHalf side
        { r.half side with state := .selecting, bytes, written := (r.half side).written ++ [pkt] })
  | leaves (arrived : List FrpMessage) (more : List UdpPacket)
      (cause : (r.half side).ended = true ∨ r.isFinished side.peer = true) :
      Acted r side action (r.setHalf side
        { r.half side with arrived, state := .finished, read := (r.half side).read ++ more })

theorem offer_setHalf (r : Relay) (side : Side) (h : Half) (pkt : UdpPacket) :
    (r.setHalf side h).offer side pkt =
      if r.isFinished side.peer then r.setHalf side { h with state := .finished }
      else if (r.queue side.peer).length < relayCapacity then
        (r.setQueue side.peer (r.queue side.peer ++ [pkt])).setHalf side { h with state := .selecting }
      else r.setHalf side { h with state := .sending pkt } := by
  simp only [offer, finish, isFinished_setHalf_peer, queue_setHalf, half_setHalf, setHalf_setHalf, setQueue_setHalf]

theorem Acted.left {r : Relay} {side : Side} {action : Action}
    (cause : (r.half side).ended = true ∨ r.isFinished side.peer = true) : Acted r side action (r.finish side) := by
  have leaves := @Acted.leaves r side action (r.half side).arrived [] cause
  rwa [List.append_nil] at leaves

theorem acted_of_act {r after : Relay} {side : Side} {action : Action} (taken : r.act side action = some after) :
    Acted r side action after := by
  cases action with
  | arrive m =>
    obtain ⟨-, rfl⟩ : (r.half side).ended = false ∧ _ := by simpa [act] using taken
    exact .noted _ id
  | close unread =>
    obtain ⟨-, rfl⟩ : (r.half side).ended = false ∧ _ := by simpa [act] using taken
    exact .noted _ fun _ => rfl
  | recv =>
    rw [act] at taken
    split at taken
    next pkt rest selecting arrived =>
      obtain rfl := Option.some.inj taken
      rw [offer_setHalf]
      have notFinished : r.isFinished side = false := by rw [isFinished, selecting]; rfl
      split
      next closed => exact .leaves rest [pkt] (.inr closed)
      next isOpen =>
        split
        next => exact .queued rest (by rw [Half.waiting, selecting]; rfl) notFinished (by rw [Half.inHand, selecting])
        next full =>
          exact .blocked rest pkt rfl ⟨selecting, ⟨pkt, rest, arrived⟩, by simpa using isOpen, not_lt.mp full⟩
    next m rest selecting arrived _ =>
      obtain rfl := Option.some.inj taken
      exact .noted rest id
    next selecting arrived =>
      split at taken
      next ended =>
        obtain rfl := Option.some.inj taken
        exact .left (.inl ended)
      next => cases taken
    next => cases taken
  | take =>
    rw [act] at taken
    split at taken
    next pkt rest selecting front =>
      obtain rfl := Option.some.inj taken
      exact .takes selecting front
    next selecting empty =>
      split at taken
      next closed =>
        obtain rfl := Option.some.inj taken
        exact .left (.inr closed)
      next => cases taken
    next => cases taken
  | room =>
    rw [act] at taken
    split at taken
    next pkt sending =>
      split at taken
      next =>
        obtain rfl := Option.some.inj taken
        rw [← r.setHalf_self side, offer_setHalf, r.setHalf_self side]
        have notFinished : r.isFinished side = false := by rw [isFinished, sending]; rfl
        split
        next closed => exact .left (.inr closed)
        next isOpen =>
          split
          next =>
            have waits : (r.half side).waiting ++ [] = [pkt] := by rw [Half.waiting, sending]; rfl
            have queued := @Acted.queued r side .room (r.half side).arrived [] pkt waits notFinished
              (by rw [Half.inHand, sending])
            rwa [List.append_nil] at queued
          next full => simp_all
      next => cases taken
    next => cases taken
  | sent =>
    rw [act] at taken
    split at taken
    next pkt writing =>
      obtain rfl := Option.some.inj taken
      exact .wrote _ writing
    next => cases taken
  | failed =>
    rw [act] at taken
    split at taken
    next pkt writing =>
      split at taken
      next ended =>
        obtain rfl := Option.some.inj taken
        exact .left (.inl ended)
      next => cases taken
    next => cases taken

/-- What one half has read and the other has still to write. -/
def onTheWay (r : Relay) (side : Side) : List UdpPacket :=
  if r.isFinished side.peer then []
  else (r.half side.peer).inHand ++ (r.queue side.peer ++ (r.half side).waiting)

/-- What one half has read is written by the other, as long as both go on. -/
def Ordered (r : Relay) (side : Side) : Prop :=
  ∃ lost, (r.half side).read = (r.half side.peer).written ++ (r.onTheWay side ++ lost) ∧
    (r.isFinished side = false → r.isFinished side.peer = false → lost = [])

variable {r after : Relay} {side : Side} {action : Action}

theorem Acted.running (acted : Acted r side action after) : r.isFinished side.peer = after.isFinished side.peer := by
  cases acted <;> simp [isFinished, half_setHalf_peer]

theorem isFinished_of_state {state : HalfState} (isState : (r.half side).state = state) (goesOn : state ≠ .finished) :
    r.isFinished side = false := by
  rw [isFinished, isState]
  exact decide_eq_false goesOn

theorem Acted.ordered (acted : Acted r side action after) (ordered : r.Ordered side) : after.Ordered side := by
  obtain ⟨lost, carried, none⟩ := ordered
  have sameEnd := acted.running
  by_cases closed : r.isFinished side.peer = true
  · obtain ⟨more, read, written⟩ : ∃ more, (after.half side).read = (r.half side).read ++ more ∧
        (after.half side.peer).written = (r.half side.peer).written := by
      cases acted <;> simp
    rw [onTheWay, if_pos closed, List.nil_append] at carried
    refine ⟨lost ++ more, ?_, fun _ isOpen => ?_⟩
    · rw [read, written, carried, onTheWay, if_pos (sameEnd ▸ closed), List.nil_append, List.append_assoc]
    · rw [← sameEnd, closed] at isOpen
      cases isOpen
  · have isOpen : r.isFinished side.peer = false := by simpa using closed
    have whole : (r.half side).read = (r.half side.peer).written ++ ((r.half side.peer).inHand ++
        (r.queue side.peer ++ (r.half side).waiting)) ++ lost := by
      rw [carried, onTheWay, if_neg closed]
      simp only [List.append_assoc]
    have stillOpen : after.isFinished side.peer = false := sameEnd ▸ isOpen
    rw [Ordered, onTheWay, stillOpen, if_neg Bool.false_ne_true]
    cases acted with
    | noted arrived later =>
      refine ⟨lost, ?_, fun running _ => none (by simpa [isFinished] using running) isOpen⟩
      simpa [Half.waiting, Half.inHand] using whole
    | queued arrived next running handless =>
      refine ⟨[], ?_, fun _ _ => rfl⟩
      rw [none running isOpen, List.append_nil] at whole
      simp [whole, Half.waiting, Half.inHand, ← next]
    | blocked arrived pkt isRecv takesIn =>
      have running := isFinished_of_state takesIn.1 (by simp)
      refine ⟨[], ?_, fun _ _ => rfl⟩
      rw [none running isOpen, List.append_nil] at whole
      simp [whole, Half.waiting, Half.inHand, takesIn.1]
    | takes selecting front =>
      have running := isFinished_of_state selecting (by simp)
      refine ⟨[], ?_, fun _ _ => rfl⟩
      rw [none running isOpen, List.append_nil] at whole
      simp [whole, Half.waiting, Half.inHand, selecting]
    | wrote bytes writing =>
      have running := isFinished_of_state writing (by simp)
      refine ⟨[], ?_, fun _ _ => rfl⟩
      rw [none running isOpen, List.append_nil] at whole
      simp [whole, Half.waiting, Half.inHand, writing]
    | leaves arrived more cause =>
      refine ⟨(r.half side).waiting ++ lost ++ more, ?_, fun running _ => ?_⟩
      · simp [whole, Half.waiting, Half.inHand]
      · simp [isFinished] at running

theorem Acted.ordered_peer (acted : Acted r side action after) (ordered : r.Ordered side.peer) :
    after.Ordered side.peer := by
  obtain ⟨lost, carried, none⟩ := ordered
  have sameEnd := acted.running
  rw [onTheWay, Side.peer_peer] at carried
  rw [Side.peer_peer] at none
  rw [Ordered, onTheWay, Side.peer_peer]
  cases acted with
  | noted arrived later =>
    refine ⟨lost, ?_, fun isOpen running => none (sameEnd ▸ isOpen) (by simpa [isFinished] using running)⟩
    simpa [isFinished, Half.waiting, Half.inHand] using carried
  | queued arrived next running handless =>
    rw [running, if_neg Bool.false_ne_true, handless] at carried
    refine ⟨lost, ?_, fun isOpen _ => none (sameEnd ▸ isOpen) running⟩
    simpa [isFinished, Half.waiting, Half.inHand] using carried
  | blocked arrived pkt isRecv takesIn =>
    have running := isFinished_of_state takesIn.1 (by simp)
    rw [running, if_neg Bool.false_ne_true, Half.inHand, takesIn.1] at carried
    refine ⟨lost, ?_, fun isOpen _ => none (sameEnd ▸ isOpen) running⟩
    simpa [isFinished, Half.waiting, Half.inHand] using carried
  | takes selecting front =>
    have running := isFinished_of_state selecting (by simp)
    rw [running, if_neg Bool.false_ne_true, Half.inHand, selecting, front] at carried
    refine ⟨lost, ?_, fun isOpen _ => none (sameEnd ▸ isOpen) running⟩
    simpa [isFinished, Half.waiting, Half.inHand] using carried
  | wrote bytes writing =>
    have running := isFinished_of_state writing (by simp)
    rw [running, if_neg Bool.false_ne_true, Half.inHand, writing] at carried
    refine ⟨lost, ?_, fun isOpen _ => none (sameEnd ▸ isOpen) running⟩
    simpa [isFinished, Half.waiting, Half.inHand] using carried
  | leaves arrived more cause =>
    obtain ⟨left, carried⟩ : ∃ left, (r.half side.peer).read = (r.half side).written ++ left := ⟨_, carried⟩
    refine ⟨left, ?_, fun _ running => ?_⟩
    · simpa [isFinished] using carried
    · simp [isFinished] at running

structure Carried (r : Relay) : Prop where
  ordered : ∀ side, r.Ordered side
  cause : ∀ side, r.isFinished side → ∃ other, (r.half other).ended

theorem Acted.ended (acted : Acted r side action after) {other : Side} (ended : (r.half other).ended) :
    (after.half other).ended := by
  rcases other.eq_or_eq_peer side with rfl | rfl
  · cases acted with
    | noted arrived later => simpa using later ended
    | _ => simpa using ended
  · cases acted <;> simpa using ended

theorem Acted.carried (acted : Acted r side action after) (carried : r.Carried) : after.Carried := by
  constructor
  · intro other
    rcases other.eq_or_eq_peer side with rfl | rfl
    · exact acted.ordered (carried.ordered other)
    · exact acted.ordered_peer (carried.ordered _)
  · intro other finished
    have before : r.isFinished side ∨ r.isFinished side.peer ∨ (r.half side).ended := by
      rcases other.eq_or_eq_peer side with rfl | rfl
      · cases acted with
        | noted arrived later => exact .inl (by simpa [isFinished] using finished)
        | leaves arrived more cause => exact cause.symm.elim (fun h => .inr (.inl h)) fun h => .inr (.inr h)
        | _ => simp [isFinished] at finished
      · exact .inr (.inl (acted.running ▸ finished))
    rcases before with finished | finished | ended
    · obtain ⟨other, ended⟩ := carried.cause _ finished
      exact ⟨other, acted.ended ended⟩
    · obtain ⟨other, ended⟩ := carried.cause _ finished
      exact ⟨other, acted.ended ended⟩
    · exact ⟨side, acted.ended ended⟩

def Deadlocked (r : Relay) : Prop := r.Waits .left ∧ r.Waits .right

/-- Nothing can be done but by the peers, though a half still runs. -/
def Stuck (r : Relay) : Prop :=
  (∃ side, r.isFinished side = false) ∧ ∀ side action, action.isInternal → r.act side action = none

structure Served (r : Relay) : Prop where
  free : ¬r.Deadlocked
  inOrder : ∀ side, (r.half side.peer).written <+: (r.half side).read
  gapless : (∀ side, (r.half side).ended = false) →
    ∀ side, (r.half side).read = (r.half side.peer).written ++ r.onTheWay side
  goesOn : (∃ side, (r.half side).ended) → ¬r.Stuck

/-- No half reads a packet without room for it while the other half waits for room. -/
def Spares (r : Relay) (event : Side × Action) : Prop :=
  event.2 = .recv → r.TakesIn event.1 → ¬r.Waits event.1.peer

structure Idle (r : Relay) (side : Side) : Prop where
  notEnded : (r.half side).ended = false
  nothing : r.queue side = []
  isOpen : r.isFinished side.peer = false

/-- A half that can do nothing has finished, waits for room, or is idle. -/
theorem waits_or_idle (none : ∀ action : Action, action.isInternal → r.act side action = none)
    (runs : r.isFinished side = false) : r.Waits side ∨ r.Idle side := by
  have noRecv := none .recv rfl
  have noTake := none .take rfl
  have noRoom := none .room rfl
  have noSent := none .sent rfl
  cases isState : (r.half side).state with
  | finished => simp [isFinished, isState] at runs
  | writing pkt => simp [act, isState] at noSent
  | sending pkt =>
    refine .inl ⟨⟨pkt, isState⟩, ?_⟩
    simpa [act, isState] using noRoom
  | selecting =>
    refine .inr ?_
    cases isQueue : r.queue side with
    | cons pkt rest => simp [act, isState, isQueue] at noTake
    | nil =>
      have isOpen : r.isFinished side.peer = false := by simpa [act, isState, isQueue] using noTake
      refine ⟨?_, isQueue, isOpen⟩
      cases isArrived : (r.half side).arrived with
      | nil => simpa [act, isState, isArrived] using noRecv
      | cons m rest => cases m <;> simp [act, isState, isArrived] at noRecv

theorem Waits.not_idle (waits : r.Waits side) : ¬r.Idle side.peer := by
  intro idle
  have full := waits.2.2
  rw [idle.nothing] at full
  exact absurd full (by decide)

theorem deadlocked_of_waits (waits : r.Waits side) (peerWaits : r.Waits side.peer) : r.Deadlocked := by
  cases side
  · exact ⟨waits, peerWaits⟩
  · exact ⟨peerWaits, waits⟩

theorem not_stuck (free : ¬r.Deadlocked) (anEnd : ∃ side, (r.half side).ended) : ¬r.Stuck := by
  rintro ⟨⟨side, runs⟩, none⟩
  rcases waits_or_idle (none side) runs with waits | idle
  · rcases waits_or_idle (none side.peer) waits.2.1 with peerWaits | peerIdle
    · exact free (deadlocked_of_waits waits peerWaits)
    · exact waits.not_idle peerIdle
  · rcases waits_or_idle (none side.peer) idle.isOpen with peerWaits | peerIdle
    · exact peerWaits.not_idle (by rwa [Side.peer_peer])
    · obtain ⟨other, ended⟩ := anEnd
      rcases other.eq_or_eq_peer side with rfl | rfl
      · rw [idle.notEnded] at ended
        cases ended
      · rw [peerIdle.notEnded] at ended
        cases ended

theorem Carried.served (carried : r.Carried) (free : ¬r.Deadlocked) : r.Served where
  free
  inOrder := by
    intro side
    obtain ⟨lost, same, -⟩ := carried.ordered side
    exact ⟨_, same.symm⟩
  gapless := by
    intro noEnd side
    obtain ⟨lost, same, none⟩ := carried.ordered side
    have runs : ∀ other, r.isFinished other = false := by
      intro other
      by_contra finished
      obtain ⟨ender, ended⟩ := carried.cause other (by simpa using finished)
      rw [noEnd ender] at ended
      cases ended
    rw [same, none (runs _) (runs _), List.append_nil]
  goesOn := not_stuck free

theorem Acted.running_of_running (acted : Acted r side action after) (runs : after.isFinished side = false) :
    r.isFinished side = false := by
  cases acted with
  | noted arrived later => simpa [isFinished] using runs
  | queued arrived next running handless => exact running
  | blocked arrived pkt isRecv takesIn => exact isFinished_of_state takesIn.1 (by simp)
  | takes selecting front => exact isFinished_of_state selecting (by simp)
  | wrote bytes writing => exact isFinished_of_state writing (by simp)
  | leaves arrived more cause => simp [isFinished] at runs

theorem Acted.waits_peer (acted : Acted r side action after) (waits : after.Waits side.peer) : r.Waits side.peer := by
  obtain ⟨⟨pkt, sending⟩, runs, full⟩ := waits
  rw [Side.peer_peer] at runs full
  have before := acted.running_of_running runs
  refine ⟨⟨pkt, ?_⟩, (by rwa [Side.peer_peer]), ?_⟩
  · cases acted <;> simpa using sending
  · rw [Side.peer_peer]
    cases acted with
    | takes selecting front =>
      rw [front, List.length_cons]
      exact Nat.le_succ_of_le (by simpa using full)
    | _ => simpa using full

theorem Acted.waits (acted : Acted r side action after) (waits : after.Waits side) :
    r.Waits side ∨ action = .recv ∧ r.TakesIn side := by
  obtain ⟨⟨pkt, sending⟩, isOpen, full⟩ := waits
  cases acted with
  | noted arrived later => exact .inl ⟨⟨pkt, by simpa using sending⟩, by simpa using isOpen, by simpa using full⟩
  | blocked arrived pkt isRecv takesIn => exact .inr ⟨isRecv, takesIn⟩
  | _ => simp at sending

theorem Deadlocked.waits (deadlocked : r.Deadlocked) (side : Side) : r.Waits side ∧ r.Waits side.peer := by
  cases side
  · exact deadlocked
  · exact ⟨deadlocked.2, deadlocked.1⟩

theorem step_cases (r : Relay) (event : Side × Action) :
    r.step event = r ∨ Acted r event.1 event.2 (r.step event) := by
  rw [step]
  cases taken : r.act event.1 event.2 with
  | none => exact .inl rfl
  | some after => exact .inr (acted_of_act taken)

theorem free_of_spares {event : Side × Action} (free : ¬r.Deadlocked) (spares : r.Spares event) :
    ¬(r.step event).Deadlocked := by
  intro deadlocked
  rcases r.step_cases event with same | acted
  · exact free (same ▸ deadlocked)
  · have both := deadlocked.waits event.1
    have peerWaits := acted.waits_peer both.2
    rcases acted.waits both.1 with waits | ⟨isRecv, takesIn⟩
    · exact free (deadlocked_of_waits waits peerWaits)
    · exact spares isRecv takesIn peerWaits

theorem step_blocked {pkt : UdpPacket} {rest : List FrpMessage} (selecting : (r.half side).state = .selecting)
    (arrived : (r.half side).arrived = .udpPacket pkt :: rest) (isOpen : r.isFinished side.peer = false)
    (full : relayCapacity ≤ (r.queue side.peer).length) :
    r.step (side, .recv) = r.setHalf side
      { r.half side with arrived := rest, state := .sending pkt, read := (r.half side).read ++ [pkt] } := by
  simp [step, act, selecting, arrived, offer_setHalf, isOpen, not_lt.mpr full]

theorem deadlocked_of_not_spares {event : Side × Action} (notSpared : ¬r.Spares event) : (r.step event).Deadlocked := by
  obtain ⟨side, action⟩ := event
  rw [Spares] at notSpared
  push Not at notSpared
  obtain ⟨isRecv, ⟨selecting, ⟨pkt, rest, arrived⟩, isOpen, full⟩, waits⟩ := notSpared
  dsimp only at isRecv selecting arrived isOpen full waits
  subst isRecv
  obtain ⟨⟨other, sending⟩, -, peerFull⟩ := waits
  have mine : (r.step (side, .recv)).Waits side := by
    rw [step_blocked selecting arrived isOpen full]
    exact ⟨⟨pkt, by simp⟩, by simpa using isOpen, full⟩
  have others : (r.step (side, .recv)).Waits side.peer := by
    rw [step_blocked selecting arrived isOpen full]
    refine ⟨⟨other, by simpa using sending⟩, ?_, peerFull⟩
    rw [Side.peer_peer, isFinished, half_setHalf]
    rfl
  exact deadlocked_of_waits mine others

theorem carried_start : Carried {} where
  ordered := fun _ => ⟨[], rfl, fun _ _ => rfl⟩
  cause := fun _ finished => nomatch finished

theorem not_deadlocked_start : ¬Deadlocked {} := by
  rintro ⟨⟨⟨pkt, sending⟩, -⟩, -⟩
  cases sending

/-- The relay serves both sides exactly in the runs where no half reads a packet without
room for it while the other half waits for room. -/
theorem served_iff_spares (events : List (Side × Action)) :
    Throughout step Served {} events ↔ RunMeets step Spares {} events := by
  have kept : ∀ r event, r.Carried → (step r event).Carried := by
    intro r event carried
    rcases r.step_cases event with same | acted
    · exact same.symm ▸ carried
    · exact acted.carried carried
  have preserved : ∀ r event, True → r.Spares event → r.Carried ∧ ¬r.Deadlocked →
      (step r event).Carried ∧ ¬(step r event).Deadlocked :=
    fun r event _ spares both => ⟨kept r event both.1, free_of_spares both.2 spares⟩
  exact throughout_iff_runMeets preserved (fun r both => both.1.served both.2)
    (fun r event _ _ notSpared served => served.free (deadlocked_of_not_spares notSpared))
    ⟨carried_start, not_deadlocked_start⟩ (runMeets_of_forall (fun _ _ => trivial) _ events)

theorem Waits.act (waits : r.Waits side) (internal : action.isInternal) : r.act side action = none := by
  obtain ⟨⟨pkt, sending⟩, isOpen, full⟩ := waits
  cases action with
  | arrive m => cases internal
  | close unread => cases internal
  | room => simp [Relay.act, sending, isOpen, not_lt.mpr full]
  | recv => simp [Relay.act, sending]
  | take => simp [Relay.act, sending]
  | sent => simp [Relay.act, sending]
  | failed => simp [Relay.act, sending]

theorem Deadlocked.stuck (deadlocked : r.Deadlocked) : r.Stuck := by
  refine ⟨⟨.right, deadlocked.1.2.1⟩, fun side action internal => ?_⟩
  exact (deadlocked.waits side).1.act internal

/-- As many packets as there is room for, each read as it arrives. -/
def filling (side : Side) (pkt : UdpPacket) : Nat → List (Side × Action)
  | 0 => []
  | n + 1 => (side, .arrive (.udpPacket pkt)) :: (side, .recv) :: filling side pkt n

theorem run_filling (pkt : UdpPacket) (n : Nat) (selecting : (r.half side).state = .selecting)
    (arrived : (r.half side).arrived = []) (notEnded : (r.half side).ended = false)
    (isOpen : r.isFinished side.peer = false) (fits : (r.queue side.peer).length + n ≤ relayCapacity) :
    run Relay.step r (filling side pkt n) =
      (r.setQueue side.peer (r.queue side.peer ++ List.replicate n pkt)).setHalf side
        { r.half side with read := (r.half side).read ++ List.replicate n pkt } := by
  induction n generalizing r with
  | zero =>
    rw [filling, List.replicate_zero, List.append_nil, List.append_nil, setQueue_self]
    exact (r.setHalf_self side).symm
  | succ n ih =>
    have room : (r.queue side.peer).length < relayCapacity := by omega
    have first : (r.step (side, .arrive (.udpPacket pkt))).step (side, .recv) =
        (r.setQueue side.peer (r.queue side.peer ++ [pkt])).setHalf side
          { r.half side with read := (r.half side).read ++ [pkt] } := by
      simp [step, Relay.act, selecting, arrived, notEnded, offer_setHalf, isOpen, room]
    rw [filling, run_cons, run_cons, first, ih]
    · simp [setQueue_setHalf, List.replicate_succ]
    · simpa using selecting
    · simpa using arrived
    · simpa using notEnded
    · simpa using isOpen
    · simp
      omega

/-- The state in which both halves have filled the queue of the other. -/
def filled (packets : List UdpPacket) : Relay where
  half := fun _ => { read := packets }
  queue := fun _ => packets

theorem run_fillings (pkt : UdpPacket) (n : Nat) (fits : n ≤ relayCapacity) :
    run Relay.step {} (filling .left pkt n ++ filling .right pkt n) = filled (List.replicate n pkt) := by
  have room : 0 + n ≤ relayCapacity := (Nat.zero_add n).trans_le fits
  have left := @run_filling {} .left pkt n rfl rfl rfl rfl room
  rw [run_append, left, run_filling pkt n, filled, setHalf, setQueue]
  · congr 1
    · funext side
      cases side <;> rfl
    · funext side
      cases side <;> rfl
  any_goals rfl
  exact room

/-- Both connections bring more than the halves have room for, and end. -/
def heavyTraffic : List (Side × Action) :=
  filling .left {} relayCapacity ++ filling .right {} relayCapacity ++
    [(.left, .arrive (.udpPacket {})), (.left, .recv), (.right, .arrive (.udpPacket {})), (.right, .recv),
      (.left, .close 0), (.right, .close 0)]

theorem step_arrive {m : FrpMessage} (notEnded : (r.half side).ended = false) :
    r.step (side, .arrive m) = r.setHalf side { r.half side with arrived := (r.half side).arrived ++ [m] } := by
  simp [step, Relay.act, notEnded]

theorem step_close {unread : Nat} (notEnded : (r.half side).ended = false) :
    r.step (side, .close unread) =
      r.setHalf side { r.half side with arrived := (r.half side).arrived.take unread, ended := true } := by
  simp [step, Relay.act, notEnded]

theorem stuck_heavyTraffic :
    (run Relay.step {} heavyTraffic).Deadlocked ∧ (∀ side, ((run Relay.step {} heavyTraffic).half side).ended) ∧
      (run Relay.step {} heavyTraffic).Stuck := by
  rw [heavyTraffic, run_append, run_fillings {} relayCapacity le_rfl]
  have full : relayCapacity ≤ (List.replicate relayCapacity ({} : UdpPacket)).length := List.length_replicate.ge
  generalize List.replicate relayCapacity ({} : UdpPacket) = packets at full
  obtain ⟨waiting, isWaiting⟩ : ∃ waiting : Half, waiting = { read := packets ++ [{}], state := .sending {} } := ⟨_, rfl⟩
  have first : ((filled packets).step (.left, .arrive (.udpPacket {}))).step (.left, .recv) =
      (filled packets).setHalf .left waiting := by
    rw [step_arrive rfl, step_blocked rfl rfl rfl full, setHalf_setHalf, isWaiting]
    rfl
  have second : (((filled packets).setHalf .left waiting).step (.right, .arrive (.udpPacket {}))).step (.right, .recv) =
      ((filled packets).setHalf .left waiting).setHalf .right waiting := by
    rw [step_arrive rfl, step_blocked rfl rfl (isWaiting ▸ rfl) full, setHalf_setHalf, isWaiting]
    rfl
  have last : run Relay.step (filled packets) [(.left, .arrive (.udpPacket {})), (.left, .recv),
        (.right, .arrive (.udpPacket {})), (.right, .recv), (.left, .close 0), (.right, .close 0)] =
      ⟨fun _ => { waiting with ended := true }, fun _ => packets⟩ := by
    rw [run_cons, run_cons, run_cons, run_cons, first, second, run_cons, run_cons, step_close (isWaiting ▸ rfl),
      step_close (isWaiting ▸ rfl), isWaiting, run, setHalf, setHalf, setHalf, setHalf, filled]
    congr 1
    funext side
    cases side <;> rfl
  rw [last]
  have deadlocked : Deadlocked ⟨fun _ => { waiting with ended := true }, fun _ => packets⟩ := by
    rw [isWaiting]
    exact ⟨⟨⟨_, rfl⟩, rfl, full⟩, ⟨_, rfl⟩, rfl, full⟩
  exact ⟨deadlocked, fun _ => rfl, deadlocked.stuck⟩

end Relay

end Nfrp.Udp
