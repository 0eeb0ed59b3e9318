import Mathlib.Data.Nat.Basic
import Nfrp.Lib.Runs

/-!
# The watchdog of a multiplexed session

The driver of a session hands its streams out and counts those that are still held.  It sleeps
until the next inbound stream or the next tick, and a tick closes the session where the peer has
been silent, or where no stream is held and none has been opened for a while.
-/

namespace Nfrp.Mux

open Lib

structure Timeouts where
  idleTick : Nat
  idleTimeout : Nat
  -- The deadline of the keepalive, where there is one.
  keepalive : Option Nat := none

inductive Closing where
  | silent
  | idle
  | ended
  deriving DecidableEq, Repr

/-- `active` and `lastOpen` are what the driver sees.  `live` are the instants at which the held
streams were opened, and `dropped` those of the others and of their end. -/
structure Session where
  now : Nat := 0
  active : Nat := 0
  lastOpen : Nat := 0
  lastRecv : Nat := 0
  -- When the present sleep began.
  asleep : Nat := 0
  closed : Option (Closing × Nat) := none
  live : List Nat := []
  dropped : List (Nat × Nat) := []

inductive Action where
  | accept
  | receive
  | drop (stream : Nat)
  | tick
  | fail

/-- Something happens a while after what happened before. -/
structure Event where
  after : Nat
  action : Action

namespace Session

variable (cfg : Timeouts)

def isSilent (s : Session) : Bool := cfg.keepalive.any (· ≤ s.now - s.lastRecv)

def isIdle (s : Session) : Bool := s.active = 0 && cfg.idleTimeout ≤ s.now - s.lastOpen

/-- The sleep of the driver is over, and it still drives. -/
def isDue (s : Session) : Bool := s.closed.isNone && s.asleep + cfg.idleTick ≤ s.now

def act (s : Session) : Action → Session
  | .accept =>
    if s.closed.isSome then s
    else { s with active := s.active + 1, lastOpen := s.now, asleep := s.now, live := s.now :: s.live }
  | .receive => { s with lastRecv := s.now }
  | .drop stream =>
    match s.live[stream]? with
    | none => s
    | some opened =>
      { s with
        active := s.active - 1
        live := s.live.eraseIdx stream
        dropped := (opened, s.now) :: s.dropped }
  | .tick =>
    if s.isDue cfg then
      if s.isSilent cfg then { s with closed := some (.silent, s.now) }
      else if s.isIdle cfg then { s with closed := some (.idle, s.now) }
      else { s with asleep := s.now }
    else s
  | .fail => if s.closed.isSome then s else { s with closed := some (.ended, s.now) }

def passes (s : Session) (after : Nat) : Session := { s with now := s.now + after }

def step (s : Session) (e : Event) : Session := (s.passes e.after).act cfg e.action

def ActiveAt (s : Session) (t : Nat) : Prop :=
  (∃ opened ∈ s.live, opened ≤ t) ∨ ∃ stream ∈ s.dropped, stream.1 ≤ t ∧ t < stream.2

/-- Where the session was closed as idle, no stream was held during the whole timeout before. -/
def RightlyIdle (s : Session) : Prop :=
  ∀ closed, s.closed = some (.idle, closed) → ∀ t, closed ≤ t + cfg.idleTimeout → t ≤ closed → ¬ s.ActiveAt t

/-- A tick that closes the session as idle comes no sooner than the timeout after the last stream
was dropped. -/
def Meets (s : Session) (e : Event) : Prop :=
  let s := s.passes e.after
  e.action = .tick → s.isDue cfg → ¬ s.isSilent cfg → s.isIdle cfg →
    ∀ stream ∈ s.dropped, stream.2 + cfg.idleTimeout ≤ s.now

structure Agrees (s : Session) : Prop where
  counted : s.active = s.live.length
  opened : s.lastOpen ≤ s.now
  live : ∀ opened ∈ s.live, opened ≤ s.lastOpen
  dropped : ∀ stream ∈ s.dropped, stream.1 ≤ s.lastOpen ∧ stream.2 ≤ s.now
  idle : ∀ closed, s.closed = some (.idle, closed) → s.live = []

variable {cfg} {s : Session} {a : Action} {e : Event} {closed : Nat}

theorem agrees_start : Agrees {} where
  counted := rfl
  opened := le_rfl
  live := by rintro _ ⟨⟩
  dropped := by rintro _ ⟨⟩
  idle := by rintro _ ⟨⟩

theorem Agrees.passes (agrees : s.Agrees) (after : Nat) : (s.passes after).Agrees where
  counted := agrees.counted
  opened := Nat.le_add_right_of_le agrees.opened
  live := agrees.live
  dropped stream isDropped :=
    ⟨(agrees.dropped stream isDropped).1, Nat.le_add_right_of_le (agrees.dropped stream isDropped).2⟩
  idle := agrees.idle

theorem Agrees.drop (agrees : s.Agrees) (stream : Nat) : (s.act cfg (.drop stream)).Agrees := by
  rw [act]
  split
  · exact agrees
  · next opened isLive =>
    have inLive := List.mem_of_getElem? isLive
    have inside : stream < s.live.length := (List.getElem?_eq_some_iff.mp isLive).1
    refine ⟨?_, agrees.opened, ?_, ?_, ?_⟩
    · rw [List.length_eraseIdx_of_lt inside, agrees.counted]
    · exact fun other isOther => agrees.live other (List.mem_of_mem_eraseIdx isOther)
    · intro other isOther
      rcases List.mem_cons.mp isOther with rfl | isOther
      · exact ⟨agrees.live opened inLive, le_rfl⟩
      · exact agrees.dropped other isOther
    · intro closed isClosed
      rw [agrees.idle closed isClosed] at inLive
      cases inLive

theorem Agrees.act (agrees : s.Agrees) (a : Action) : (s.act cfg a).Agrees := by
  cases a with
  | accept =>
    rw [Session.act]
    split
    · exact agrees
    · next isOpen =>
      refine ⟨congrArg (· + 1) agrees.counted, le_rfl, ?_, ?_, ?_⟩
      · intro opened isLive
        rcases List.mem_cons.mp isLive with rfl | isLive
        · exact le_rfl
        · exact Nat.le_trans (agrees.live opened isLive) agrees.opened
      · exact fun stream isDropped =>
          ⟨Nat.le_trans (agrees.dropped stream isDropped).1 agrees.opened, (agrees.dropped stream isDropped).2⟩
      · intro closed isClosed
        exact absurd (Option.isSome_iff_exists.mpr ⟨_, isClosed⟩) isOpen
  | receive => exact ⟨agrees.counted, agrees.opened, agrees.live, agrees.dropped, agrees.idle⟩
  | drop stream => exact agrees.drop stream
  | tick =>
    rw [Session.act]
    split
    · split
      · refine ⟨agrees.counted, agrees.opened, agrees.live, agrees.dropped, ?_⟩
        rintro closed ⟨⟩
      · split
        · next idle =>
          refine ⟨agrees.counted, agrees.opened, agrees.live, agrees.dropped, fun _ _ => ?_⟩
          simp only [isIdle, Bool.and_eq_true, decide_eq_true_eq] at idle
          exact List.length_eq_zero_iff.mp (agrees.counted.symm.trans idle.1)
        · exact ⟨agrees.counted, agrees.opened, agrees.live, agrees.dropped, agrees.idle⟩
    · exact agrees
  | fail =>
    rw [Session.act]
    split
    · exact agrees
    · refine ⟨agrees.counted, agrees.opened, agrees.live, agrees.dropped, ?_⟩
      rintro closed ⟨⟩

/-- A session that is closed as idle was so before, and nothing of its streams is changed, or this
tick has closed it. -/
theorem act_closed_idle (agrees : s.Agrees) (isClosed : (s.act cfg a).closed = some (.idle, closed)) :
    (s.closed = some (.idle, closed) ∧ (s.act cfg a).live = s.live ∧ (s.act cfg a).dropped = s.dropped) ∨
      a = .tick ∧ s.isDue cfg ∧ ¬ s.isSilent cfg ∧ s.isIdle cfg ∧ closed = s.now ∧
        s.act cfg a = { s with closed := some (.idle, s.now) } := by
  cases a with
  | accept =>
    rw [act] at isClosed ⊢
    split at isClosed
    · next had =>
      rw [if_pos had]
      exact .inl ⟨isClosed, rfl, rfl⟩
    · next isOpen => exact absurd (Option.isSome_iff_exists.mpr ⟨_, isClosed⟩) isOpen
  | receive => exact .inl ⟨isClosed, rfl, rfl⟩
  | drop stream =>
    have before : s.closed = some (.idle, closed) := by
      rw [act] at isClosed
      split at isClosed
      · exact isClosed
      · exact isClosed
    have nothing : s.live[stream]? = none := by simp [agrees.idle closed before]
    rw [act, nothing]
    exact .inl ⟨before, rfl, rfl⟩
  | tick =>
    rw [act] at isClosed ⊢
    split at isClosed
    · next due =>
      split at isClosed
      · cases isClosed
      · next heard =>
        split at isClosed
        · next idle =>
          rw [if_pos due, if_neg heard, if_pos idle]
          cases isClosed
          exact .inr ⟨rfl, due, heard, idle, rfl, rfl⟩
        · next busy =>
          rw [if_pos due, if_neg heard, if_neg busy]
          exact .inl ⟨isClosed, rfl, rfl⟩
    · next asleep =>
      rw [if_neg asleep]
      exact .inl ⟨isClosed, rfl, rfl⟩
  | fail =>
    rw [act] at isClosed ⊢
    split at isClosed
    · next had =>
      rw [if_pos had]
      exact .inl ⟨isClosed, rfl, rfl⟩
    · cases isClosed

/-- Where no stream is held and none was opened during the timeout, the last one to be dropped
decides whether one was held. -/
theorem rightlyIdle_iff_dropped (agrees : s.Agrees) (idle : s.isIdle cfg) :
    RightlyIdle cfg { s with closed := some (.idle, s.now) } ↔
      ∀ stream ∈ s.dropped, stream.2 + cfg.idleTimeout ≤ s.now := by
  simp only [isIdle, Bool.and_eq_true, decide_eq_true_eq] at idle
  have noLive : s.live = [] := List.length_eq_zero_iff.mp (agrees.counted.symm.trans idle.1)
  constructor
  · intro right stream isDropped
    by_contra recent
    have opened := (agrees.dropped stream isDropped).1
    have sooner := agrees.opened
    apply right s.now rfl (s.now - cfg.idleTimeout) (by omega) (by omega)
    exact .inr ⟨stream, isDropped, by omega, by omega⟩
  · rintro long closed ⟨⟩ t since _ (⟨opened, isLive, -⟩ | ⟨stream, isDropped, -, before⟩)
    · rw [noLive] at isLive
      cases isLive
    · have ended := long stream isDropped
      omega

theorem RightlyIdle.passes (right : s.RightlyIdle cfg) (after : Nat) : (s.passes after).RightlyIdle cfg := right

theorem rightlyIdle_step_iff (agrees : s.Agrees) (right : s.RightlyIdle cfg) (e : Event) :
    (s.step cfg e).RightlyIdle cfg ↔ s.Meets cfg e := by
  have passed := agrees.passes e.after
  constructor
  · rintro rightAfter isTick due heard idle
    apply (rightlyIdle_iff_dropped passed idle).mp
    rwa [step, isTick, act, if_pos due, if_neg heard, if_pos idle] at rightAfter
  · intro meets closed isClosed
    rcases act_closed_idle passed isClosed with ⟨before, sameLive, sameDropped⟩ | ⟨isTick, due, heard, idle, rfl, same⟩
    · have still := right.passes e.after closed before
      unfold ActiveAt step
      rwa [sameLive, sameDropped]
    · have rightAfter := (rightlyIdle_iff_dropped passed idle).mpr (meets isTick due heard idle)
      rw [step, same]
      exact rightAfter _ rfl

/-- No session is closed as idle while a stream is held. -/
theorem not_closed_while_active (cfg : Timeouts) (events : List Event) (closed : Nat)
    (isClosed : (run (step cfg) {} events).closed = some (.idle, closed)) : (run (step cfg) {} events).live = [] := by
  have agrees : (run (step cfg) {} events).Agrees := by
    apply run_invariant _ agrees_start
    exact fun s e agrees => (agrees.passes e.after).act e.action
  exact agrees.idle closed isClosed

/-- The runs in which the watchdog closes only what was idle are those whose ticks come long enough
after the last stream was dropped. -/
theorem rightlyIdle_throughout_iff (cfg : Timeouts) (events : List Event) :
    Throughout (step cfg) (RightlyIdle cfg) {} events ↔ RunMeets (step cfg) (Meets cfg) {} events := by
  have start : ({} : Session).RightlyIdle cfg := by
    rintro closed ⟨⟩
  have preserved : ∀ (s : Session) e, True → s.Meets cfg e → s.Agrees ∧ s.RightlyIdle cfg →
      (s.step cfg e).Agrees ∧ (s.step cfg e).RightlyIdle cfg := by
    rintro s e - meets ⟨agrees, right⟩
    exact ⟨(agrees.passes e.after).act e.action, (rightlyIdle_step_iff agrees right e).mpr meets⟩
  have breaks : ∀ (s : Session) e, True → s.Agrees ∧ s.RightlyIdle cfg → ¬ s.Meets cfg e →
      ¬ (s.step cfg e).RightlyIdle cfg := by
    rintro s e - ⟨agrees, right⟩ fails rightAfter
    exact fails ((rightlyIdle_step_iff agrees right e).mp rightAfter)
  apply throughout_iff_runMeets preserved (fun s invariant => invariant.2) breaks ⟨agrees_start, start⟩
  exact runMeets_of_forall (fun _ _ => trivial) _ _

def serverTimeouts : Timeouts := { idleTick := 2, idleTimeout := 30 }

/-- A control stream that is held for 31 seconds, and ends a second before a tick. -/
def longHeld : List Event :=
  ⟨0, .accept⟩ :: List.replicate 15 ⟨2, .tick⟩ ++ [⟨1, .drop 0⟩, ⟨1, .tick⟩]

theorem not_closed_while_active_longHeld : (run (step serverTimeouts) {} longHeld).live = [] :=
  not_closed_while_active serverTimeouts longHeld 32 (by decide)

theorem not_rightlyIdle_longHeld : ¬ RightlyIdle serverTimeouts (run (step serverTimeouts) {} longHeld) := by
  intro right
  have isClosed : (run (step serverTimeouts) {} longHeld).closed = some (.idle, 32) := by decide
  apply right 32 isClosed 30 (by decide) (by decide)
  exact .inr ⟨(0, 31), by decide, by decide, by decide⟩

end Session

end Nfrp.Mux
