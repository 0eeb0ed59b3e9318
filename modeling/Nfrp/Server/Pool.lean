import Nfrp.Lib.Handoff
import Nfrp.Server.Slots

/-!
# The pool of a client

Work connections lie in the pool, or users wait in it.  A user that comes takes a
connection, and a connection that comes takes a user; others ask for a connection, look
whether there is one, and wait until they are notified.  Each lock of the pool is one step.
-/

namespace Nfrp.Pool

open Lib

structure WorkItem where
  id : Nat
  at_ : Nat
  idlePermit : Option Permit := none
  deriving DecidableEq, Repr

structure PendingUser where
  id : Nat
  at_ : Nat
  queuePermit : Option Permit := none
  deriving DecidableEq, Repr

structure PoolState where
  work : List WorkItem := []
  users : List PendingUser := []

namespace PoolState

variable (now workTimeout userTimeout : Nat)

def oldWork (g : PoolState) : List WorkItem := g.work.takeWhile fun w => decide (workTimeout < now - w.at_)

def oldUsers (g : PoolState) : List PendingUser := g.users.takeWhile fun u => decide (userTimeout < now - u.at_)

def reap (g : PoolState) : PoolState where
  work := g.work.dropWhile fun w => decide (workTimeout < now - w.at_)
  users := g.users.dropWhile fun u => decide (userTimeout < now - u.at_)

end PoolState

/-- What has become of a user or of a work connection; `paired` tells with which. -/
inductive End where
  | paired (other : Nat)
  | acquired
  | expired (waited : Nat)
  | full (limit : Limit)
  | stopped
  | suspended
  deriving DecidableEq, Repr

/-- How a call was woken: by the permit that was stored, alone, or with all others. -/
inductive Notification where
  | stored
  | one
  | all
  deriving DecidableEq, Repr

structure Call where
  id : Nat
  wait : Nat
  deadline : Nat := 0
  deriving DecidableEq, Repr

/-- What was handed out keeps its permits until its relay ends. -/
structure Relay where
  idlePermit : Option Permit
  queuePermit : Option Permit
  deriving DecidableEq, Repr

/-- The pool with the calls that are under way: users between the check and the lock, work
connections in the pool nobody was notified of yet, and those that ask for one, by what
they do next.  `came` are the users in the order they got to the pool, and the ends are
listed as they come. -/
structure ClientState where
  idleTimeout : Nat
  userConnTimeout : Nat
  idleWorkLimit : Limit
  backlogLimit : Limit
  suspended : Bool := false
  stopped : Bool := false
  clock : Nat := 0
  pool : PoolState := {}
  workNotify : Notify Call := {}
  submitting : List PendingUser := []
  notifying : Nat := 0
  starting : List Call := []
  looked : List Call := []
  asking : List Call := []
  woken : List (Call × Notification) := []
  relays : List Relay := []
  came : List Nat := []
  userEnds : List (Nat × End) := []
  workEnds : List (Nat × End) := []
  nextUser : Nat := 0
  nextWork : Nat := 0
  nextCall : Nat := 0

def counted (permits : List (Option Permit)) : Nat := permits.count (some .counted)

namespace ClientState

variable (s : ClientState)

def reap : ClientState :=
  let oldWork := s.pool.oldWork s.clock s.idleTimeout
  let oldUsers := s.pool.oldUsers s.clock s.userConnTimeout
  { s with
    pool := s.pool.reap s.clock s.idleTimeout s.userConnTimeout
    idleWorkLimit := s.idleWorkLimit.release (counted (oldWork.map (·.idlePermit)))
    backlogLimit := s.backlogLimit.release (counted (oldUsers.map (·.queuePermit)))
    workEnds := s.workEnds ++ oldWork.map fun w => (w.id, .expired (s.clock - w.at_))
    userEnds := s.userEnds ++ oldUsers.map fun u => (u.id, .expired (s.clock - u.at_)) }

def pair (user : PendingUser) (work : WorkItem) : ClientState :=
  { s with
    relays := s.relays ++ [⟨work.idlePermit, user.queuePermit⟩]
    userEnds := s.userEnds ++ [(user.id, .paired work.id)]
    workEnds := s.workEnds ++ [(work.id, .paired user.id)] }

def submitUser (user : PendingUser) : ClientState :=
  let s := s.reap
  let s := { s with came := s.came ++ [user.id] }
  match s.pool.work with
  | work :: rest => { s with pool := { s.pool with work := rest } }.pair user work
  | [] =>
    match s.backlogLimit.tryAcquire with
    | none => { s with userEnds := s.userEnds ++ [(user.id, .full s.backlogLimit)] }
    | some (permit, backlogLimit) =>
      { s with
        backlogLimit
        pool := { s.pool with users := s.pool.users ++ [{ user with queuePermit := some permit }] } }

def submitWork (work : WorkItem) : ClientState :=
  let s := s.reap
  match s.pool.users with
  | user :: rest => { s with pool := { s.pool with users := rest } }.pair user work
  | [] =>
    match s.idleWorkLimit.tryAcquire with
    | none => { s with workEnds := s.workEnds ++ [(work.id, .full s.idleWorkLimit)] }
    | some (permit, idleWorkLimit) =>
      { s with
        idleWorkLimit
        pool := { s.pool with work := s.pool.work ++ [{ work with idlePermit := some permit }] }
        notifying := s.notifying + 1 }

/-- The call has the first work connection, or goes on to wait. -/
def take (call : Call) : ClientState :=
  match s.pool.work with
  | work :: rest =>
    { s with
      pool := { s.pool with work := rest }
      relays := s.relays ++ [⟨work.idlePermit, none⟩]
      workEnds := s.workEnds ++ [(work.id, .acquired)] }
  | [] => { s with looked := s.looked ++ [call] }

def notifyOne : ClientState :=
  match s.workNotify.notifyOne with
  | (workNotify, some call) => { s with workNotify, woken := s.woken ++ [(call, .one)] }
  | (workNotify, none) => { s with workNotify }

/-- A call waits for its notification, or has it at once. -/
def notified (call : Call) : ClientState :=
  match s.workNotify.notified call with
  | (workNotify, true) => { s with workNotify, woken := s.woken ++ [(call, .stored)] }
  | (workNotify, false) => { s with workNotify }

end ClientState

/-- A user or a work connection comes, or a call by its number goes on; `stop` takes three
steps.  A call that is dropped passes on the notification it alone was given. -/
inductive Event where
  | elapsed (time : Nat)
  | suspend
  | resume
  | stop
  | clear
  | notifyWaiters
  | user
  | submitUser (id : Nat)
  | work (delay : Nat)
  | notify
  | acquire (wait : Nat)
  | look (id : Nat)
  | ask (id : Nat)
  | await (id : Nat)
  | wake (id : Nat)
  | timeout (id : Nat)
  | drop (id : Nat)
  | ended (index : Nat)

namespace ClientState

def step (s : ClientState) : Event → ClientState
  | .elapsed time => { s with clock := s.clock + time }
  | .suspend => { s with suspended := true }
  | .resume => { s with suspended := false }
  | .stop => { s with stopped := true }
  | .clear =>
    if s.stopped then
      { s with
        pool := { s.pool with work := [] }
        idleWorkLimit := s.idleWorkLimit.release (counted (s.pool.work.map (·.idlePermit)))
        workEnds := s.workEnds ++ s.pool.work.map fun w => (w.id, .stopped) }
    else s
  | .notifyWaiters =>
    if s.stopped then
      { s with
        workNotify := s.workNotify.notifyWaiters.1
        woken := s.woken ++ s.workNotify.notifyWaiters.2.map fun call => (call, .all) }
    else s
  | .user =>
    let s := { s with nextUser := s.nextUser + 1 }
    let id := s.nextUser - 1
    if s.suspended then { s with userEnds := s.userEnds ++ [(id, .suspended)] }
    else if s.stopped then { s with userEnds := s.userEnds ++ [(id, .stopped)] }
    else { s with submitting := s.submitting ++ [{ id, at_ := s.clock }] }
  | .submitUser id =>
    match s.submitting.find? (·.id = id) with
    | none => s
    | some user => { s with submitting := s.submitting.erase user }.submitUser user
  | .work delay => { s with nextWork := s.nextWork + 1 }.submitWork { id := s.nextWork, at_ := s.clock - delay }
  | .notify => if s.notifying = 0 then s else { s with notifying := s.notifying - 1 }.notifyOne
  | .acquire wait =>
    if s.suspended || s.stopped then s
    else { s with starting := s.starting ++ [{ id := s.nextCall, wait }], nextCall := s.nextCall + 1 }
  | .look id =>
    match s.starting.find? (·.id = id) with
    | none => s
    | some call => { s with starting := s.starting.erase call }.take { call with deadline := s.clock + call.wait }
  | .ask id =>
    match s.looked.find? (·.id = id) with
    | none => s
    | some call =>
      let s := { s with looked := s.looked.erase call }
      if s.stopped || call.deadline < s.clock then s else { s with asking := s.asking ++ [call] }
  | .await id =>
    match s.asking.find? (·.id = id) with
    | none => s
    | some call => { s with asking := s.asking.erase call }.notified call
  | .wake id =>
    match s.woken.find? (·.1.id = id) with
    | none => s
    | some woken => { s with woken := s.woken.erase woken }.take woken.1
  | .timeout id =>
    match s.workNotify.waiters.find? (·.id = id) with
    | none => s
    | some call =>
      if call.deadline ≤ s.clock then
        { s with workNotify := { s.workNotify with waiters := s.workNotify.waiters.erase call } }
      else s
  | .drop id =>
    match s.workNotify.waiters.find? (·.id = id) with
    | some call => { s with workNotify := { s.workNotify with waiters := s.workNotify.waiters.erase call } }
    | none =>
      match s.woken.find? (·.1.id = id) with
      | none => s
      | some woken =>
        match woken.2 with
        | .stored => s
        | .one => { s with woken := s.woken.erase woken }.notifyOne
        | .all => { s with woken := s.woken.erase woken }
  | .ended index =>
    match s.relays[index]? with
    | none => s
    | some relay =>
      { s with
        relays := s.relays.eraseIdx index
        idleWorkLimit := s.idleWorkLimit.release (counted [relay.idlePermit])
        backlogLimit := s.backlogLimit.release (counted [relay.queuePermit]) }

def idleCap (backlogMax maxPoolCount : Nat) : Nat :=
  match backlogMax, maxPoolCount with
  | 0, 0 => 0
  | 0, m => m
  | b, 0 => b
  | b, m => min b m

def new (idleTimeout userConnTimeout backlogMax maxPoolCount : Nat) : ClientState where
  idleTimeout
  userConnTimeout
  idleWorkLimit := .new (idleCap backlogMax maxPoolCount)
  backlogLimit := .new backlogMax

def Reaches (s : ClientState) : Event → Prop
  | .submitUser id => (s.submitting.find? (·.id = id)).isSome
  | .work _ => True
  | .look id => (s.starting.find? (·.id = id)).isSome
  | .wake id => (s.woken.find? (·.1.id = id)).isSome
  | _ => False

inductive Change (s : ClientState) : Event → ClientState → Prop where
  | idle (event : Event) (nothing : ¬s.Reaches event) : Change s event s
  | elapsed (time : Nat) : Change s (.elapsed time) { s with clock := s.clock + time }
  | suspend : Change s .suspend { s with suspended := true }
  | resume : Change s .resume { s with suspended := false }
  | stop : Change s .stop { s with stopped := true }
  | clear (stopped : s.stopped = true) : Change s .clear
      { s with
        pool := { s.pool with work := [] }
        idleWorkLimit := s.idleWorkLimit.release (counted (s.pool.work.map (·.idlePermit)))
        workEnds := s.workEnds ++ s.pool.work.map fun w => (w.id, .stopped) }
  | notifyWaiters : Change s .notifyWaiters
      { s with
        workNotify := s.workNotify.notifyWaiters.1
        woken := s.woken ++ s.workNotify.notifyWaiters.2.map fun call => (call, .all) }
  | turnAway (reason : End) (isReason : reason = .suspended ∨ reason = .stopped ∧ s.stopped = true) : Change s .user
      { s with nextUser := s.nextUser + 1, userEnds := s.userEnds ++ [(s.nextUser, reason)] }
  | user : Change s .user
      { s with nextUser := s.nextUser + 1, submitting := s.submitting ++ [{ id := s.nextUser, at_ := s.clock }] }
  | submitUser (id : Nat) (user : PendingUser) (isUser : s.submitting.find? (·.id = id) = some user) :
      Change s (.submitUser id) ({ s with submitting := s.submitting.erase user }.submitUser user)
  | work (delay : Nat) : Change s (.work delay)
      ({ s with nextWork := s.nextWork + 1 }.submitWork { id := s.nextWork, at_ := s.clock - delay })
  | notify (some : s.notifying ≠ 0) : Change s .notify ({ s with notifying := s.notifying - 1 }.notifyOne)
  | acquire (wait : Nat) : Change s (.acquire wait)
      { s with starting := s.starting ++ [{ id := s.nextCall, wait }], nextCall := s.nextCall + 1 }
  | look (id : Nat) (call : Call) (isCall : s.starting.find? (·.id = id) = some call) : Change s (.look id)
      ({ s with starting := s.starting.erase call }.take { call with deadline := s.clock + call.wait })
  | giveUp (id : Nat) (call : Call) (isCall : s.looked.find? (·.id = id) = some call) :
      Change s (.ask id) { s with looked := s.looked.erase call }
  | ask (id : Nat) (call : Call) (isCall : s.looked.find? (·.id = id) = some call) :
      Change s (.ask id) { s with looked := s.looked.erase call, asking := s.asking ++ [call] }
  | await (id : Nat) (call : Call) (isCall : s.asking.find? (·.id = id) = some call) :
      Change s (.await id) ({ s with asking := s.asking.erase call }.notified call)
  | wake (id : Nat) (woken : Call × Notification) (isWoken : s.woken.find? (·.1.id = id) = some woken) :
      Change s (.wake id) ({ s with woken := s.woken.erase woken }.take woken.1)
  | timeout (id : Nat) (call : Call) : Change s (.timeout id)
      { s with workNotify := { s.workNotify with waiters := s.workNotify.waiters.erase call } }
  | leave (id : Nat) (call : Call) : Change s (.drop id)
      { s with workNotify := { s.workNotify with waiters := s.workNotify.waiters.erase call } }
  | passOn (id : Nat) (woken : Call × Notification) (isWoken : s.woken.find? (·.1.id = id) = some woken)
      (isOne : woken.2 = .one) : Change s (.drop id) ({ s with woken := s.woken.erase woken }.notifyOne)
  | forget (id : Nat) (woken : Call × Notification) (isWoken : s.woken.find? (·.1.id = id) = some woken)
      (isAll : woken.2 = .all) : Change s (.drop id) { s with woken := s.woken.erase woken }
  | ended (index : Nat) (relay : Relay) (isRelay : s.relays[index]? = some relay) : Change s (.ended index)
      { s with
        relays := s.relays.eraseIdx index
        idleWorkLimit := s.idleWorkLimit.release (counted [relay.idlePermit])
        backlogLimit := s.backlogLimit.release (counted [relay.queuePermit]) }

theorem change_step (s : ClientState) (event : Event) : Change s event (s.step event) := by
  cases event with
  | elapsed time => exact .elapsed time
  | suspend => exact .suspend
  | resume => exact .resume
  | stop => exact .stop
  | clear =>
    dsimp only [step]
    split
    next stopped => exact .clear stopped
    next => exact .idle _ not_false
  | notifyWaiters =>
    dsimp only [step]
    split
    next => exact .notifyWaiters
    next => exact .idle _ not_false
  | user =>
    dsimp only [step]
    split
    next => exact .turnAway _ (.inl rfl)
    next =>
      split
      next stopped => exact .turnAway _ (.inr ⟨rfl, stopped⟩)
      next => exact .user
  | submitUser id =>
    dsimp only [step]
    split
    next none => exact .idle _ (by simp [Reaches, none])
    next user isUser => exact .submitUser id user isUser
  | work delay => exact .work delay
  | notify =>
    dsimp only [step]
    split
    next => exact .idle _ not_false
    next some => exact .notify some
  | acquire wait =>
    dsimp only [step]
    split
    next => exact .idle _ not_false
    next => exact .acquire wait
  | look id =>
    dsimp only [step]
    split
    next none => exact .idle _ (by simp [Reaches, none])
    next call isCall => exact .look id call isCall
  | ask id =>
    dsimp only [step]
    split
    next => exact .idle _ not_false
    next call isCall =>
      split
      next => exact .giveUp id call isCall
      next => exact .ask id call isCall
  | await id =>
    dsimp only [step]
    split
    next => exact .idle _ not_false
    next call isCall => exact .await id call isCall
  | wake id =>
    dsimp only [step]
    split
    next none => exact .idle _ (by simp [Reaches, none])
    next woken isWoken => exact .wake id woken isWoken
  | timeout id =>
    dsimp only [step]
    split
    next => exact .idle _ not_false
    next call _ =>
      split
      next => exact .timeout id call
      next => exact .idle _ not_false
  | drop id =>
    dsimp only [step]
    split
    next call _ => exact .leave id call
    next =>
      split
      next => exact .idle _ not_false
      next woken isWoken =>
        split
        next => exact .idle _ not_false
        next isOne => exact .passOn id woken isWoken isOne
        next isAll => exact .forget id woken isWoken isAll
  | ended index =>
    dsimp only [step]
    split
    next => exact .idle _ not_false
    next relay isRelay => exact .ended index relay isRelay

end ClientState

end Nfrp.Pool
