import Mathlib.Data.List.TakeWhile
import Nfrp.Lib.Line
import Nfrp.Server.Pool

/-!
# Pairing users with work connections

Every user and every work connection that came is in one place: on its way, in the pool, or
with the one end it has.  What is in the pool is of one kind only, and the users are paired
in the order they came.
-/

namespace Nfrp.Pool

open Lib

def End.isPaired : End → Bool
  | .paired _ => true
  | _ => false

def Exhausted (l : Limit) (max : Nat) : Prop := l.max = max ∧ max ≠ 0 ∧ l.available = 0

def ClientState.UserReason (s : ClientState) : End → Prop
  | .paired _ => True
  | .acquired => False
  | .expired waited => s.userConnTimeout < waited
  | .full limit => Exhausted limit s.backlogLimit.max
  | .stopped => s.stopped
  | .suspended => True

def ClientState.WorkReason (s : ClientState) : End → Prop
  | .paired _ => True
  | .acquired => True
  | .expired waited => s.idleTimeout < waited
  | .full limit => Exhausted limit s.idleWorkLimit.max
  | .stopped => s.stopped
  | .suspended => False

/-- Both sides know of every pair. -/
def Matched (userEnds workEnds : List (Nat × End)) : Prop :=
  ∀ user work, (user, .paired work) ∈ userEnds ↔ (work, .paired user) ∈ workEnds

/-- As far as the users and the work connections go that are on their way. -/
structure SoundBut (users works : List Nat) (s : ClientState) : Prop where
  exclusive : s.pool.work = [] ∨ s.pool.users = []
  inTurn : InTurn End.isPaired s.came s.userEnds (s.pool.users.map (·.id))
  users : Placed s.userEnds (s.pool.users.map (·.id)) (users ++ s.submitting.map (·.id)) s.nextUser
  works : Placed s.workEnds (s.pool.work.map (·.id)) works s.nextWork
  matched : Matched s.userEnds s.workEnds
  userReason : ∀ e ∈ s.userEnds, s.UserReason e.2
  workReason : ∀ e ∈ s.workEnds, s.WorkReason e.2

/-- Nothing that came is lost or handed out twice, and users have their turn; besides a
timeout, a limit and a stop only a suspension turns them away. -/
def Sound (s : ClientState) : Prop := SoundBut [] [] s

/-- Not even a suspension does. -/
def SoundAlways (s : ClientState) : Prop := Sound s ∧ ∀ e ∈ s.userEnds, e.2 ≠ .suspended

section Parts

variable {userEnds workEnds left : List (Nat × End)}

theorem Matched.users (matched : Matched userEnds workEnds) (unpaired : ∀ e ∈ left, e.2.isPaired = false) :
    Matched (userEnds ++ left) workEnds := by
  intro user work
  have notLeft : (user, End.paired work) ∉ left := fun member => Bool.noConfusion (unpaired _ member)
  rw [List.mem_append, or_iff_left notLeft]
  exact matched user work

theorem Matched.works (matched : Matched userEnds workEnds) (unpaired : ∀ e ∈ left, e.2.isPaired = false) :
    Matched userEnds (workEnds ++ left) := by
  intro user work
  have notLeft : (work, End.paired user) ∉ left := fun member => Bool.noConfusion (unpaired _ member)
  rw [List.mem_append, or_iff_left notLeft]
  exact matched user work

theorem Matched.pair (matched : Matched userEnds workEnds) (user work : Nat) :
    Matched (userEnds ++ [(user, .paired work)]) (workEnds ++ [(work, .paired user)]) := by
  intro otherUser otherWork
  rw [List.mem_append, List.mem_append, matched otherUser otherWork, List.mem_singleton, List.mem_singleton]
  simp only [Prod.mk.injEq, End.paired.injEq]
  rw [@and_comm (otherUser = user)]

theorem exhausted_of_none {l : Limit} (none : l.tryAcquire = none) : Exhausted l l.max := by
  unfold Limit.tryAcquire at none
  split at none
  next => cases none
  next limited =>
    split at none
    next isNone => exact ⟨rfl, limited, isNone⟩
    next => cases none

theorem max_of_acquired {l after : Limit} {permit : Permit} (acquired : l.tryAcquire = some (permit, after)) :
    after.max = l.max := by
  unfold Limit.tryAcquire at acquired
  split at acquired
  next =>
    obtain ⟨-, rfl⟩ := Prod.mk.inj (Option.some.inj acquired)
    rfl
  next =>
    split at acquired
    next => cases acquired
    next =>
      obtain ⟨-, rfl⟩ := Prod.mk.inj (Option.some.inj acquired)
      rfl

end Parts

section Operations

section Reasons

variable {s t : ClientState} {e : End}

theorem ClientState.UserReason.of_same (reason : s.UserReason e) (sameTimeout : t.userConnTimeout = s.userConnTimeout)
    (sameMax : t.backlogLimit.max = s.backlogLimit.max) (stopped : s.stopped → t.stopped) : t.UserReason e := by
  cases e with
  | expired waited => exact sameTimeout.trans_lt reason
  | full limit => exact ⟨reason.1.trans sameMax.symm, sameMax.trans_ne reason.2.1, reason.2.2⟩
  | stopped => exact stopped reason
  | _ => exact reason

theorem ClientState.WorkReason.of_same (reason : s.WorkReason e) (sameTimeout : t.idleTimeout = s.idleTimeout)
    (sameMax : t.idleWorkLimit.max = s.idleWorkLimit.max) (stopped : s.stopped → t.stopped) : t.WorkReason e := by
  cases e with
  | expired waited => exact sameTimeout.trans_lt reason
  | full limit => exact ⟨reason.1.trans sameMax.symm, sameMax.trans_ne reason.2.1, reason.2.2⟩
  | stopped => exact stopped reason
  | _ => exact reason

end Reasons

variable {s : ClientState} {users works : List Nat} {id : Nat} {reason : End}

theorem SoundBut.usersLeave (sound : SoundBut users works s) {left rest : List PendingUser} (reason : PendingUser → End)
    (isUsers : left ++ rest = s.pool.users) (unpaired : ∀ u ∈ left, (reason u).isPaired = false)
    (reasons : ∀ u ∈ left, s.UserReason (reason u)) (count : Nat) :
    SoundBut users works
      { s with
        pool := { s.pool with users := rest }
        backlogLimit := s.backlogLimit.release count
        userEnds := s.userEnds ++ left.map fun u => (u.id, reason u) } := by
  have isLeft : (left.map fun u => (u.id, reason u)).map Prod.fst = left.map (·.id) := List.map_map
  have sameUsers : s.pool.users.map (·.id) = (left.map fun u => (u.id, reason u)).map Prod.fst ++ rest.map (·.id) := by
    rw [isLeft, ← List.map_append, isUsers]
  have leftUnpaired : ∀ e ∈ left.map fun u => (u.id, reason u), e.2.isPaired = false :=
    List.forall_mem_map.mpr unpaired
  refine { sound with
    exclusive := ?_
    inTurn := InTurn.leave (sameUsers ▸ sound.inTurn) leftUnpaired
    users := Placed.leave (sameUsers ▸ sound.users)
    matched := sound.matched.users leftUnpaired
    userReason := List.forall_mem_append.mpr ⟨sound.userReason, List.forall_mem_map.mpr reasons⟩ }
  exact sound.exclusive.imp_right fun none => (List.append_eq_nil_iff.mp (isUsers.trans none)).2

theorem SoundBut.worksLeave (sound : SoundBut users works s) {left rest : List WorkItem} (reason : WorkItem → End)
    (isWork : left ++ rest = s.pool.work) (unpaired : ∀ w ∈ left, (reason w).isPaired = false)
    (reasons : ∀ w ∈ left, s.WorkReason (reason w)) (count : Nat) :
    SoundBut users works
      { s with
        pool := { s.pool with work := rest }
        idleWorkLimit := s.idleWorkLimit.release count
        workEnds := s.workEnds ++ left.map fun w => (w.id, reason w) } := by
  have isLeft : (left.map fun w => (w.id, reason w)).map Prod.fst = left.map (·.id) := List.map_map
  have sameWork : s.pool.work.map (·.id) = (left.map fun w => (w.id, reason w)).map Prod.fst ++ rest.map (·.id) := by
    rw [isLeft, ← List.map_append, isWork]
  refine { sound with
    exclusive := ?_
    works := Placed.leave (sameWork ▸ sound.works)
    matched := sound.matched.works (List.forall_mem_map.mpr unpaired)
    workReason := List.forall_mem_append.mpr ⟨sound.workReason, List.forall_mem_map.mpr reasons⟩ }
  exact sound.exclusive.imp_left fun none => (List.append_eq_nil_iff.mp (isWork.trans none)).2

theorem SoundBut.reap (sound : SoundBut users works s) : SoundBut users works s.reap := by
  have isWork : s.pool.oldWork s.clock s.idleTimeout ++ s.reap.pool.work = s.pool.work :=
    List.takeWhile_append_dropWhile
  have isUsers : s.pool.oldUsers s.clock s.userConnTimeout ++ s.reap.pool.users = s.pool.users :=
    List.takeWhile_append_dropWhile
  have oldWork : ∀ w ∈ s.pool.oldWork s.clock s.idleTimeout, s.idleTimeout < s.clock - w.at_ := by
    intro w member
    have isOld := List.mem_takeWhile_imp (show w ∈ s.pool.work.takeWhile _ from member)
    exact of_decide_eq_true isOld
  have oldUsers : ∀ u ∈ s.pool.oldUsers s.clock s.userConnTimeout, s.userConnTimeout < s.clock - u.at_ := by
    intro u member
    have isOld := List.mem_takeWhile_imp (show u ∈ s.pool.users.takeWhile _ from member)
    exact of_decide_eq_true isOld
  have worksReaped := sound.worksLeave (fun w => .expired (s.clock - w.at_)) isWork (fun _ _ => rfl) oldWork
  exact (worksReaped _).usersLeave (fun u => .expired (s.clock - u.at_)) isUsers (fun _ _ => rfl) oldUsers _

section Submit

variable {user : PendingUser} {work : WorkItem}

theorem SoundBut.takeWork {rest : List WorkItem} (sound : SoundBut (user.id :: users) works s)
    (isWork : s.pool.work = work :: rest) :
    SoundBut users works
      ({ s with came := s.came ++ [user.id], pool := { s.pool with work := rest } }.pair user work) := by
  have none : s.pool.users = [] := sound.exclusive.resolve_left (isWork ▸ List.cons_ne_nil work rest)
  have fresh := sound.inTurn.fresh sound.users
  have inTurn := sound.inTurn
  have placed := sound.works
  rw [isWork] at placed
  have atOnce : InTurn End.isPaired (s.came ++ [user.id]) (s.userEnds ++ [(user.id, .paired work.id)])
      (s.pool.users.map (·.id)) := by
    rw [none] at inTurn ⊢
    exact inTurn.serveNow fresh rfl
  exact { sound with
    exclusive := .inr none
    inTurn := atOnce
    users := sound.users.turnAway
    works := placed.leave
    matched := sound.matched.pair user.id work.id
    userReason := List.forall_mem_append.mpr ⟨sound.userReason, List.forall_mem_singleton.mpr trivial⟩
    workReason := List.forall_mem_append.mpr ⟨sound.workReason, List.forall_mem_singleton.mpr trivial⟩ }

theorem SoundBut.refuseUser (sound : SoundBut (user.id :: users) works s) (none : s.backlogLimit.tryAcquire = none) :
    SoundBut users works
      { s with came := s.came ++ [user.id], userEnds := s.userEnds ++ [(user.id, .full s.backlogLimit)] } :=
  { sound with
    inTurn := sound.inTurn.turnAway (sound.inTurn.fresh sound.users) rfl
    users := sound.users.turnAway
    matched := sound.matched.users (List.forall_mem_singleton.mpr rfl)
    userReason :=
      List.forall_mem_append.mpr ⟨sound.userReason, List.forall_mem_singleton.mpr (exhausted_of_none none)⟩ }

theorem SoundBut.queueUser {permit : Permit} {backlogLimit : Limit} (sound : SoundBut (user.id :: users) works s)
    (noWork : s.pool.work = []) (sameMax : backlogLimit.max = s.backlogLimit.max) :
    SoundBut users works
      { s with
        came := s.came ++ [user.id]
        backlogLimit
        pool := { s.pool with users := s.pool.users ++ [{ user with queuePermit := some permit }] } } := by
  have joins : (s.pool.users ++ [{ user with queuePermit := some permit }]).map PendingUser.id =
      s.pool.users.map PendingUser.id ++ [user.id] := List.map_append
  have inTurn := sound.inTurn.join (sound.inTurn.fresh sound.users)
  have placed := sound.users.join
  rw [← joins] at inTurn placed
  exact { sound with
    exclusive := .inl noWork
    inTurn
    users := placed
    userReason := fun e member => (sound.userReason e member).of_same rfl sameMax id }

theorem SoundBut.takeUser {rest : List PendingUser} (sound : SoundBut users (work.id :: works) s)
    (isUsers : s.pool.users = user :: rest) :
    SoundBut users works ({ s with pool := { s.pool with users := rest } }.pair user work) := by
  have none : s.pool.work = [] := sound.exclusive.resolve_right (isUsers ▸ List.cons_ne_nil user rest)
  have inTurn := sound.inTurn
  have placed := sound.users
  rw [isUsers] at inTurn placed
  exact { sound with
    exclusive := .inl none
    inTurn := inTurn.serve rfl
    users := placed.leave
    works := sound.works.turnAway
    matched := sound.matched.pair user.id work.id
    userReason := List.forall_mem_append.mpr ⟨sound.userReason, List.forall_mem_singleton.mpr trivial⟩
    workReason := List.forall_mem_append.mpr ⟨sound.workReason, List.forall_mem_singleton.mpr trivial⟩ }

theorem SoundBut.refuseWork (sound : SoundBut users (work.id :: works) s) (none : s.idleWorkLimit.tryAcquire = none) :
    SoundBut users works { s with workEnds := s.workEnds ++ [(work.id, .full s.idleWorkLimit)] } :=
  { sound with
    works := sound.works.turnAway
    matched := sound.matched.works (List.forall_mem_singleton.mpr rfl)
    workReason :=
      List.forall_mem_append.mpr ⟨sound.workReason, List.forall_mem_singleton.mpr (exhausted_of_none none)⟩ }

theorem SoundBut.keepWork {permit : Permit} {idleWorkLimit : Limit} (sound : SoundBut users (work.id :: works) s)
    (noUsers : s.pool.users = []) (sameMax : idleWorkLimit.max = s.idleWorkLimit.max) :
    SoundBut users works
      { s with
        idleWorkLimit
        pool := { s.pool with work := s.pool.work ++ [{ work with idlePermit := some permit }] }
        notifying := s.notifying + 1 } := by
  have joins : (s.pool.work ++ [{ work with idlePermit := some permit }]).map WorkItem.id =
      s.pool.work.map WorkItem.id ++ [work.id] := List.map_append
  have placed := sound.works.join
  rw [← joins] at placed
  exact { sound with
    exclusive := .inr noUsers
    works := placed
    workReason := fun e member => (sound.workReason e member).of_same rfl sameMax id }

theorem SoundBut.submitUser (sound : SoundBut (user.id :: users) works s) :
    SoundBut users works (s.submitUser user) := by
  have reaped := sound.reap
  unfold ClientState.submitUser
  generalize s.reap = r at reaped
  dsimp only
  split
  next work rest isWork => exact reaped.takeWork isWork
  next noWork =>
    split
    next none => exact reaped.refuseUser none
    next permit backlogLimit acquired => exact reaped.queueUser noWork (max_of_acquired acquired)

theorem SoundBut.submitWork (sound : SoundBut users (work.id :: works) s) :
    SoundBut users works (s.submitWork work) := by
  have reaped := sound.reap
  unfold ClientState.submitWork
  generalize s.reap = r at reaped
  dsimp only
  split
  next user rest isUsers => exact reaped.takeUser isUsers
  next noUsers =>
    split
    next none => exact reaped.refuseWork none
    next permit idleWorkLimit acquired => exact reaped.keepWork noUsers (max_of_acquired acquired)

end Submit

theorem SoundBut.take (sound : SoundBut users works s) (call : Call) : SoundBut users works (s.take call) := by
  unfold ClientState.take
  split
  next work rest isWork =>
    have alone : [work] ++ rest = s.pool.work := isWork.symm
    have left := sound.worksLeave (fun _ => .acquired) alone (fun _ _ => rfl) (fun _ _ => trivial) 0
    exact { left with }
  next => exact { sound with }

theorem SoundBut.notifyOne (sound : SoundBut users works s) : SoundBut users works s.notifyOne := by
  unfold ClientState.notifyOne
  split <;> exact { sound with }

theorem SoundBut.notified (sound : SoundBut users works s) (call : Call) : SoundBut users works (s.notified call) := by
  unfold ClientState.notified
  split <;> exact { sound with }

theorem Sound.change (sound : Sound s) {event : Event} {t : ClientState} (change : s.Change event t) : Sound t := by
  cases change with
  | idle | elapsed | suspend | resume | notifyWaiters | acquire | giveUp | ask | timeout | leave | forget | ended =>
    exact { sound with }
  | stop =>
    exact { sound with
      userReason := fun e member => (sound.userReason e member).of_same rfl rfl fun _ => rfl
      workReason := fun e member => (sound.workReason e member).of_same rfl rfl fun _ => rfl }
  | clear stopped =>
    exact sound.worksLeave (fun _ => .stopped) (List.append_nil _) (fun _ _ => rfl) (fun _ _ => stopped) _
  | turnAway reason isReason =>
    have notPaired : reason.isPaired = false := by
      obtain rfl | ⟨rfl, -⟩ := isReason <;> rfl
    have justified : s.UserReason reason := by
      obtain rfl | ⟨rfl, stopped⟩ := isReason
      · trivial
      · exact stopped
    exact { sound with
      users := sound.users.come.turnAway
      matched := sound.matched.users (List.forall_mem_singleton.mpr notPaired)
      inTurn := sound.inTurn.bypass (List.forall_mem_singleton.mpr notPaired)
      userReason := List.forall_mem_append.mpr ⟨sound.userReason, List.forall_mem_singleton.mpr justified⟩ }
  | user =>
    have last : (s.submitting ++ [(⟨s.nextUser, s.clock, none⟩ : PendingUser)]).map PendingUser.id =
        s.submitting.map PendingUser.id ++ [s.nextUser] := List.map_append
    have comes := sound.users.come.perm (last ▸ List.perm_append_singleton s.nextUser _)
    exact { sound with users := comes }
  | submitUser id user isUser =>
    have onItsWay := List.perm_cons_erase (List.mem_of_find?_eq_some isUser)
    exact SoundBut.submitUser { sound with users := sound.users.perm (onItsWay.map PendingUser.id).symm }
  | work delay => exact SoundBut.submitWork { sound with works := sound.works.come }
  | notify =>
    have notifies : Sound { s with notifying := s.notifying - 1 } := { sound with }
    exact notifies.notifyOne
  | look id call =>
    have asked : Sound { s with starting := s.starting.erase call } := { sound with }
    exact asked.take _
  | await id call =>
    have waits : Sound { s with asking := s.asking.erase call } := { sound with }
    exact waits.notified call
  | wake id woken =>
    have woke : Sound { s with woken := s.woken.erase woken } := { sound with }
    exact woke.take woken.1
  | passOn id woken =>
    have dropped : Sound { s with woken := s.woken.erase woken } := { sound with }
    exact dropped.notifyOne

theorem Sound.step (sound : Sound s) (event : Event) : Sound (s.step event) :=
  sound.change (s.change_step event)

end Operations

variable (idleTimeout userConnTimeout backlogMax maxPoolCount : Nat) (events : List Event)

theorem sound_new : Sound (.new idleTimeout userConnTimeout backlogMax maxPoolCount) where
  exclusive := .inl rfl
  inTurn := ⟨.refl _, List.nodup_nil, List.nil_subset _⟩
  users := .refl _
  works := .refl _
  matched := fun _ _ => ⟨nofun, nofun⟩
  userReason := nofun
  workReason := nofun

theorem pool_sound :
    Sound (run ClientState.step (.new idleTimeout userConnTimeout backlogMax maxPoolCount) events) :=
  run_invariant (fun _ event sound => sound.step event) (sound_new _ _ _ _) events

/-- A user that comes while the client is suspended is turned away, whatever the limits. -/
theorem not_soundAlways :
    ¬∀ idleTimeout userConnTimeout backlogMax maxPoolCount events,
      SoundAlways (run ClientState.step (.new idleTimeout userConnTimeout backlogMax maxPoolCount) events) :=
  fun always => (always 60 10 0 0 [.suspend, .user]).2 (0, .suspended) List.mem_cons_self rfl

end Nfrp.Pool
