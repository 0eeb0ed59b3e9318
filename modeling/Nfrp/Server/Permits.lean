import Mathlib.Data.List.Perm.Basic
import Nfrp.Server.Pool

/-!
# What the limits of the pool count

A work connection in the pool holds a permit of the one limit, and a user in the queue of the
other.  The permit goes with what is handed out, and is given back when its relay ends.
-/

namespace Nfrp.Pool

open Lib

/-- What is left of the limit, and what lies there or is held elsewhere, make the limit. -/
structure Balance (limit : Limit) (lying held : List (Option Permit)) : Prop where
  accounts : limit.Accounts limit.max (counted lying + counted held)
  lying : limit.max ≠ 0 → ∀ permit ∈ lying, permit = some .counted

/-- Whoever comes is let in while fewer lie there than the limit. -/
def Admits (limit : Limit) (lying : Nat) : Prop :=
  limit.max = 0 ∨ lying < limit.max → limit.tryAcquire.isSome

section Balance

variable {limit after : Limit} {lying held old : List (Option Permit)} {permit : Permit}

theorem counted_append (permits more : List (Option Permit)) : counted (permits ++ more) = counted permits + counted more :=
  List.count_append

theorem counted_cons (permit : Option Permit) (permits : List (Option Permit)) :
    counted (permit :: permits) = counted [permit] + counted permits :=
  counted_append [permit] permits

theorem counted_eq_length (all : ∀ permit ∈ lying, permit = some .counted) : counted lying = lying.length := by
  apply List.count_eq_length.mpr
  intro permit member
  exact (all permit member).symm

theorem Balance.new (max : Nat) : Balance (.new max) [] [] := ⟨.new max, nofun⟩

theorem Balance.leave (balance : Balance limit (old ++ lying) held) :
    Balance (limit.release (counted old)) lying held where
  accounts := by
    apply Limit.Accounts.release
    have before := balance.accounts
    rw [counted_append] at before
    rwa [show counted lying + counted held + counted old = counted old + counted lying + counted held by omega]
  lying limited permit member := balance.lying limited permit (List.mem_append_right old member)

theorem Balance.hand {first : Option Permit} (balance : Balance limit (first :: lying) held) :
    Balance limit lying (held ++ [first]) where
  accounts := by
    have before := balance.accounts
    rw [counted_cons] at before
    rw [counted_append]
    rwa [show counted lying + (counted held + counted [first]) = counted [first] + counted lying + counted held by omega]
  lying limited permit member := balance.lying limited permit (List.mem_cons_of_mem first member)

theorem Balance.handed {first : Option Permit} (balance : Balance limit (first :: lying) held) (limited : limit.max ≠ 0) :
    ¬(limit.max = 0 ∨ counted (held ++ [first]) = 0) := by
  have isCounted : first = some .counted := balance.lying limited first List.mem_cons_self
  have one : counted [first] = 1 := by rw [isCounted]; rfl
  rw [counted_append, one]
  simp [limited]

theorem Balance.handNone (balance : Balance limit lying held) : Balance limit lying (held ++ [none]) where
  accounts := by
    rw [counted_append]
    exact balance.accounts
  lying := balance.lying

theorem Balance.join (balance : Balance limit lying held) (acquired : limit.tryAcquire = some (permit, after)) :
    after.max = limit.max ∧ Balance after (lying ++ [some permit]) held := by
  obtain ⟨isPermit, accounts⟩ := balance.accounts.acquire acquired
  refine ⟨accounts.1, ?_, fun limited => ?_⟩
  · have one : counted [some permit] = if permit = .counted then 1 else 0 := by cases permit <;> rfl
    rw [accounts.1, counted_append, one]
    rwa [Nat.add_right_comm]
  · rw [accounts.1] at limited
    rw [if_neg limited] at isPermit
    refine List.forall_mem_append.mpr ⟨balance.lying limited, List.forall_mem_singleton.mpr ?_⟩
    rw [isPermit]

theorem Balance.giveBack {index : Nat} {last : Option Permit} (balance : Balance limit lying held)
    (isLast : held[index]? = some last) : Balance (limit.release (counted [last])) lying (held.eraseIdx index) where
  accounts := by
    apply Limit.Accounts.release
    have before := balance.accounts
    obtain ⟨isIndex, isAt⟩ := List.getElem?_eq_some_iff.mp isLast
    have split : held.Perm (last :: held.eraseIdx index) := isAt ▸ (List.getElem_cons_eraseIdx_perm isIndex).symm
    have sum : counted held = counted [last] + counted (held.eraseIdx index) := by
      rw [← counted_cons]
      exact split.count_eq _
    rwa [show counted lying + counted (held.eraseIdx index) + counted [last] = counted lying + counted held by omega]
  lying := balance.lying

theorem Balance.exact_iff (balance : Balance limit lying held) :
    limit.Accounts limit.max lying.length ↔ limit.max = 0 ∨ counted held = 0 := by
  by_cases unlimited : limit.max = 0
  · simp [Limit.Accounts, unlimited]
  · have all := balance.accounts.2.resolve_left unlimited
    rw [counted_eq_length (balance.lying unlimited)] at all
    simp only [Limit.Accounts, unlimited, false_or, true_and]
    omega

theorem admits_of_accounts {count : Nat} (accounts : limit.Accounts limit.max count) : Admits limit count := by
  rintro (unlimited | fewer)
  · simp [Limit.tryAcquire, unlimited]
  · have left : limit.available + count = limit.max := accounts.2.resolve_left (Nat.ne_zero_of_lt fewer)
    have some : limit.available ≠ 0 := by omega
    simp [Limit.tryAcquire, some, apply_ite]

end Balance

namespace ClientState

variable (s : ClientState)

def idleLying : List (Option Permit) := s.pool.work.map (·.idlePermit)

def queueLying : List (Option Permit) := s.pool.users.map (·.queuePermit)

def idleHeld : List (Option Permit) := s.relays.map (·.idlePermit)

def queueHeld : List (Option Permit) := s.relays.map (·.queuePermit)

/-- The permits are counted right, and who comes while there is room is let in. -/
structure Counts : Prop where
  idle : s.idleWorkLimit.Accounts s.idleWorkLimit.max s.pool.work.length
  backlog : s.backlogLimit.Accounts s.backlogLimit.max s.pool.users.length
  work : Admits s.reap.idleWorkLimit s.reap.pool.work.length
  users : Admits s.reap.backlogLimit s.reap.pool.users.length

def Free : Prop :=
  (s.idleWorkLimit.max = 0 ∨ counted s.idleHeld = 0) ∧ (s.backlogLimit.max = 0 ∨ counted s.queueHeld = 0)

/-- Something is handed out of the pool though what lies there is limited. -/
def HandsOut : Event → Prop
  | .submitUser id => (s.submitting.find? (·.id = id)).isSome ∧ s.idleWorkLimit.max ≠ 0 ∧ s.reap.pool.work ≠ []
  | .work _ => s.backlogLimit.max ≠ 0 ∧ s.reap.pool.users ≠ []
  | .look id => (s.starting.find? (·.id = id)).isSome ∧ s.idleWorkLimit.max ≠ 0 ∧ s.pool.work ≠ []
  | .wake id => (s.woken.find? (·.1.id = id)).isSome ∧ s.idleWorkLimit.max ≠ 0 ∧ s.pool.work ≠ []
  | _ => False

end ClientState

structure Balanced (s : ClientState) : Prop where
  idle : Balance s.idleWorkLimit s.idleLying s.idleHeld
  backlog : Balance s.backlogLimit s.queueLying s.queueHeld
  submitting : ∀ user ∈ s.submitting, user.queuePermit = none

structure Turn (handsOut : Prop) (s t : ClientState) : Prop where
  balanced : Balanced t
  free : ¬handsOut → s.Free → t.Free
  held : handsOut → ¬t.Free

section Operations

variable {s : ClientState}

theorem Balanced.reap (balanced : Balanced s) : Balanced s.reap where
  idle := by
    have isWork : s.pool.oldWork s.clock s.idleTimeout ++ s.reap.pool.work = s.pool.work :=
      List.takeWhile_append_dropWhile
    have before := balanced.idle
    rw [ClientState.idleLying, ← isWork, List.map_append] at before
    exact before.leave
  backlog := by
    have isUsers : s.pool.oldUsers s.clock s.userConnTimeout ++ s.reap.pool.users = s.pool.users :=
      List.takeWhile_append_dropWhile
    have before := balanced.backlog
    rw [ClientState.queueLying, ← isUsers, List.map_append] at before
    exact before.leave
  submitting := balanced.submitting

/-- The pool counts right just where all that was ever handed out has been given back. -/
theorem Balanced.counts_iff (balanced : Balanced s) : s.Counts ↔ s.Free := by
  have idle := balanced.idle.exact_iff
  have backlog := balanced.backlog.exact_iff
  rw [ClientState.idleLying, List.length_map] at idle
  rw [ClientState.queueLying, List.length_map] at backlog
  constructor
  · exact fun counts => ⟨idle.mp counts.idle, backlog.mp counts.backlog⟩
  · intro free
    have idleReaped := balanced.reap.idle.exact_iff.mpr free.1
    have backlogReaped := balanced.reap.backlog.exact_iff.mpr free.2
    rw [ClientState.idleLying, List.length_map] at idleReaped
    rw [ClientState.queueLying, List.length_map] at backlogReaped
    exact ⟨idle.mpr free.1, backlog.mpr free.2, admits_of_accounts idleReaped, admits_of_accounts backlogReaped⟩

theorem Turn.congr {handsOut other : Prop} {s t : ClientState} (turn : Turn handsOut s t) (same : other ↔ handsOut) :
    Turn other s t where
  balanced := turn.balanced
  free not := turn.free (mt same.mpr not)
  held holds := turn.held (same.mp holds)

theorem Turn.since {handsOut : Prop} {s before t : ClientState} (turn : Turn handsOut before t)
    (same : s.Free → before.Free) : Turn handsOut s t :=
  ⟨turn.balanced, fun not free => turn.free not (same free), turn.held⟩

theorem Balanced.turn {t : ClientState} (balanced : Balanced t) (free : s.Free → t.Free) : Turn False s t :=
  ⟨balanced, fun _ => free, False.elim⟩

section Hand

variable {t : ClientState} (balanced : Balanced s) (idleLimit : t.idleWorkLimit = s.idleWorkLimit)
  (backlogLimit : t.backlogLimit = s.backlogLimit) (submitting : t.submitting = s.submitting)

include balanced idleLimit backlogLimit submitting

/-- The first work connection is handed out, to a user that was not queued or to a call. -/
theorem Turn.handWork {work : WorkItem} {rest : List WorkItem} (isWork : s.pool.work = work :: rest)
    (pool : t.pool = { s.pool with work := rest }) (relays : t.relays = s.relays ++ [⟨work.idlePermit, none⟩]) :
    Turn (s.idleWorkLimit.max ≠ 0) s t := by
  have idle := balanced.idle
  rw [ClientState.idleLying, isWork, List.map_cons] at idle
  have isIdle : t.idleHeld = s.idleHeld ++ [work.idlePermit] := by simp [ClientState.idleHeld, relays]
  have isQueue : t.queueHeld = s.queueHeld ++ [none] := by simp [ClientState.queueHeld, relays]
  have noneMore : counted (s.queueHeld ++ [none]) = counted s.queueHeld := counted_append _ _
  constructor
  · constructor
    · rw [idleLimit, isIdle, ClientState.idleLying, pool]
      exact idle.hand
    · rw [backlogLimit, isQueue, ClientState.queueLying, pool]
      exact balanced.backlog.handNone
    · rw [submitting]
      exact balanced.submitting
  · intro unlimited free
    rw [ClientState.Free, idleLimit, backlogLimit, isQueue, noneMore]
    exact ⟨.inl (not_not.mp unlimited), free.2⟩
  · intro limited free
    rw [ClientState.Free, idleLimit, isIdle] at free
    exact idle.handed limited free.1

/-- The first user of the queue is handed to a work connection that was not in the pool. -/
theorem Turn.handUser {user : PendingUser} {rest : List PendingUser} (isUsers : s.pool.users = user :: rest)
    (pool : t.pool = { s.pool with users := rest }) (relays : t.relays = s.relays ++ [⟨none, user.queuePermit⟩]) :
    Turn (s.backlogLimit.max ≠ 0) s t := by
  have backlog := balanced.backlog
  rw [ClientState.queueLying, isUsers, List.map_cons] at backlog
  have isIdle : t.idleHeld = s.idleHeld ++ [none] := by simp [ClientState.idleHeld, relays]
  have isQueue : t.queueHeld = s.queueHeld ++ [user.queuePermit] := by simp [ClientState.queueHeld, relays]
  have noneMore : counted (s.idleHeld ++ [none]) = counted s.idleHeld := counted_append _ _
  constructor
  · constructor
    · rw [idleLimit, isIdle, ClientState.idleLying, pool]
      exact balanced.idle.handNone
    · rw [backlogLimit, isQueue, ClientState.queueLying, pool]
      exact backlog.hand
    · rw [submitting]
      exact balanced.submitting
  · intro unlimited free
    rw [ClientState.Free, idleLimit, backlogLimit, isIdle, noneMore]
    exact ⟨free.1, .inl (not_not.mp unlimited)⟩
  · intro limited free
    rw [ClientState.Free, backlogLimit, isQueue] at free
    exact backlog.handed limited free.2

end Hand

theorem turn_submitUser {user : PendingUser} (balanced : Balanced s) (noPermit : user.queuePermit = none) :
    Turn (s.idleWorkLimit.max ≠ 0 ∧ s.reap.pool.work ≠ []) s (s.submitUser user) := by
  suffices fromReaped : Turn (s.reap.idleWorkLimit.max ≠ 0 ∧ s.reap.pool.work ≠ []) s.reap (s.submitUser user) from
    fromReaped.since id
  have reaped := balanced.reap
  unfold ClientState.submitUser
  generalize s.reap = r at reaped ⊢
  dsimp only
  split
  next work rest isWork =>
    have handed : Turn (r.idleWorkLimit.max ≠ 0) r
        ({ r with came := r.came ++ [user.id], pool := { r.pool with work := rest } }.pair user work) :=
      .handWork reaped rfl rfl rfl isWork rfl (by rw [← noPermit]; rfl)
    exact handed.congr (by simp [isWork])
  next noWork =>
    have nothing : (r.idleWorkLimit.max ≠ 0 ∧ r.pool.work ≠ []) ↔ False := by simp [noWork]
    split
    next => exact Turn.congr (Balanced.turn ⟨reaped.idle, reaped.backlog, reaped.submitting⟩ id) nothing
    next permit backlogLimit acquired =>
      obtain ⟨sameMax, joined⟩ := reaped.backlog.join acquired
      have last : ((r.pool.users ++ [{ user with queuePermit := some permit }]).map PendingUser.queuePermit) =
          r.queueLying ++ [some permit] := List.map_append
      rw [← last] at joined
      refine Turn.congr (Balanced.turn ⟨reaped.idle, joined, reaped.submitting⟩ fun free => ⟨free.1, ?_⟩) nothing
      exact free.2.imp_left sameMax.trans

theorem turn_submitWork {work : WorkItem} (balanced : Balanced s) (noPermit : work.idlePermit = none) :
    Turn (s.backlogLimit.max ≠ 0 ∧ s.reap.pool.users ≠ []) s (s.submitWork work) := by
  suffices fromReaped : Turn (s.reap.backlogLimit.max ≠ 0 ∧ s.reap.pool.users ≠ []) s.reap (s.submitWork work) from
    fromReaped.since id
  have reaped := balanced.reap
  unfold ClientState.submitWork
  generalize s.reap = r at reaped ⊢
  dsimp only
  split
  next user rest isUsers =>
    have handed : Turn (r.backlogLimit.max ≠ 0) r ({ r with pool := { r.pool with users := rest } }.pair user work) :=
      .handUser reaped rfl rfl rfl isUsers rfl (by rw [← noPermit]; rfl)
    exact handed.congr (by simp [isUsers])
  next noUsers =>
    have nothing : (r.backlogLimit.max ≠ 0 ∧ r.pool.users ≠ []) ↔ False := by simp [noUsers]
    split
    next => exact Turn.congr (Balanced.turn ⟨reaped.idle, reaped.backlog, reaped.submitting⟩ id) nothing
    next permit idleWorkLimit acquired =>
      obtain ⟨sameMax, joined⟩ := reaped.idle.join acquired
      have last : ((r.pool.work ++ [{ work with idlePermit := some permit }]).map WorkItem.idlePermit) =
          r.idleLying ++ [some permit] := List.map_append
      rw [← last] at joined
      refine Turn.congr (Balanced.turn ⟨joined, reaped.backlog, reaped.submitting⟩ fun free => ⟨?_, free.2⟩) nothing
      exact free.1.imp_left sameMax.trans

theorem Balanced.same (balanced : Balanced s) {t : ClientState} (idle : t.idleWorkLimit = s.idleWorkLimit)
    (backlog : t.backlogLimit = s.backlogLimit) (pool : t.pool = s.pool) (relays : t.relays = s.relays)
    (submitting : ∀ user ∈ t.submitting, user.queuePermit = none) : Turn False s t := by
  have isFree : t.Free = s.Free := by simp only [ClientState.Free, ClientState.idleHeld, ClientState.queueHeld, idle,
    backlog, relays]
  refine Balanced.turn ⟨?_, ?_, submitting⟩ (cast isFree.symm)
  · rw [idle, ClientState.idleLying, ClientState.idleHeld, pool, relays]
    exact balanced.idle
  · rw [backlog, ClientState.queueLying, ClientState.queueHeld, pool, relays]
    exact balanced.backlog

theorem turn_take (balanced : Balanced s) (call : Call) :
    Turn (s.idleWorkLimit.max ≠ 0 ∧ s.pool.work ≠ []) s (s.take call) := by
  unfold ClientState.take
  split
  next work rest isWork =>
    exact Turn.congr (.handWork balanced rfl rfl rfl isWork rfl rfl) (by simp [isWork])
  next noWork =>
    exact Turn.congr (balanced.same rfl rfl rfl rfl balanced.submitting) (by simp [noWork])

theorem turn_notifyOne (balanced : Balanced s) : Turn False s s.notifyOne := by
  unfold ClientState.notifyOne
  split <;> exact balanced.same rfl rfl rfl rfl balanced.submitting

theorem turn_notified (balanced : Balanced s) (call : Call) : Turn False s (s.notified call) := by
  unfold ClientState.notified
  split <;> exact balanced.same rfl rfl rfl rfl balanced.submitting

theorem reaches_of_handsOut {event : Event} (handsOut : s.HandsOut event) : s.Reaches event := by
  cases event with
  | submitUser | look | wake => exact handsOut.1
  | work => trivial
  | _ => exact handsOut

theorem balanced_change {event : Event} {t : ClientState} (change : s.Change event t) (balanced : Balanced s) :
    Turn (s.HandsOut event) s t := by
  have kept := balanced.submitting
  cases change with
  | idle event nothing =>
    have none : ¬s.HandsOut event := fun handsOut => nothing (reaches_of_handsOut handsOut)
    exact Turn.congr (balanced.turn id) (iff_of_false none not_false)
  | elapsed | suspend | resume | stop | notifyWaiters | turnAway | acquire | giveUp | ask | timeout | leave | forget =>
    exact balanced.same rfl rfl rfl rfl kept
  | clear =>
    have left : Balance s.idleWorkLimit (s.idleLying ++ []) s.idleHeld := by
      rw [List.append_nil]
      exact balanced.idle
    exact Balanced.turn ⟨left.leave, balanced.backlog, kept⟩ id
  | user =>
    refine balanced.same rfl rfl rfl rfl (List.forall_mem_append.mpr ⟨kept, ?_⟩)
    exact List.forall_mem_singleton.mpr rfl
  | submitUser id user isUser =>
    have comes : Balanced { s with submitting := s.submitting.erase user } :=
      ⟨balanced.idle, balanced.backlog, fun other member => kept other (List.mem_of_mem_erase member)⟩
    have submitted := turn_submitUser comes (kept user (List.mem_of_find?_eq_some isUser))
    exact Turn.congr (submitted.since fun free : s.Free => free) (and_iff_right (Option.isSome_of_eq_some isUser))
  | work delay =>
    have comes : Balanced { s with nextWork := s.nextWork + 1 } := ⟨balanced.idle, balanced.backlog, kept⟩
    have noPermit : ({ id := s.nextWork, at_ := s.clock - delay } : WorkItem).idlePermit = none := rfl
    exact (turn_submitWork comes noPermit).since id
  | notify =>
    have gives : Balanced { s with notifying := s.notifying - 1 } := ⟨balanced.idle, balanced.backlog, kept⟩
    exact (turn_notifyOne gives).since id
  | look id call isCall =>
    have looks : Balanced { s with starting := s.starting.erase call } := ⟨balanced.idle, balanced.backlog, kept⟩
    have taken := (turn_take looks { call with deadline := s.clock + call.wait }).since fun free : s.Free => free
    exact Turn.congr taken (and_iff_right (Option.isSome_of_eq_some isCall))
  | await id call =>
    have waits : Balanced { s with asking := s.asking.erase call } := ⟨balanced.idle, balanced.backlog, kept⟩
    exact (turn_notified waits call).since fun free : s.Free => free
  | wake id woken isWoken =>
    have wakes : Balanced { s with woken := s.woken.erase woken } := ⟨balanced.idle, balanced.backlog, kept⟩
    have taken := (turn_take wakes woken.1).since fun free : s.Free => free
    exact Turn.congr taken (and_iff_right (Option.isSome_of_eq_some isWoken))
  | passOn id woken =>
    have dropped : Balanced { s with woken := s.woken.erase woken } := ⟨balanced.idle, balanced.backlog, kept⟩
    exact (turn_notifyOne dropped).since fun free : s.Free => free
  | ended index relay isRelay =>
    have isIdle : s.idleHeld[index]? = some relay.idlePermit := by simp [ClientState.idleHeld, isRelay]
    have isQueue : s.queueHeld[index]? = some relay.queuePermit := by simp [ClientState.queueHeld, isRelay]
    have idle := balanced.idle.giveBack isIdle
    have backlog := balanced.backlog.giveBack isQueue
    rw [ClientState.idleHeld, List.eraseIdx_map] at idle
    rw [ClientState.queueHeld, List.eraseIdx_map] at backlog
    have fewer (permitOf : Relay → Option Permit) (none : counted (s.relays.map permitOf) = 0) :
        counted ((s.relays.eraseIdx index).map permitOf) = 0 := by
      have sublist := (List.eraseIdx_sublist s.relays index).map permitOf
      exact Nat.eq_zero_of_le_zero (none ▸ sublist.count_le _)
    exact Balanced.turn ⟨idle, backlog, kept⟩ fun free => ⟨free.1.imp_right (fewer _), free.2.imp_right (fewer _)⟩

end Operations

variable (idleTimeout userConnTimeout backlogMax maxPoolCount : Nat) (events : List Event)

theorem balanced_new : Balanced (.new idleTimeout userConnTimeout backlogMax maxPoolCount) where
  idle := .new _
  backlog := .new _
  submitting := nofun

/-- The limits count what lies in the pool just in the runs that hand nothing out of it. -/
theorem counts_iff_keeps :
    Throughout ClientState.step ClientState.Counts (.new idleTimeout userConnTimeout backlogMax maxPoolCount) events ↔
      RunMeets ClientState.step (fun s event => ¬s.HandsOut event)
        (.new idleTimeout userConnTimeout backlogMax maxPoolCount) events := by
  have preserved (s : ClientState) (event : Event) (_ : True) (keeps : ¬s.HandsOut event)
      (invariant : Balanced s ∧ s.Free) : Balanced (s.step event) ∧ (s.step event).Free := by
    have turn := balanced_change (s.change_step event) invariant.1
    exact ⟨turn.balanced, turn.free keeps invariant.2⟩
  have holds (s : ClientState) (invariant : Balanced s ∧ s.Free) : s.Counts :=
    invariant.1.counts_iff.mpr invariant.2
  have breaks (s : ClientState) (event : Event) (_ : True) (invariant : Balanced s ∧ s.Free)
      (hands : ¬¬s.HandsOut event) : ¬(s.step event).Counts := by
    have turn := balanced_change (s.change_step event) invariant.1
    exact mt turn.balanced.counts_iff.mp (turn.held (not_not.mp hands))
  have initially : (ClientState.new idleTimeout userConnTimeout backlogMax maxPoolCount).Free := ⟨.inr rfl, .inr rfl⟩
  exact throughout_iff_runMeets preserved holds breaks ⟨balanced_new _ _ _ _, initially⟩
    (runMeets_of_forall (fun _ _ => trivial) _ _)

/-- With one place each, the only work connection is given to a user, and the next is refused
though none lies there; or the only user is given a work connection, and the next is refused
though none is queued. -/
theorem not_counts_relaying :
    (∀ events ∈ ([[.work 0, .user, .submitUser 0], [.user, .submitUser 0, .work 0]] : List (List Event)),
      ¬Throughout ClientState.step ClientState.Counts (.new 60 10 1 1) events) ∧
    (run ClientState.step (.new 60 10 1 1) [.work 0, .user, .submitUser 0, .work 0]).workEnds =
      [(0, .paired 0), (1, .full ⟨1, 0⟩)] ∧
    (run ClientState.step (.new 60 10 1 1) [.user, .submitUser 0, .work 0, .user, .submitUser 1]).userEnds =
      [(0, .paired 0), (1, .full ⟨1, 0⟩)] := by
  refine ⟨fun events isRun throughout => ?_, by decide, by decide⟩
  have counts := throughout.last
  simp only [List.mem_cons, List.not_mem_nil, or_false] at isRun
  rcases isRun with rfl | rfl
  · exact absurd counts.idle.2 (by decide)
  · exact absurd counts.backlog.2 (by decide)

end Nfrp.Pool
