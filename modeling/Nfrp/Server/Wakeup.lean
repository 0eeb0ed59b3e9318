import Nfrp.Server.Pool

/-!
# Waking those that wait for a work connection

A work connection that is put into the pool wakes one call that waits, or the next that would
wait.  Two that come while two calls are about to wait wake only one of them.
-/

namespace Nfrp.Pool

open Lib

/-- So many were not woken by a stop, which passes no notification on. -/
def wokenAlone (woken : List (Call × Notification)) : Nat := woken.countP fun call => decide (call.2 ≠ .all)

namespace ClientState

variable (s : ClientState)

def Quiet : Prop :=
  s.submitting = [] ∧ s.notifying = 0 ∧ s.starting = [] ∧ s.looked = [] ∧ s.asking = [] ∧ s.woken = []

/-- A call waits though a work connection lies there, and only another would wake it. -/
def Stranded : Prop := s.Quiet ∧ s.pool.work ≠ [] ∧ s.workNotify.waiters ≠ []

instance : Decidable s.Stranded :=
  inferInstanceAs (Decidable ((_ = [] ∧ _ = 0 ∧ _ = [] ∧ _ = [] ∧ _ = [] ∧ _ = []) ∧ _ ≠ [] ∧ _ ≠ []))

def handoff : Handoff where
  idle := s.pool.work.length
  coming := s.notifying
  woken := wokenAlone s.woken
  about := s.looked.length + s.asking.length
  waiting := s.workNotify.waiters.length
  permit := s.workNotify.permit

/-- A notification is given, or passed on, while one is stored that two calls may yet need. -/
def Loses : Event → Prop
  | .notify => s.notifying ≠ 0 ∧ s.handoff.Uncovered
  | .drop id => (s.woken.find? (·.1.id = id)).any (fun woken => decide (woken.2 = .one)) ∧ s.handoff.Uncovered
  | _ => False

instance (event : Event) : Decidable (s.Loses event) := by
  unfold Loses
  split <;> infer_instance

end ClientState

section Operations

variable {s : ClientState} {held : Nat}

theorem handoff_take (s : ClientState) (call : Call) : (s.take call).handoff = s.handoff.take := by
  unfold ClientState.take Handoff.take
  cases isWork : s.pool.work with
  | nil =>
    have none : s.handoff.idle = 0 := congrArg List.length isWork
    rw [if_pos none]
    simp [ClientState.handoff, isWork, Nat.add_right_comm]
  | cons work rest =>
    have some : s.handoff.idle ≠ 0 := by simp [ClientState.handoff, isWork]
    rw [if_neg some]
    simp [ClientState.handoff, isWork]

theorem handoff_notifyOne (s : ClientState) : s.notifyOne.handoff = s.handoff.notifyOne := by
  unfold ClientState.notifyOne Notify.notifyOne Handoff.notifyOne
  cases isWaiters : s.workNotify.waiters with
  | nil => simp [ClientState.handoff, isWaiters]
  | cons call rest => simp [ClientState.handoff, isWaiters, wokenAlone]

theorem handoff_notified (s : ClientState) (call : Call) : (s.notified call).handoff = s.handoff.notified := by
  unfold ClientState.notified Notify.notified Handoff.notified
  cases isPermit : s.workNotify.permit with
  | true => simp [ClientState.handoff, isPermit, wokenAlone]
  | false => simp [ClientState.handoff, isPermit]

theorem reap_work_le (s : ClientState) : s.reap.pool.work.length ≤ s.pool.work.length :=
  (List.dropWhile_sublist _).length_le

theorem covered_submitUser (user : PendingUser) (covered : s.handoff.Covered held) :
    (s.submitUser user).handoff.Covered held := by
  have fewer := reap_work_le s
  have reaped : s.reap.handoff.Covered held := covered.mono fewer le_rfl le_rfl le_rfl rfl
  unfold ClientState.submitUser
  generalize s.reap = r at reaped
  dsimp only
  split
  next work rest isWork =>
    have less : rest.length ≤ r.pool.work.length := by
      rw [isWork]
      exact Nat.le_succ _
    exact reaped.mono less le_rfl le_rfl le_rfl rfl
  next =>
    split
    next => exact reaped
    next => exact reaped

theorem covered_submitWork (work : WorkItem) (covered : s.handoff.Covered held) :
    (s.submitWork work).handoff.Covered held := by
  have reaped : s.reap.handoff.Covered held := covered.mono (reap_work_le s) le_rfl le_rfl le_rfl rfl
  unfold ClientState.submitWork
  generalize s.reap = r at reaped
  dsimp only
  split
  next => exact reaped
  next =>
    split
    next => exact reaped
    next permit idleWorkLimit _ =>
      have one : (r.pool.work ++ [{ work with idlePermit := some permit }]).length = r.pool.work.length + 1 :=
        List.length_append
      exact reaped.deposit.mono (Nat.le_of_eq one) le_rfl le_rfl le_rfl rfl

theorem wokenAlone_erase {woken : List (Call × Notification)} {call : Call × Notification} (member : call ∈ woken) :
    wokenAlone woken = wokenAlone (woken.erase call) + if call.2 = .all then 0 else 1 := by
  unfold wokenAlone
  rw [(List.perm_cons_erase member).countP_eq, List.countP_cons]
  simp only [ne_eq, decide_not, Bool.not_eq_true', decide_eq_false_iff_not, ite_not]

theorem covered_erase {woken : Call × Notification} (member : woken ∈ s.woken) (covered : s.handoff.Covered 0) :
    ({ s with woken := s.woken.erase woken } : ClientState).handoff.Covered 1 := by
  have fewer := wokenAlone_erase member
  refine covered.mono le_rfl ?_ le_rfl le_rfl rfl
  change wokenAlone s.woken + s.notifying + 0 ≤ wokenAlone (s.woken.erase woken) + s.notifying + 1
  split at fewer <;> omega

theorem covered_notifyOne {giver : ClientState} (inHand : giver.handoff.Covered 1) (kept : ¬s.handoff.Uncovered)
    (permit : giver.handoff.permit = s.handoff.permit) (about : giver.handoff.about = s.handoff.about)
    (idle : giver.handoff.idle = s.handoff.idle)
    (woken : s.handoff.woken + s.handoff.coming ≤ giver.handoff.woken + giver.handoff.coming + 1) :
    giver.notifyOne.handoff.Covered 0 := by
  rw [handoff_notifyOne]
  refine inHand.notifyOne fun isPermit isAbout => ?_
  by_contra tooMany
  exact kept ⟨permit ▸ isPermit, about ▸ isAbout, by omega⟩

theorem covered_change {event : Event} {t : ClientState} (change : s.Change event t) (kept : ¬s.Loses event)
    (covered : s.handoff.Covered 0) : t.handoff.Covered 0 := by
  cases change with
  | idle | elapsed | suspend | resume | stop | turnAway | user | acquire | ended => exact covered
  | clear => exact covered.mono (Nat.zero_le _) le_rfl le_rfl le_rfl rfl
  | notifyWaiters =>
    have woken : wokenAlone s.woken ≤
        wokenAlone (s.woken ++ s.workNotify.notifyWaiters.2.map fun call => (call, .all)) := by
      rw [wokenAlone, wokenAlone, List.countP_append]
      exact Nat.le_add_right _ _
    exact covered.mono le_rfl (Nat.add_le_add_right (Nat.add_le_add_right woken _) _) le_rfl (Nat.zero_le _) rfl
  | submitUser id user =>
    have comes : ({ s with submitting := s.submitting.erase user } : ClientState).handoff.Covered 0 := covered
    exact covered_submitUser user comes
  | work delay =>
    have comes : ({ s with nextWork := s.nextWork + 1 } : ClientState).handoff.Covered 0 := covered
    exact covered_submitWork _ comes
  | notify some =>
    have one : s.notifying ≤ s.notifying - 1 + 1 := by omega
    have inHand : ({ s with notifying := s.notifying - 1 } : ClientState).handoff.Covered 1 :=
      covered.mono le_rfl (Nat.add_le_add_left one _) le_rfl le_rfl rfl
    exact covered_notifyOne inHand (fun uncovered => kept ⟨some, uncovered⟩) rfl rfl rfl (Nat.add_le_add_left one _)
  | look id call =>
    have asked : ({ s with starting := s.starting.erase call } : ClientState).handoff.Covered 0 := covered
    rw [handoff_take]
    exact asked.more.take
  | giveUp id call isCall =>
    have fewer := (List.perm_cons_erase (List.mem_of_find?_eq_some isCall)).length_eq
    rw [List.length_cons] at fewer
    refine covered.mono le_rfl le_rfl ?_ le_rfl rfl
    change (s.looked.erase call).length + s.asking.length ≤ s.looked.length + s.asking.length
    omega
  | ask id call isCall =>
    have fewer := (List.perm_cons_erase (List.mem_of_find?_eq_some isCall)).length_eq
    rw [List.length_cons] at fewer
    refine covered.mono le_rfl le_rfl ?_ le_rfl rfl
    change (s.looked.erase call).length + (s.asking ++ [call]).length ≤ s.looked.length + s.asking.length
    rw [List.length_append, List.length_singleton]
    omega
  | await id call isCall =>
    have one := (List.perm_cons_erase (List.mem_of_find?_eq_some isCall)).length_eq
    rw [handoff_notified]
    refine Handoff.Covered.notified (covered.mono le_rfl le_rfl ?_ le_rfl rfl)
    exact Nat.le_of_eq (congrArg (s.looked.length + ·) one.symm)
  | wake id woken isWoken =>
    rw [handoff_take]
    exact (covered_erase (List.mem_of_find?_eq_some isWoken) covered).take
  | timeout | leave => exact covered.mono le_rfl le_rfl le_rfl List.erase_sublist.length_le rfl
  | passOn id woken isWoken isOne =>
    have fewer := wokenAlone_erase (List.mem_of_find?_eq_some isWoken)
    rw [if_neg (by rw [isOne]; decide)] at fewer
    have uncovered (lost : s.handoff.Uncovered) : s.Loses (.drop id) :=
      ⟨by rw [isWoken, Option.any_some, isOne]; rfl, lost⟩
    have inHand := covered_erase (List.mem_of_find?_eq_some isWoken) covered
    refine covered_notifyOne inHand (fun lost => kept (uncovered lost)) rfl rfl rfl ?_
    change wokenAlone s.woken + s.notifying ≤ wokenAlone (s.woken.erase woken) + s.notifying + 1
    omega
  | forget id woken isWoken isAll =>
    have same := wokenAlone_erase (List.mem_of_find?_eq_some isWoken)
    rw [if_pos isAll] at same
    exact covered.mono le_rfl (Nat.le_of_eq (congrArg (· + s.notifying + 0) same)) le_rfl le_rfl rfl

end Operations

theorem not_stranded {s : ClientState} (covered : s.handoff.Covered 0) : ¬s.Stranded := by
  rintro ⟨⟨-, notifying, -, -, -, woken⟩, work, waiters⟩
  have idle : s.handoff.idle ≠ 0 := fun none => work (List.eq_nil_of_length_eq_zero none)
  have none := covered.none_waits idle notifying (congrArg wokenAlone woken)
  exact waiters (List.eq_nil_of_length_eq_zero none)

variable (idleTimeout userConnTimeout backlogMax maxPoolCount : Nat) {events : List Event}

/-- Where no notification is lost that two calls may need, no call ever waits beside an idle
work connection. -/
theorem never_stranded
    (meets : RunMeets ClientState.step (fun s event => ¬s.Loses event)
      (.new idleTimeout userConnTimeout backlogMax maxPoolCount) events) :
    Throughout ClientState.step (fun s => ¬s.Stranded) (.new idleTimeout userConnTimeout backlogMax maxPoolCount)
      events := by
  have preserved (s : ClientState) (event : Event) (kept : ¬s.Loses event) (covered : s.handoff.Covered 0) :
      (s.step event).handoff.Covered 0 :=
    covered_change (s.change_step event) kept covered
  have initially : (ClientState.new idleTimeout userConnTimeout backlogMax maxPoolCount).handoff.Covered 0 := .empty
  exact throughout_of_runMeets preserved (fun _ => not_stranded) initially meets

/-- Two calls look, and a work connection is put there and notified of for each of them. -/
def twoLook : List Event := [.acquire 10, .acquire 10, .look 0, .look 1]

def twoWait : List Event := [.ask 0, .ask 1, .await 0, .await 1, .wake 0, .wake 1]

/-- Each call has its work connection where one of them waits before the second comes. -/
theorem never_stranded_waiting :
    Throughout ClientState.step (fun s => ¬s.Stranded) (.new 60 10 0 0)
      (twoLook ++ [.work 0, .notify] ++ twoWait ++ [.work 0, .notify, .wake 1]) :=
  never_stranded 60 10 0 0 (by decide +kernel)

/-- Both are notified of before either waits: one takes its work connection, and the other
waits beside its own. -/
theorem stranded_between_look_and_wait :
    ¬∀ idleTimeout userConnTimeout backlogMax maxPoolCount events,
      Throughout ClientState.step (fun s => ¬s.Stranded) (.new idleTimeout userConnTimeout backlogMax maxPoolCount)
        events := by
  intro always
  have atEnd := (always 60 10 0 0 (twoLook ++ [.work 0, .work 0, .notify, .notify] ++ twoWait)).last
  exact atEnd (by decide +kernel)

end Nfrp.Pool
