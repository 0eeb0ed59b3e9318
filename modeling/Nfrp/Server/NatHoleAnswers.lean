import Nfrp.Server.NatHole

/-!
# Every visitor gets one answer

A request that was accepted stays in the table until somebody answers it, as long as
no other request clears it away first.
-/

namespace Nfrp.NatHole

open Lib

/-- An answer to the visitor of a session: an error, or the addresses its provider sent. -/
structure Session.AnsweredBy (heard : List (ClientId × NatHoleClient)) (session : Session) (a : Forwarded) : Prop where
  client : a.client = session.visitorClient
  transactionId : a.resp.transactionId = session.visitorTxn
  content : a.resp.error ≠ "" ∨ ∃ m : NatHoleClient, (session.providerClient, m) ∈ heard ∧ m.sid = session.sid ∧
    a.resp.candidateAddrs = m.mappedAddrs.destutter (· ≠ ·) ∧ a.resp.assistedAddrs = m.assistedAddrs.destutter (· ≠ ·)

theorem ne_empty_append {s t : String} (given : s ≠ "") : s ++ t ≠ "" := by
  intro empty
  refine given (String.toList_injective ?_)
  have noChar : s.toList ++ t.toList = [] := by
    rw [← String.toList_append, empty]
    rfl
  exact (List.append_eq_nil_iff.mp noChar).1

/-- Either the visitor is told what is wrong, or it gets what the provider sent. -/
theorem visitorResp_pair (records : Records) (reports : ReportInfos) (reserve now : Nat) (s : Session)
    (m : NatHoleClient) :
    (pair records reports reserve now s m).visitorResp.transactionId = s.visitorTxn ∧
      ((pair records reports reserve now s m).visitorResp.error ≠ "" ∨
        (pair records reports reserve now s m).visitorResp.candidateAddrs = m.mappedAddrs.destutter (· ≠ ·) ∧
          (pair records reports reserve now s m).visitorResp.assistedAddrs = m.assistedAddrs.destutter (· ≠ ·)) := by
  rw [pair]
  by_cases sameProxy : s.proxyName = m.proxyName
  · rw [if_neg (not_not.mpr sameProxy)]
    by_cases noAddrs : m.mappedAddrs = []
    · rw [if_pos noAddrs]
      exact ⟨rfl, .inl (show "provider NatHoleClient has no mapped_addrs" ≠ "" by decide)⟩
    · rw [if_neg noAddrs]
      cases classifyNatFeature m.mappedAddrs (parseIps m.assistedAddrs) with
      | error e => exact ⟨rfl, .inl (ne_empty_append (by decide))⟩
      | ok c =>
        cases classifyNatFeature s.visitorMapped (parseIps s.visitorAssisted) with
        | error e => exact ⟨rfl, .inl (ne_empty_append (by decide))⟩
        | ok v => exact ⟨rfl, .inr ⟨rfl, rfl⟩⟩
  · rw [if_pos sameProxy]
    exact ⟨rfl, .inl (show "NatHoleClient proxy_name mismatch" ≠ "" by decide)⟩

/-- One of the two sends first, and the other waits for it. -/
def Opposite (first second : RecommandBehavior) : Prop :=
  first.role = .sender ∧ second.role = .receiver ∨ first.role = .receiver ∧ second.role = .sender

instance (first second : RecommandBehavior) : Decidable (Opposite first second) :=
  inferInstanceAs (Decidable (_ ∨ _))

theorem opposite_of_mem {mode : Nat} {pair : RecommandBehavior × RecommandBehavior} (member : pair ∈ behaviorsByMode mode) :
    Opposite pair.1 pair.2 := by
  have each : (mode0 ++ mode1 ++ mode2 ++ mode3 ++ mode4).all fun pair => Opposite pair.1 pair.2 := by decide +kernel
  simp only [List.all_append, Bool.and_eq_true, List.all_eq_true, decide_eq_true_eq] at each
  obtain ⟨⟨⟨⟨zero, one⟩, two⟩, three⟩, four⟩ := each
  unfold behaviorsByMode at member
  split at member
  · exact one pair member
  · exact two pair member
  · exact three pair member
  · exact four pair member
  · exact zero pair member

def Records.Sound (records : Records) : Prop := ∀ key r, records.lookup key = some r → r.Sound

/-- The way that is recommended is one of the mode, whatever the records were made for. -/
theorem getRecommandBehaviors_spec {records : Records} (sound : records.Sound) (reserve now : Nat) (key : String)
    (c v : NatFeature) :
    Opposite (getRecommandBehaviors records reserve now key c v).1.2.2.1
        (getRecommandBehaviors records reserve now key c v).1.2.2.2 ∧
      Records.Sound (getRecommandBehaviors records reserve now key c v).2 := by
  have kept : ∀ other r, (retain (fun _ r => reserve = 0 ∨ now - r.lastUpdate < reserve) records).lookup other = some r →
      r.Sound := by
    intro other r found
    rw [lookup_retain] at found
    exact sound other r (Option.filter_eq_some_iff.mp found).1
  have isSound : (((retain (fun _ r => decide (reserve = 0 ∨ now - r.lastUpdate < reserve)) records).lookup key).getD
      (HoleRecords.new c v now)).Sound := by
    cases found : (retain (fun _ r => decide (reserve = 0 ∨ now - r.lastUpdate < reserve)) records).lookup key with
    | none => exact HoleRecords.sound_new c v now
    | some r => exact kept key r found
  refine ⟨?_, forall_lookup_insert (isSound.recommend now) kept⟩
  obtain ⟨k, s, found, -, same⟩ := HoleRecords.recommend_cases isSound.isSome now
  obtain ⟨pair, isPair⟩ : ∃ pair, (behaviorsByMode s.mode)[s.index]? = some pair :=
    ⟨_, List.getElem?_eq_getElem (isSound.known s (List.mem_of_getElem? found))⟩
  have opposite := opposite_of_mem (List.mem_of_getElem? isPair)
  have either : ∀ swapped : Bool, Opposite (if swapped then (pair.2, pair.1) else (pair.1, pair.2)).1
      (if swapped then (pair.2, pair.1) else (pair.1, pair.2)).2 := by
    intro swapped
    cases swapped with
    | false => exact opposite
    | true => exact opposite.symm.imp And.symm And.symm
  simp only [getRecommandBehaviors, same, isPair, Option.getD_some]
  exact either _

/-- The two answers of a session fit each other. -/
structure Agreed (visitor provider : NatHoleResp) : Prop where
  session : visitor.sid = provider.sid ∧ visitor.protocol = provider.protocol
  mode : visitor.detectBehavior.mode = provider.detectBehavior.mode
  roles : visitor.detectBehavior.role = "sender" ∧ provider.detectBehavior.role = "receiver" ∨
    visitor.detectBehavior.role = "receiver" ∧ provider.detectBehavior.role = "sender"
  together : visitor.detectBehavior.sendDelayMs + visitor.detectBehavior.readTimeoutMs =
    provider.detectBehavior.sendDelayMs + provider.detectBehavior.readTimeoutMs
  patient : 5000 ≤ visitor.detectBehavior.readTimeoutMs ∧ 5000 ≤ provider.detectBehavior.readTimeoutMs

theorem pair_spec {records : Records} (sound : records.Sound) (reports : ReportInfos) (reserve now : Nat) (s : Session)
    (m : NatHoleClient) :
    (pair records reports reserve now s m).records.Sound ∧
      ((pair records reports reserve now s m).visitorResp.error ≠ "" ∨
        ∃ answer, (pair records reports reserve now s m).providerResp = some answer ∧
          Agreed (pair records reports reserve now s m).visitorResp answer) := by
  rw [pair]
  split
  · exact ⟨sound, .inl (show "NatHoleClient proxy_name mismatch" ≠ "" by decide)⟩
  split
  · exact ⟨sound, .inl (show "provider NatHoleClient has no mapped_addrs" ≠ "" by decide)⟩
  cases classifyNatFeature m.mappedAddrs (parseIps m.assistedAddrs) with
  | error e => exact ⟨sound, .inl (ne_empty_append (by decide))⟩
  | ok c =>
    cases classifyNatFeature s.visitorMapped (parseIps s.visitorAssisted) with
    | error e => exact ⟨sound, .inl (ne_empty_append (by decide))⟩
    | ok v =>
      obtain ⟨opposite, later⟩ := getRecommandBehaviors_spec sound reserve now
        (fingerprintKey c v m.mappedAddrs s.visitorMapped) c v
      refine ⟨later, .inr ⟨_, rfl, ⟨rfl, rfl⟩, rfl, ?_, ?_, ?_⟩⟩
      · rcases opposite with ⟨sends, waits⟩ | ⟨waits, sends⟩
        · exact .inr ⟨congrArg HoleRole.text waits, congrArg HoleRole.text sends⟩
        · exact .inl ⟨congrArg HoleRole.text sends, congrArg HoleRole.text waits⟩
      · dsimp only [buildResponse, detectBehavior]
        omega
      · dsimp only [buildResponse, detectBehavior]
        split <;> omega

namespace Controller

def answers (s : Controller) : List (String × Forwarded) :=
  s.sent.filterMap fun f => f.answers.map fun sid => (sid, f)

/-- Everything accepted is in the table or answered; who may answer knows whom. -/
structure Coherent (s : Controller) : Prop where
  balanced : Balanced (Session.AnsweredBy s.heard) s.sessions s.accepted s.answers
  named : ∀ {sid session}, (sid, session) ∈ s.accepted → session.sid = sid
  workTasks : ∀ task ∈ s.workTasks, ∃ session, (task.sid, session) ∈ s.accepted ∧
    session.visitorClient = task.visitor ∧ session.visitorTxn = task.txn
  timeouts : ∀ timer ∈ s.timeouts, ∃ session, (timer.sid, session) ∈ s.accepted ∧ session.visitorTxn = timer.txn
  awaited : ∀ {sid session}, s.sessions.lookup sid = some session →
    ∃ timer ∈ s.timeouts, timer.sid = sid ∧ timer.fires = session.created + waitClient

theorem answers_answer (s : Controller) (sid : String) (visitor : ClientId) (resp : NatHoleResp) :
    (s.answer sid visitor resp).answers =
      s.answers ++ [(sid, { client := visitor, resp, answers := some sid })] := by
  rw [answers, answer, List.filterMap_append]
  rfl

theorem coherent_start (reserve : Nat) : Coherent { reserve } where
  balanced := .empty
  named := by simp
  workTasks := by simp
  timeouts := by simp
  awaited := by simp

variable {s : Controller} {sid : String} {session : Session}

theorem Coherent.fewer (coherent : Coherent s) {workTasks : List WorkTask} {timeouts : List Timeout}
    (fewerTasks : ∀ task ∈ workTasks, task ∈ s.workTasks) (fewerTimeouts : ∀ timer ∈ timeouts, timer ∈ s.timeouts)
    (kept : ∀ {sid session}, s.sessions.lookup sid = some session →
      ∃ timer ∈ timeouts, timer.sid = sid ∧ timer.fires = session.created + waitClient) :
    Coherent { s with workTasks, timeouts } where
  balanced := coherent.balanced
  named := coherent.named
  workTasks := fun task member => coherent.workTasks task (fewerTasks task member)
  timeouts := fun timer member => coherent.timeouts timer (fewerTimeouts timer member)
  awaited := kept

theorem Coherent.answer (coherent : Coherent s) (isPending : s.sessions.lookup sid = some session) {resp : NatHoleResp}
    (met : session.AnsweredBy s.heard { client := session.visitorClient, resp, answers := some sid })
    {workTasks : List WorkTask} {timeouts : List Timeout} (fewerTasks : ∀ task ∈ workTasks, task ∈ s.workTasks)
    (fewerTimeouts : ∀ timer ∈ timeouts, timer ∈ s.timeouts)
    (others : ∀ timer ∈ s.timeouts, timer.sid ≠ sid → timer ∈ timeouts) :
    Coherent ({ s with workTasks, timeouts }.answer sid session.visitorClient resp) where
  balanced := by
    rw [answers_answer]
    exact coherent.balanced.settle isPending met
  named := coherent.named
  workTasks := fun task member => coherent.workTasks task (fewerTasks task member)
  timeouts := fun timer member => coherent.timeouts timer (fewerTimeouts timer member)
  awaited := by
    intro other old found
    rw [Controller.answer, lookup_erase_eq] at found
    split at found
    next => cases found
    next different =>
      obtain ⟨timer, member, isTimer, fires⟩ := coherent.awaited found
      exact ⟨timer, others timer member (isTimer ▸ different), isTimer, fires⟩

theorem answeredBy_error {heard : List (ClientId × NatHoleClient)} {err : String} (isError : err ≠ "") :
    session.AnsweredBy heard
      { client := session.visitorClient, resp := errorResp session.visitorTxn err, answers := some sid } where
  client := rfl
  transactionId := rfl
  content := .inl isError

theorem Coherent.giveUp (coherent : Coherent s) {task : WorkTask} (member : task ∈ s.workTasks) {err : String}
    (isError : err ≠ "") {workTasks : List WorkTask} (fewerTasks : ∀ task ∈ workTasks, task ∈ s.workTasks) :
    Coherent (if ({ s with workTasks }.sessions.lookup task.sid).isSome then
      { s with workTasks }.answer task.sid task.visitor (errorResp task.txn err) else { s with workTasks }) := by
  split
  next isPending =>
    obtain ⟨session, found⟩ := Option.isSome_iff_exists.mp isPending
    obtain ⟨known, isAccepted, isVisitor, isTxn⟩ := coherent.workTasks task member
    obtain rfl := coherent.balanced.once isAccepted (coherent.balanced.isIssued found)
    rw [← isVisitor, ← isTxn]
    exact coherent.answer found (answeredBy_error isError) fewerTasks (fun _ => id) fun timer member _ => member
  next => exact coherent.fewer fewerTasks (fun _ => id) coherent.awaited

theorem coherent_timeout (coherent : Coherent s) {timer : Timeout} (member : timer ∈ s.timeouts) :
    Coherent ({ s with timeouts := s.timeouts.filter (·.sid ≠ timer.sid) }.timeout timer) := by
  have fewer : ∀ other ∈ s.timeouts.filter (·.sid ≠ timer.sid), other ∈ s.timeouts :=
    fun other isOther => List.mem_of_mem_filter isOther
  have others : ∀ other ∈ s.timeouts, other.sid ≠ timer.sid → other ∈ s.timeouts.filter (·.sid ≠ timer.sid) :=
    fun other isOther different => List.mem_filter.mpr ⟨isOther, decide_eq_true different⟩
  rw [Controller.timeout]
  cases found : s.sessions.lookup timer.sid with
  | none =>
    refine coherent.fewer (fun _ => id) fewer ?_
    intro sid session isPending
    obtain ⟨other, isOther, isSid, fires⟩ := coherent.awaited isPending
    refine ⟨other, others other isOther ?_, isSid, fires⟩
    intro same
    rw [isSid] at same
    cases (same ▸ found).symm.trans isPending
  | some session =>
    obtain ⟨known, isAccepted, isTxn⟩ := coherent.timeouts timer member
    obtain rfl := coherent.balanced.once isAccepted (coherent.balanced.isIssued found)
    rw [← isTxn]
    exact coherent.answer found (answeredBy_error (by decide)) (fun _ => id) fewer others

theorem Coherent.hears (coherent : Coherent s) (provider : ClientId) (m : NatHoleClient) :
    Coherent { s with heard := s.heard ++ [(provider, m)] } where
  balanced := by
    refine coherent.balanced.mono fun session a answered => ⟨answered.client, answered.transactionId, ?_⟩
    rcases answered.content with isError | ⟨sent, isHeard, content⟩
    · exact .inl isError
    · exact .inr ⟨sent, List.mem_append_left _ isHeard, content⟩
  named := coherent.named
  workTasks := coherent.workTasks
  timeouts := coherent.timeouts
  awaited := coherent.awaited

theorem Coherent.tells (coherent : Coherent s) (records : Records) (reports : ReportInfos) {provider : ClientId}
    {resps : List NatHoleResp} :
    Coherent { s with records, reports, sent := s.sent ++ resps.map fun resp => { client := provider, resp } } where
  balanced := by
    have same : answers { s with
        records, reports, sent := s.sent ++ resps.map fun resp => { client := provider, resp } } = s.answers := by
      rw [answers, List.filterMap_append, List.filterMap_map]
      exact (congrArg _ (List.filterMap_eq_nil_iff.mpr fun _ _ => rfl)).trans (List.append_nil _)
    rw [same]
    exact coherent.balanced
  named := coherent.named
  workTasks := coherent.workTasks
  timeouts := coherent.timeouts
  awaited := coherent.awaited

theorem coherent_handleClient (coherent : Coherent s) {provider : ClientId} {m : NatHoleClient}
    (isHeard : (provider, m) ∈ s.heard) : Coherent (s.handleClient provider m).1 := by
  rw [handleClient]
  split
  next => exact coherent
  next =>
    cases found : s.sessions.lookup m.sid with
    | none => exact coherent
    | some session =>
      simp only
      split
      next isProvider =>
        obtain ⟨txn, content⟩ := visitorResp_pair s.records s.reports s.reserve s.now session m
        have met : session.AnsweredBy s.heard
            { client := session.visitorClient, resp := (pair s.records s.reports s.reserve s.now session m).visitorResp,
              answers := some m.sid } := by
          refine ⟨rfl, txn, content.imp_right fun addrs => ⟨m, ?_, ?_, addrs⟩⟩
          · rw [isProvider]
            exact isHeard
          · exact (coherent.named (coherent.balanced.isIssued found)).symm
        exact (coherent.answer found met (fun _ => id) (fun _ => id) fun timer member _ => member).tells _ _
      next => exact coherent

/-- The name of a session is drawn at random, and new. -/
def Event.Fresh (s : Controller) : Event → Prop
  | .natHoleVisitor _ _ m sid => m.mappedAddrs ≠ [] → sid ∉ s.accepted.map (·.1)
  | _ => True

/-- No session in the table is as old as its timer when a request comes. -/
def Event.ClearsNothing (s : Controller) : Event → Prop
  | .natHoleVisitor _ _ m _ =>
    m.mappedAddrs ≠ [] → ∀ entry ∈ s.sessions.entries, s.now - entry.2.created < waitClient
  | _ => True

instance (s : Controller) (event : Event) : Decidable (event.Fresh s) := by
  cases event with
  | natHoleVisitor visitor entry m sid => exact inferInstanceAs (Decidable (_ → _))
  | _ => exact .isTrue trivial

instance (s : Controller) (event : Event) : Decidable (event.ClearsNothing s) := by
  cases event with
  | natHoleVisitor visitor entry m sid => exact inferInstanceAs (Decidable (_ → _))
  | _ => exact .isTrue trivial

theorem coherent_startSession (coherent : Coherent s) {visitor : ClientId} {entry : VisitorEntry} {m : NatHoleVisitor}
    (fresh : (Event.natHoleVisitor visitor entry m sid).Fresh s)
    (clearsNothing : (Event.natHoleVisitor visitor entry m sid).ClearsNothing s) :
    Coherent (s.startSession visitor entry m sid).1 := by
  rw [startSession]
  split
  next => exact coherent
  next addrs =>
    have kept : retain (fun _ old => s.now - old.created < waitClient) s.sessions = s.sessions :=
      retain_eq_self fun entry member => decide_eq_true (clearsNothing addrs entry member)
    simp only [kept]
    split
    next => exact coherent
    next =>
      constructor
      · exact coherent.balanced.issue (fun old isOld => fresh addrs (List.mem_map_of_mem isOld)) _
      · intro other old isAccepted
        rcases List.mem_append.mp isAccepted with earlier | new
        · exact coherent.named earlier
        · obtain ⟨rfl, rfl⟩ := Prod.mk.inj (List.mem_singleton.mp new)
          rfl
      · intro task member
        rcases List.mem_append.mp member with earlier | new
        · obtain ⟨old, isAccepted, same⟩ := coherent.workTasks task earlier
          exact ⟨old, List.mem_append_left _ isAccepted, same⟩
        · rw [List.mem_singleton.mp new]
          exact ⟨_, List.mem_append_right _ (List.mem_singleton_self _), rfl, rfl⟩
      · intro timer member
        rcases List.mem_append.mp member with earlier | new
        · obtain ⟨old, isAccepted, same⟩ := coherent.timeouts timer earlier
          exact ⟨old, List.mem_append_left _ isAccepted, same⟩
        · rw [List.mem_singleton.mp new]
          exact ⟨_, List.mem_append_right _ (List.mem_singleton_self _), rfl⟩
      · intro other old found
        rw [lookup_insert_eq] at found
        split at found
        next same =>
          obtain rfl := Option.some.inj found
          exact ⟨_, List.mem_append_right _ (List.mem_singleton_self _), same.symm, rfl⟩
        next =>
          obtain ⟨timer, member, isTimer⟩ := coherent.awaited found
          exact ⟨timer, List.mem_append_left _ member, isTimer⟩

theorem coherent_step (s : Controller) (event : Event) (fresh : event.Fresh s) (clearsNothing : event.ClearsNothing s)
    (coherent : Coherent s) : Coherent (s.step event) := by
  cases event with
  | tick ms => exact ⟨coherent.balanced, coherent.named, coherent.workTasks, coherent.timeouts, coherent.awaited⟩
  | natHoleVisitor visitor entry m sid => exact coherent_startSession coherent fresh clearsNothing
  | workTask sid outcome =>
    rw [step]
    cases found : s.workTasks.find? (·.sid = sid) with
    | none => exact coherent
    | some task =>
      have fewer : ∀ other ∈ s.workTasks.filter (·.sid ≠ sid), other ∈ s.workTasks :=
        fun other isOther => List.mem_of_mem_filter isOther
      have member := List.mem_of_find?_eq_some found
      cases outcome with
      | noWorkConn => exact coherent.giveUp member (by decide) fewer
      | sendFailed what cause => exact coherent.giveUp member (ne_empty_append (by decide)) fewer
      | sent => exact coherent.fewer fewer (fun _ => id) coherent.awaited
  | timeout sid =>
    rw [step]
    cases found : s.timeouts.find? fun timer => timer.sid = sid ∧ timer.fires ≤ s.now with
    | none => exact coherent
    | some timer =>
      have due := List.find?_some found
      obtain rfl : timer.sid = sid := (of_decide_eq_true due).1
      exact coherent_timeout coherent (List.mem_of_find?_eq_some found)
  | natHoleClient provider m =>
    exact coherent_handleClient (coherent.hears provider m) (List.mem_append_right _ (List.mem_singleton_self _))
  | natHoleReport m =>
    rw [step, handleReport]
    split
    next => exact coherent
    next =>
      exact ⟨coherent.balanced, coherent.named, coherent.workTasks, coherent.timeouts, coherent.awaited⟩

/-- Who takes a session out of the table by a message is the provider it is for. -/
theorem provider_of_consumed {provider : ClientId} {m : NatHoleClient} (isPending : s.sessions.lookup sid = some session)
    (consumed : (s.step (.natHoleClient provider m)).sessions.lookup sid = none) :
    session.providerClient = provider ∧ m.sid = sid := by
  rw [step, handleClient] at consumed
  split at consumed
  next => cases isPending.symm.trans consumed
  next =>
    split at consumed
    next => cases isPending.symm.trans consumed
    next other found =>
      split at consumed
      next isProvider =>
        change (s.sessions.erase m.sid).lookup sid = none at consumed
        rw [lookup_erase_eq] at consumed
        split at consumed
        next same =>
          subst same
          obtain rfl := Option.some.inj (isPending.symm.trans found)
          exact ⟨isProvider, rfl⟩
        next => cases isPending.symm.trans consumed
      next => cases isPending.symm.trans consumed

/-- Every accepted request waits for its one answer or has got it, and it has got it
once its timer has fired; only its provider can take it out of the table by a message. -/
structure Served (s : Controller) : Prop where
  once : ∀ {sid session}, (sid, session) ∈ s.accepted →
    receiptsOf sid s.answers = [] ∧ (∃ timer ∈ s.timeouts, timer.sid = sid) ∨
      ∃ a, receiptsOf sid s.answers = [a] ∧ session.AnsweredBy s.heard a
  inTime : ∀ {sid session timer}, (sid, session) ∈ s.accepted → timer ∈ s.timeouts → timer.sid = sid →
    timer.fires ≤ s.now → ∃ a, receiptsOf sid (s.step (.timeout sid)).answers = [a] ∧ session.AnsweredBy s.heard a
  provider : ∀ {sid session provider m}, s.sessions.lookup sid = some session →
    (s.step (.natHoleClient provider m)).sessions.lookup sid = none → session.providerClient = provider ∧ m.sid = sid

theorem Coherent.once (coherent : Coherent s) (isAccepted : (sid, session) ∈ s.accepted) :
    receiptsOf sid s.answers = [] ∧ (∃ timer ∈ s.timeouts, timer.sid = sid) ∨
      ∃ a, receiptsOf sid s.answers = [a] ∧ session.AnsweredBy s.heard a := by
  cases found : s.sessions.lookup sid with
  | none => exact .inr (coherent.balanced.settled isAccepted found)
  | some pending =>
    obtain ⟨timer, member, isTimer, -⟩ := coherent.awaited found
    exact .inl ⟨coherent.balanced.unpaid found, timer, member, isTimer⟩

theorem timeouts_timeout (timer : Timeout) : (s.timeout timer).timeouts = s.timeouts := by
  rw [timeout]
  split <;> rfl

theorem accepted_timeout (timer : Timeout) : (s.timeout timer).accepted = s.accepted := by
  rw [timeout]
  split <;> rfl

theorem accepted_step_timeout (sid : String) : (s.step (.timeout sid)).accepted = s.accepted := by
  rw [step]
  split
  next => rfl
  next => exact accepted_timeout _

theorem timeouts_step_timeout {timer : Timeout} (member : timer ∈ s.timeouts) (isTimer : timer.sid = sid)
    (due : timer.fires ≤ s.now) : ∀ other ∈ (s.step (.timeout sid)).timeouts, other.sid ≠ sid := by
  rw [step]
  cases found : s.timeouts.find? fun timer => timer.sid = sid ∧ timer.fires ≤ s.now with
  | none => exact absurd (decide_eq_true ⟨isTimer, due⟩) (List.find?_eq_none.mp found timer member)
  | some fired =>
    intro other isOther
    simp only [timeouts_timeout] at isOther
    exact of_decide_eq_true (List.mem_filter.mp isOther).2

theorem heard_step_timeout (sid : String) : (s.step (.timeout sid)).heard = s.heard := by
  rw [step]
  split
  next => rfl
  next =>
    rw [timeout]
    split <;> rfl

theorem Coherent.served (s : Controller) (coherent : Coherent s) : Served s := by
  constructor
  · intro sid session isAccepted
    exact coherent.once isAccepted
  · intro sid session timer isAccepted member isTimer due
    have later := coherent_step s (.timeout sid) trivial trivial coherent
    rw [← accepted_step_timeout sid] at isAccepted
    rcases later.once isAccepted with ⟨-, other, isOther, same⟩ | ⟨a, only, answered⟩
    · exact absurd same (timeouts_step_timeout member isTimer due other isOther)
    · rw [heard_step_timeout] at answered
      exact ⟨a, only, answered⟩
  · exact provider_of_consumed

structure LeavesOthers (s after : Controller) (sid : String) : Prop where
  young : ∀ {other session}, other ≠ sid → s.sessions.lookup other = some session →
    ¬s.now - session.created < waitClient → after.sessions.lookup other = none
  accepted : ∀ entry ∈ s.accepted, entry ∈ after.accepted
  timeouts : ∀ timer ∈ s.timeouts, timer ∈ after.timeouts
  now : after.now = s.now
  answers : after.answers = s.answers

theorem leavesOthers_startSession {visitor : ClientId} {entry : VisitorEntry} {m : NatHoleVisitor}
    (addrs : m.mappedAddrs ≠ []) : LeavesOthers s (s.startSession visitor entry m sid).1 sid := by
  have gone : ∀ {other session}, s.sessions.lookup other = some session → ¬s.now - session.created < waitClient →
      (retain (fun _ old => s.now - old.created < waitClient) s.sessions).lookup other = none := by
    intro other session found isOld
    rw [lookup_retain, found]
    exact Option.filter_eq_none_iff.mpr fun _ same young =>
      isOld (Option.some.inj same ▸ of_decide_eq_true young)
  rw [startSession, if_neg addrs]
  simp only
  split
  next => exact ⟨fun _ => gone, fun _ => id, fun _ => id, rfl, rfl⟩
  next =>
    refine ⟨?_, fun entry => List.mem_append_left _, fun timer => List.mem_append_left _, rfl, rfl⟩
    intro other session different found isOld
    rw [lookup_insert_eq, if_neg different]
    exact gone found isOld

theorem answers_step_timeout (absent : s.sessions.lookup sid = none) : (s.step (.timeout sid)).answers = s.answers := by
  rw [step]
  cases found : s.timeouts.find? fun timer => timer.sid = sid ∧ timer.fires ≤ s.now with
  | none => rfl
  | some timer =>
    have due := List.find?_some found
    obtain rfl : timer.sid = sid := (of_decide_eq_true due).1
    simp only [timeout, absent]
    rfl

/-- A request that is cleared away is not answered when its timer fires. -/
theorem not_served_of_clears (s : Controller) (event : Event) (fresh : event.Fresh s) (coherent : Coherent s)
    (clears : ¬event.ClearsNothing s) : ¬Served (s.step event) := by
  cases event with
  | natHoleVisitor visitor entry m sid =>
    simp only [Event.ClearsNothing, not_forall] at clears
    obtain ⟨addrs, ⟨old, session⟩, member, isOld⟩ := clears
    have found : s.sessions.lookup old = some session := lookup_eq_some_iff.mpr member
    have isAccepted := coherent.balanced.isIssued found
    have different : old ≠ sid := by
      rintro rfl
      exact fresh addrs (List.mem_map_of_mem isAccepted)
    obtain ⟨timer, isTimer, sameSid, fires⟩ := coherent.awaited found
    have others : LeavesOthers s (s.startSession visitor entry m sid).1 sid := leavesOthers_startSession addrs
    have due : timer.fires ≤ (s.startSession visitor entry m sid).1.now := by
      have isLate : ¬s.now - session.created < waitClient := isOld
      rw [others.now, fires]
      rw [waitClient] at isLate ⊢
      omega
    intro served
    obtain ⟨a, only, -⟩ := served.inTime (others.accepted _ isAccepted) (others.timeouts timer isTimer) sameSid due
    change receiptsOf old ((s.startSession visitor entry m sid).1.step (.timeout old)).answers = [a] at only
    rw [answers_step_timeout (others.young different found isOld), others.answers,
      coherent.balanced.unpaid found] at only
    cases only
  | _ => exact absurd trivial clears

/-- As long as no request clears another away. -/
theorem answered_once_iff {reserve : Nat} {events : List Event}
    (fresh : RunMeets step (fun s event => event.Fresh s) { reserve } events) :
    Throughout step Served { reserve } events ↔
      RunMeets step (fun s event => event.ClearsNothing s) { reserve } events :=
  throughout_iff_runMeets coherent_step Coherent.served not_served_of_clears (coherent_start reserve) fresh

/-- A request that its provider answers after three seconds, and one that nobody answers. -/
def answeredRun : List Event :=
  [.natHoleVisitor 1 { proxyName := "game", client := 7 }
      { transactionId := "t1", mappedAddrs := ["198.51.100.1:40000", "198.51.100.1:40002"] } "1700000000a",
    .workTask "1700000000a" .sent,
    .tick 3000,
    .natHoleClient 7
      { transactionId := "p1", proxyName := "game", sid := "1700000000a",
        mappedAddrs := ["203.0.113.9:50000", "203.0.113.9:50000"] },
    .natHoleVisitor 2 { proxyName := "game", client := 7 }
      { transactionId := "t2", mappedAddrs := ["192.0.2.4:41000", "192.0.2.4:41000"] } "1700000003b",
    .tick 10000,
    .timeout "1700000000a",
    .timeout "1700000003b"]

theorem served_answeredRun : Throughout step Served {} answeredRun :=
  (answered_once_iff (by decide +kernel)).mpr (by decide +kernel)

/-- The second request comes just when the first one's timer is due. -/
def clearedRun : List Event :=
  [.natHoleVisitor 1 { proxyName := "game", client := 7 }
      { transactionId := "t1", mappedAddrs := ["198.51.100.1:40000", "198.51.100.1:40002"] } "1700000000a",
    .workTask "1700000000a" .sent,
    .tick 10000,
    .natHoleVisitor 2 { proxyName := "game", client := 7 }
      { transactionId := "t2", mappedAddrs := ["192.0.2.4:41000", "192.0.2.4:41000"] } "1700000010b",
    .timeout "1700000000a"]

theorem not_served_clearedRun :
    RunMeets step (fun s event => event.Fresh s) {} clearedRun ∧
      "1700000000a" ∈ (run step {} clearedRun).accepted.map (·.1) ∧
      receiptsOf "1700000000a" (run step {} clearedRun).answers = [] ∧
      ¬Served (run step {} clearedRun) := by
  have unanswered : (receiptsOf "1700000000a" (run step {} clearedRun).answers).length = 0 := by decide +kernel
  have isAccepted : "1700000000a" ∈ (run step {} clearedRun).accepted.map (·.1) := by decide +kernel
  have noTimer : ∀ timer ∈ (run step {} clearedRun).timeouts, timer.sid ≠ "1700000000a" := by decide +kernel
  have none := List.eq_nil_of_length_eq_zero unanswered
  refine ⟨by decide +kernel, isAccepted, none, fun served => ?_⟩
  obtain ⟨⟨sid, session⟩, member, rfl⟩ := List.mem_map.mp isAccepted
  rcases served.once member with ⟨-, timer, isTimer, same⟩ | ⟨a, only, -⟩
  · exact noTimer timer isTimer same
  · cases none.symm.trans only

theorem sound_handleReport {s : Controller} (sound : s.records.Sound) (m : NatHoleReport) :
    (s.handleReport m).records.Sound := by
  rw [handleReport]
  split
  · exact sound
  dsimp only
  split
  next info _ =>
    split
    next r _ isThere =>
      exact forall_lookup_insert ((sound _ r isThere).reportSuccess info.mode info.index s.now) sound
    next => exact sound
  next => exact sound

theorem sound_step {s : Controller} (sound : s.records.Sound) (e : Event) : (s.step e).records.Sound := by
  cases e with
  | tick ms => exact sound
  | natHoleVisitor visitor entry m sid =>
    rw [step, startSession]
    split
    · exact sound
    dsimp only
    split <;> exact sound
  | workTask sid outcome =>
    rw [step]
    split
    · exact sound
    cases outcome with
    | sent => exact sound
    | noWorkConn =>
      dsimp only [workTask]
      split <;> exact sound
    | sendFailed what cause =>
      dsimp only [workTask]
      split <;> exact sound
  | timeout sid =>
    rw [step]
    split
    · exact sound
    rw [timeout]
    split <;> exact sound
  | natHoleClient provider m =>
    rw [step, handleClient]
    split
    · exact sound
    split
    · exact sound
    split
    · exact (pair_spec sound _ _ _ _ m).1
    · exact sound
  | natHoleReport m => exact sound_handleReport sound m

end Controller

end Nfrp.NatHole
