import Nfrp.Client.Announce

/-!
# Who gets which answer

Requests by hand and commands of the server share the control connection with
everything else that arrives on it.  A request takes the first response for its
own; commands are read by one of the three loops only.
-/

namespace Nfrp.Client

open Lib

def Output.reply? : Output → Option (Except String String)
  | .reply result => some result
  | _ => none

def Output.serverCmdResp? : Output → Option ServerCmdResp
  | .serverCmdResp r => some r
  | _ => none

/-- A request by hand that has returned: the number of the last announcement, the
table when the request came and when it returned, and what it returned. -/
structure Ended where
  p : ProxyConfig
  request : Nat
  before : String → Option ProxyConfig
  after : String → Option ProxyConfig
  result : Except String String

/-- The proxy is in the table if the request succeeded; otherwise the table is as
it was. -/
structure Ended.Kept (e : Ended) : Prop where
  fresh : ∀ text, e.result = .ok text → e.before e.p.name = none
  ok : ∀ text, e.result = .ok text → ∀ name, e.after name = if name = e.p.name then some e.p else e.before name
  error : ∀ reason, e.result = .error reason → ∀ name, e.after name = e.before name

theorem Ended.Kept.added_iff {e : Ended} (kept : e.Kept) (absent : e.before e.p.name ≠ some e.p) :
    e.after e.p.name = some e.p ↔ ∃ text, e.result = .ok text := by
  cases outcome : e.result with
  | ok text => exact iff_of_true ((kept.ok text outcome e.p.name).trans (if_pos rfl)) ⟨text, rfl⟩
  | error reason =>
    rw [kept.error reason outcome]
    refine iff_of_false absent ?_
    rintro ⟨text, same⟩
    cases same

def ServerCmdResp.Answers (resp : ServerCmdResp) (cmd : ServerCmd) : Prop :=
  resp.id = cmd.id ∧ resp.op = cmd.op ∧ resp.proxyName = cmd.proxyName

namespace ClientState

def asker (c : ClientState) : Event → Option ProxyConfig
  | .addProxy p _ => some p
  | .removeProxy _ => none
  | _ => c.adding

/-- A request ends either with an error and no edit, or with success after a
response, and then it was waited for. -/
structure Returns (c : ClientState) (event : Event) (p : ProxyConfig) (result : Except String String) : Prop where
  idle : (c.step event).1.adding = none
  error : ∀ reason, result = .error reason → c.edit event = none
  ok : ∀ text, result = .ok text → c.edit event = some (.add p) ∧ c.adding = some p ∧
    ∃ answers r, event = .received (.newProxyResp answers r) ∧ r.error = ""

theorem returns_withdraw {c : ClientState} {s : Session} {p : ProxyConfig} {reason : String}
    {result : Except String String} (replied : Output.reply result ∈ (c.withdraw s p reason).2) :
    result = .error reason := by
  simpa [withdraw] using replied

theorem returns_addLive {c : ClientState} {s : Session} {p : ProxyConfig} {sent : Except String Unit}
    {result : Except String String} (idle : c.adding = none)
    (replied : Output.reply result ∈ (c.addLive s p sent).2) :
    (c.addLive s p sent).1.adding = none ∧ ∃ reason, result = .error reason := by
  rw [addLive] at replied ⊢
  split at replied
  next taken =>
    rw [if_pos taken]
    exact ⟨idle, _, by simpa using replied⟩
  next isNew =>
    rw [if_neg isNew]
    cases sent with
    | error e => exact ⟨idle, _, by simpa using replied⟩
    | ok _ => simp at replied

theorem returns_addAnswered {c : ClientState} {s : Session} {p : ProxyConfig} {r : NewProxyResp}
    {result : Except String String} (replied : Output.reply result ∈ (c.addAnswered s p r).2) :
    (c.addAnswered s p r).1.adding = none ∧ (∀ reason, result = .error reason → r.error ≠ "") ∧
      ∀ text, result = .ok text → r.error = "" := by
  rw [addAnswered] at replied ⊢
  split at replied
  next refused =>
    rw [if_pos refused, returns_withdraw replied]
    refine ⟨rfl, fun _ _ => refused, ?_⟩
    rintro _ ⟨⟩
  next accepted =>
    rw [if_neg accepted]
    have isOk : result = .ok ("代理 [" ++ p.name ++ "] 已生效：" ++ r.remoteAddr) := by simpa using replied
    rw [isOk]
    refine ⟨rfl, ?_, fun _ _ => not_not.mp accepted⟩
    rintro _ ⟨⟩

theorem returns_step {c : ClientState} {event : Event} {p : ProxyConfig} {result : Except String String}
    (isAsker : c.asker event = some p) (replied : Output.reply result ∈ (c.step event).2) :
    Returns c event p result := by
  obtain ⟨cfg, store, proxies, session⟩ := c
  cases session with
  | none =>
    cases event with
    | addProxy _ _ => cases replied
    | _ => cases isAsker
  | some s =>
    obtain ⟨serverCmd, resume, phase⟩ := s
    cases phase with
    | registering pending =>
      cases event with
      | addProxy _ _ => cases replied
      | _ => cases isAsker
    | serving =>
      cases event with
      | addProxy q sent =>
        obtain ⟨idle, reason, isError⟩ := returns_addLive rfl replied
        refine ⟨idle, fun _ _ => rfl, fun text isOk => ?_⟩
        cases isError.symm.trans isOk
      | _ => cases isAsker
    | adding q =>
      cases event with
      | received m =>
        obtain rfl := Option.some.inj isAsker
        cases m with
        | newProxyResp answers r =>
          obtain ⟨idle, isRefused, isAccepted⟩ := returns_addAnswered replied
          refine ⟨idle, fun reason isError => ?_, fun text isOk => ?_⟩
          · exact if_neg (isRefused reason isError)
          · exact ⟨if_pos (isAccepted text isOk), rfl, answers, r, rfl, isAccepted text isOk⟩
        | _ => simp [step, receive] at replied
      | timeout =>
        have isError := returns_withdraw replied
        refine ⟨rfl, fun _ _ => rfl, fun _ isOk => ?_⟩
        cases isError.symm.trans isOk
      | disconnected e =>
        have isError := returns_withdraw replied
        refine ⟨rfl, fun _ _ => rfl, fun _ isOk => ?_⟩
        cases isError.symm.trans isOk
      | addProxy _ _ => cases replied
      | login _ _ => cases replied
      | removeProxy _ => cases replied

theorem adding_registered (c : ClientState) (s : Session) (pending : List String) :
    (c.registered s pending).1.adding = none := by
  rw [registered]
  split
  · rfl
  · rfl

theorem adding_addLive {c : ClientState} {s : Session} {p q : ProxyConfig} {sent : Except String Unit}
    (idle : c.adding = none) (waiting : (c.addLive s p sent).1.adding = some q) :
    p = q ∧ c.proxies.get p.name = none := by
  rw [addLive] at waiting
  split at waiting
  · cases idle.symm.trans waiting
  next isNew =>
    cases sent with
    | error _ => cases idle.symm.trans waiting
    | ok _ => exact ⟨Option.some.inj waiting, Option.not_isSome_iff_eq_none.mp isNew⟩

theorem adding_removeLive {c : ClientState} (idle : c.adding = none) (name : String) :
    (c.removeLive name).1.adding = none := by
  rw [removeLive]
  split
  · exact idle
  · exact idle

theorem adding_command {c : ClientState} {s : Session} (idle : c.adding = none) (cmd : ServerCmd) :
    (c.command s cmd).1.adding = none := by
  rw [command]
  split
  · exact idle
  · exact idle

theorem adding_addAnswered (c : ClientState) (s : Session) (p : ProxyConfig) (r : NewProxyResp) :
    (c.addAnswered s p r).1.adding = none := by
  rw [addAnswered]
  split
  · rfl
  · rfl

/-- A request that is waited for either was already, or has just come and found its
name free. -/
theorem adding_step {c : ClientState} {event : Event} {p : ProxyConfig}
    (waiting : (c.step event).1.adding = some p) :
    c.edit event = none ∧ (c.adding = some p ∨
      c.adding = none ∧ (∃ sent, event = .addProxy p sent) ∧ c.proxies.get p.name = none) := by
  obtain ⟨cfg, store, proxies, session⟩ := c
  cases session with
  | none =>
    cases event with
    | login _ _ => cases (adding_registered ..).symm.trans waiting
    | _ => cases waiting
  | some s =>
    obtain ⟨serverCmd, resume, phase⟩ := s
    cases phase with
    | registering pending =>
      cases event with
      | received m =>
        cases m with
        | newProxyResp _ _ => cases (adding_registered ..).symm.trans waiting
        | _ => cases waiting
      | _ => cases waiting
    | serving =>
      cases event with
      | received m =>
        cases m with
        | serverCmd cmd => cases (adding_command rfl cmd).symm.trans waiting
        | _ => cases waiting
      | addProxy q sent =>
        obtain ⟨rfl, isNew⟩ := adding_addLive rfl waiting
        exact ⟨rfl, .inr ⟨rfl, ⟨sent, rfl⟩, isNew⟩⟩
      | removeProxy name => cases (adding_removeLive rfl name).symm.trans waiting
      | _ => cases waiting
    | adding q =>
      cases event with
      | received m =>
        cases m with
        | newProxyResp _ r => cases (adding_addAnswered ..).symm.trans waiting
        | _ => exact ⟨rfl, .inl waiting⟩
      | timeout => cases waiting
      | disconnected _ => cases waiting
      | _ => exact ⟨rfl, .inl waiting⟩

theorem serverCmdResps_registered (c : ClientState) (s : Session) (pending : List String) :
    (c.registered s pending).2.filterMap Output.serverCmdResp? = [] := by
  rw [registered]
  split
  · split
    · rfl
    · rfl
  · rfl

theorem serverCmdResps_login (c : ClientState) (serverCmd resume : Bool) :
    (c.login serverCmd resume).2.filterMap Output.serverCmdResp? = [] := by
  simp only [login]
  rw [List.filterMap_append, serverCmdResps_registered, List.append_nil, List.filterMap_map,
    List.filterMap_eq_nil_iff]
  exact fun _ _ => rfl

theorem serverCmdResps_addLive (c : ClientState) (s : Session) (p : ProxyConfig) (sent : Except String Unit) :
    (c.addLive s p sent).2.filterMap Output.serverCmdResp? = [] := by
  rw [addLive]
  split
  · rfl
  · cases sent with
    | error _ => rfl
    | ok _ => rfl

theorem serverCmdResps_addAnswered (c : ClientState) (s : Session) (p : ProxyConfig) (r : NewProxyResp) :
    (c.addAnswered s p r).2.filterMap Output.serverCmdResp? = [] := by
  rw [addAnswered]
  split
  · rfl
  · rfl

theorem serverCmdResps_removeLive (c : ClientState) (name : String) :
    (c.removeLive name).2.filterMap Output.serverCmdResp? = [] := by
  rw [removeLive]
  split
  · rfl
  · rfl

theorem serverCmdResps_command (c : ClientState) (s : Session) (cmd : ServerCmd) :
    (c.command s cmd).2.filterMap Output.serverCmdResp? =
      if s.serverCmd then [(applyServerCmd c.proxies c.store cmd c.cfg.user).1] else [] := by
  rw [command]
  split
  · rfl
  · rfl

theorem serverCmdResps_nlink (frame : NLinkFrame) :
    (handleNLinkFrame frame).filterMap Output.serverCmdResp? = [] := by
  cases frame with
  | batchReq _ => rfl
  | other => rfl

def respond (c : ClientState) : Event → List ServerCmdResp
  | .received (.serverCmd cmd) =>
    match c.session with
    | some ⟨true, _, .serving⟩ => [(applyServerCmd c.proxies c.store cmd c.cfg.user).1]
    | _ => []
  | _ => []

theorem serverCmdResps_step (c : ClientState) (event : Event) :
    (c.step event).2.filterMap Output.serverCmdResp? = c.respond event := by
  obtain ⟨cfg, store, proxies, session⟩ := c
  cases session with
  | none =>
    cases event with
    | login serverCmd resume => exact serverCmdResps_login ..
    | received m => cases m <;> rfl
    | _ => rfl
  | some s =>
    obtain ⟨serverCmd, resume, phase⟩ := s
    cases phase with
    | registering pending =>
      cases event with
      | received m =>
        cases m with
        | newProxyResp _ _ => exact serverCmdResps_registered ..
        | nlink frame => exact serverCmdResps_nlink frame
        | serverCmd cmd => cases serverCmd <;> rfl
        | _ => rfl
      | _ => rfl
    | serving =>
      cases event with
      | received m =>
        cases m with
        | serverCmd cmd =>
          refine (serverCmdResps_command ..).trans ?_
          cases serverCmd <;> rfl
        | nlink frame => exact serverCmdResps_nlink frame
        | _ => rfl
      | addProxy p sent => exact serverCmdResps_addLive ..
      | removeProxy name => exact serverCmdResps_removeLive ..
      | _ => rfl
    | adding p =>
      cases event with
      | received m =>
        cases m with
        | newProxyResp _ r => exact serverCmdResps_addAnswered ..
        | serverCmd cmd => cases serverCmd <;> rfl
        | _ => rfl
      | _ => rfl

end ClientState

/-- A client, the number of announcements it has sent, those that a response has
accepted, the commands it was given and its answers, and the requests by hand that
have returned. -/
structure Heard where
  client : ClientState
  sent : Nat
  accepted : List Nat
  asked : List ServerCmd
  answered : List ServerCmdResp
  before : String → Option ProxyConfig
  ended : List Ended

namespace Heard

def start (cfg : ClientConfig) (storeEnabled : Bool) (file : Option StoreFile) : Heard :=
  { client := .start cfg storeEnabled file, sent := 0, accepted := [], asked := [], answered := [],
    before := fun _ => none, ended := [] }

def newlyAsked (c : ClientState) : ClientState.Event → List ServerCmd
  | .received (.serverCmd cmd) => if c.session.any (·.serverCmd) then [cmd] else []
  | _ => []

def newlyAccepted : ClientState.Event → List Nat
  | .received (.newProxyResp answers r) => if r.error = "" then [answers] else []
  | _ => []

def tableBefore (h : Heard) : ClientState.Event → String → Option ProxyConfig
  | .addProxy _ _ => if h.client.adding.isSome then h.before else h.client.settled
  | _ => h.before

def step (h : Heard) (event : ClientState.Event) : Heard :=
  let (client, outputs) := h.client.step event
  let before := h.tableBefore event
  let returned := (h.client.asker event).toList.flatMap fun p =>
    (outputs.filterMap Output.reply?).map fun result => ⟨p, h.sent, before, client.proxies.get, result⟩
  { client
    sent := h.sent + (outputs.filterMap Output.newProxy?).length
    accepted := newlyAccepted event ++ h.accepted
    asked := h.asked ++ newlyAsked h.client event
    answered := h.answered ++ outputs.filterMap Output.serverCmdResp?
    before
    ended := returned ++ h.ended }

/-- A response that arrives while a request by hand waits and reports success is
about that request; a command arrives while the session serves. -/
def Orderly (h : Heard) : ClientState.Event → Prop
  | .received (.newProxyResp answers r) => h.client.adding.isSome → r.error = "" → answers = h.sent
  | .received (.serverCmd _) => ∀ s ∈ h.client.session, s.serverCmd → s.phase = .serving
  | _ => True

/-- The table before a request that is waited for is the table without its proxy,
and every request that has returned is reflected in it. -/
structure Consistent (h : Heard) : Prop where
  admits : h.client.Admits
  fresh : ∀ p ∈ h.client.adding, h.before p.name = none
  before : ∀ p ∈ h.client.adding, ∀ name, h.before name = h.client.settled name
  kept : ∀ e ∈ h.ended, e.Kept

theorem consistent_start (cfg : ClientConfig) (storeEnabled : Bool) (file : Option StoreFile) :
    (start cfg storeEnabled file).Consistent :=
  ⟨ClientState.admits_of_idle rfl, fun _ waiting => (nomatch waiting), fun _ waiting => (nomatch waiting),
    fun _ member => (nomatch member)⟩

theorem mem_returned {h : Heard} {event : ClientState.Event} {e : Ended} (member : e ∈ (h.step event).ended) :
    e ∈ h.ended ∨ ∃ p result, h.client.asker event = some p ∧
      Output.reply result ∈ (h.client.step event).2 ∧
      e = ⟨p, h.sent, h.tableBefore event, (h.client.step event).1.proxies.get, result⟩ := by
  rcases List.mem_append.mp member with returned | earlier
  · obtain ⟨p, isAsker, isReturned⟩ := List.mem_flatMap.mp returned
    obtain ⟨result, replied, rfl⟩ := List.mem_map.mp isReturned
    obtain ⟨output, isOutput, isReply⟩ := List.mem_filterMap.mp replied
    have isResult : output = .reply result := by
      cases output with
      | reply _ => rw [Option.some.inj isReply]
      | _ => cases isReply
    exact .inr ⟨p, result, Option.mem_toList.mp isAsker, isResult ▸ isOutput, rfl⟩
  · exact .inl earlier

theorem tableBefore_of_waiting {h : Heard} {p : ProxyConfig} (waiting : h.client.adding = some p)
    (event : ClientState.Event) : h.tableBefore event = h.before := by
  cases event with
  | addProxy _ _ => rw [tableBefore, waiting, Option.isSome_some, if_pos rfl]
  | _ => rfl

theorem tableBefore_eq {h : Heard} (consistent : h.Consistent) {event : ClientState.Event} {p : ProxyConfig}
    (isAsker : h.client.asker event = some p) (name : String) :
    h.tableBefore event name = h.client.settled name := by
  cases waiting : h.client.adding with
  | some q =>
    rw [tableBefore_of_waiting waiting]
    exact consistent.before q waiting name
  | none =>
    cases event with
    | addProxy _ _ => rw [tableBefore, waiting, Option.isSome_none, if_neg Bool.false_ne_true]
    | removeProxy _ => cases isAsker
    | _ => cases waiting.symm.trans isAsker

theorem kept_of_returns {h : Heard} (consistent : h.Consistent) {event : ClientState.Event} {p : ProxyConfig}
    {result : Except String String} (isAsker : h.client.asker event = some p)
    (replied : Output.reply result ∈ (h.client.step event).2) :
    Ended.Kept ⟨p, h.sent, h.tableBefore event, (h.client.step event).1.proxies.get, result⟩ := by
  have returns := ClientState.returns_step isAsker replied
  have stepped := ClientState.step_stepped consistent.admits event
  have after (name : String) : (h.client.step event).1.proxies.get name =
      ClientState.edited (h.client.edit event) (h.tableBefore event) name := by
    rw [← ClientState.settled_of_idle returns.idle, stepped.settled,
      funext (tableBefore_eq consistent isAsker)]
  refine ⟨fun text isOk => ?_, fun text isOk name => ?_, fun reason isError name => ?_⟩
  · obtain ⟨-, waiting, -⟩ := returns.ok text isOk
    dsimp only
    rw [tableBefore_of_waiting waiting]
    exact consistent.fresh p waiting
  · refine (after name).trans ?_
    rw [(returns.ok text isOk).1]
    rfl
  · refine (after name).trans ?_
    rw [returns.error reason isError]
    rfl

theorem consistent_step (h : Heard) (event : ClientState.Event) (consistent : h.Consistent) :
    (h.step event).Consistent := by
  have stepped := ClientState.step_stepped consistent.admits event
  refine ⟨stepped.admits, fun p waiting => ?_, fun p waiting name => ?_, fun e member => ?_⟩
  · obtain ⟨-, already | ⟨idle, ⟨sent, rfl⟩, isNew⟩⟩ := ClientState.adding_step waiting
    · exact (congrFun (tableBefore_of_waiting already event) p.name).trans (consistent.fresh p already)
    · have isAsker : h.client.asker (.addProxy p sent) = some p := rfl
      exact (tableBefore_eq consistent isAsker p.name).trans
        ((ClientState.settled_of_idle idle p.name).trans isNew)
  · obtain ⟨noEdit, already | ⟨idle, ⟨sent, rfl⟩, -⟩⟩ := ClientState.adding_step waiting
    · rw [noEdit] at stepped
      exact (congrFun (tableBefore_of_waiting already event) name).trans
        ((consistent.before p already name).trans (stepped.settled name).symm)
    · have isAsker : h.client.asker (.addProxy p sent) = some p := rfl
      rw [noEdit] at stepped
      exact (tableBefore_eq consistent isAsker name).trans (stepped.settled name).symm
  · rcases mem_returned member with earlier | ⟨p, result, isAsker, replied, rfl⟩
    · exact consistent.kept e earlier
    · exact kept_of_returns consistent isAsker replied

/-- A request that returned success was accepted, and every command was answered. -/
structure Answered (h : Heard) : Prop where
  accepted : ∀ e ∈ h.ended, ∀ text, e.result = .ok text → e.request ∈ h.accepted
  answers : List.Forall₂ (fun cmd resp => ServerCmdResp.Answers resp cmd) h.asked h.answered

theorem answers_step {h : Heard} {event : ClientState.Event} (orderly : h.Orderly event) :
    List.Forall₂ (fun cmd resp => ServerCmdResp.Answers resp cmd) (newlyAsked h.client event)
      ((h.client.step event).2.filterMap Output.serverCmdResp?) := by
  rw [ClientState.serverCmdResps_step]
  cases event with
  | received m =>
    cases m with
    | serverCmd cmd =>
      rw [newlyAsked, ClientState.respond]
      cases isSession : h.client.session with
      | none => exact .nil
      | some s =>
        obtain ⟨serverCmd, resume, phase⟩ := s
        cases serverCmd with
        | false => exact .nil
        | true =>
          have isServing : phase = .serving := orderly _ isSession rfl
          subst isServing
          exact .cons (applyServerCmd_answers ..) .nil
    | _ => exact .nil
  | _ => exact .nil

theorem answered_step (h : Heard) (event : ClientState.Event) (orderly : h.Orderly event)
    (answered : h.Answered) : (h.step event).Answered := by
  refine ⟨fun e member text isOk => ?_, ?_⟩
  · rcases mem_returned member with earlier | ⟨p, result, isAsker, replied, rfl⟩
    · exact List.mem_append_right _ (answered.accepted e earlier text isOk)
    · obtain ⟨-, waiting, answers, r, rfl, accepted⟩ := (ClientState.returns_step isAsker replied).ok text isOk
      have isAnswer : answers = h.sent := orderly (by rw [waiting]; rfl) accepted
      refine List.mem_append_left _ ?_
      rw [newlyAccepted, if_pos accepted, isAnswer]
      exact List.mem_singleton_self _
  · exact List.rel_append answered.answers (answers_step orderly)

/-- In every run in which a response that arrives while a request by hand waits and
reports success is about that request, and commands arrive while the session serves:
a request succeeds only if its own announcement was accepted, the table holds its
proxy exactly if it succeeds, and every command has one answer. -/
theorem requests_answered (cfg : ClientConfig) (storeEnabled : Bool) (file : Option StoreFile)
    (events : List ClientState.Event)
    (orderly : RunMeets step Orderly (start cfg storeEnabled file) events) :
    let h := run step (start cfg storeEnabled file) events
    (∀ e ∈ h.ended, e.Kept ∧
      (e.before e.p.name ≠ some e.p → (e.after e.p.name = some e.p ↔ ∃ text, e.result = .ok text))) ∧
      (∀ e ∈ h.ended, ∀ text, e.result = .ok text → e.request ∈ h.accepted) ∧
      List.Forall₂ (fun cmd resp => ServerCmdResp.Answers resp cmd) h.asked h.answered := by
  have consistent := run_invariant consistent_step (consistent_start cfg storeEnabled file) events
  have initially : (start cfg storeEnabled file).Answered := ⟨fun _ member => (nomatch member), .nil⟩
  have answered := run_invariant_of_meets answered_step initially orderly
  refine ⟨fun e isEnded => ?_, answered.accepted, answered.answers⟩
  have kept := consistent.kept e isEnded
  exact ⟨kept, kept.added_iff⟩

/-- A proxy that is added by hand, with a request for a work connection before the
answer, and removed by the server. -/
theorem requests_answered_example :
    let web : ProxyConfig := { name := "web", localAddr := "127.0.0.1:80", remotePort := 6001 }
    let events := [ClientState.Event.login true false, .addProxy web (.ok ()), .received .reqWorkConn,
      .received (.newProxyResp 1 { proxyName := "web" }),
      .received (.serverCmd { op := "remove_proxy", proxyName := "web" })]
    let h := run step (start {} false none) events
    List.Forall₂ (fun cmd resp => ServerCmdResp.Answers resp cmd) h.asked h.answered := by
  intro web events h
  have orderly : RunMeets step Orderly (start {} false none) events := by
    refine ⟨trivial, trivial, trivial, fun _ _ => rfl, ?_, trivial⟩
    rintro s isSession -
    obtain rfl := Option.some.inj isSession
    rfl
  exact (requests_answered {} false none events orderly).2.2

/-- The answer to a request that was given up is taken for that of the next one; and
a command that arrives during the registration has no answer. -/
theorem requests_confused :
    let proxy (name : String) : ProxyConfig := { name, localAddr := "127.0.0.1:80", remotePort := 6001 }
    let h := run step (start {} false none) [.login true false, .addProxy (proxy "a") (.ok ()), .timeout,
      .addProxy (proxy "b") (.ok ()), .received (.newProxyResp 1 { proxyName := "a" })]
    let g := run step (start { proxies := [proxy "a"] } false none) [.login true false,
      .received (.serverCmd { op := "remove_proxy", proxyName := "b" }),
      .received (.newProxyResp 1 { proxyName := "a" })]
    (∃ e ∈ h.ended, e.p = proxy "b" ∧ (∃ text, e.result = .ok text) ∧ e.request ∉ h.accepted) ∧
      ¬ List.Forall₂ (fun cmd resp => ServerCmdResp.Answers resp cmd) g.asked g.answered := by
  intro proxy h g
  constructor
  · have succeeded : h.ended.any fun e => e.p = proxy "b" ∧ e.result.isOk ∧ e.request ∉ h.accepted := by
      decide +kernel
    obtain ⟨e, isEnded, holds⟩ := List.any_eq_true.mp succeeded
    obtain ⟨isProxy, isOk, notAccepted⟩ := of_decide_eq_true holds
    refine ⟨e, isEnded, isProxy, ?_, notAccepted⟩
    cases outcome : e.result with
    | ok text => exact ⟨text, rfl⟩
    | error _ => cases outcome ▸ isOk
  · intro answered
    have sameLength := answered.length_eq
    exact absurd sameLength (by decide +kernel)

end Heard

end Nfrp.Client
