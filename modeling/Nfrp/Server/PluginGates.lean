import Nfrp.Server.Gates
import Nfrp.Server.Sourced

/-!
# What the plugins let pass

Who comes in over the handshake, what a client announces itself, the work connections of a
client, and the users that are bridged have been let pass.  The SSH gateway, the panel,
virtual hosts and visitors of UDP services have ways of their own.
-/

namespace Nfrp

open Lib

namespace Gates

section Property

variable (prims : Primitives) (sec : SecurityContext) (plugins : PluginManager) {Value : Type}
  (contents : Contents Value) (past : List (Event sec Value))

/-- The plugins, if there are any, were asked about a login that came, and have left
this one. -/
def LoginPassed (login : Login) : Prop :=
  plugins.isEmpty ∨ ∃ arrived peer runId opening call now nlink resume room sent content,
    Event.login arrived peer runId opening call now nlink resume room ∈ past ∧ opening.message = .login sent ∧
      LetPass call 0 (plugins.subscribed opLogin) (contents.login sent peer) content ∧
      contents.loginOf content = .ok login

/-- They were asked about an announcement of this client, under its owner's name for it,
and have left this one, up to that name. -/
def ProxyPassed (names : List String) (user : String) (m : NewProxy) : Prop :=
  plugins.isEmpty ∨ ∃ runId sent call answer login content left,
    (Event.newProxy runId sent call answer ∈ past ∨ Event.sshProxy runId sent call answer ∈ past) ∧ runId ∈ names ∧
      LetPass call 0 (plugins.subscribed opNewProxy)
        (contents.newProxy { sent with proxyName := canonicalWireName user sent.proxyName } login runId) content ∧
      contents.newProxyOf content = .ok left ∧ m = { left with proxyName := canonicalWireName user left.proxyName }

/-- The message that was sent is the one whose identity is checked; what the plugins left
of it names the client and brings the credential. -/
def WorkPassed (work : WorkItem) (msg : NewWorkConn) : Prop :=
  ∃ (arrived asked checked : Moment sec) (clock : Clock sec) (conn : FrpConn) (sent : NewWorkConn) (call : Call Value)
    (room : Bool) (holder client : ClientState),
    Event.work arrived clock conn sent call room ∈ past ∧ work.conn.peer = conn.peer ∧
      asked.registry.get sent.runId = some holder ∧ checkIdentity prims asked holder sent = .ok () ∧
      ((plugins.isEmpty ∧ msg = sent) ∨ ∃ content, asked = arrived ∧
        LetPass call 0 (plugins.subscribed opNewWorkConn) (contents.newWorkConn sent { user := holder.user } holder.runId)
          content ∧ contents.newWorkConnOf content = .ok msg) ∧
      checked.registry.get msg.runId = some client ∧ checkCredential prims checked client msg work.conn.peer = .ok ()

def UserPassed (u : User) : Prop :=
  plugins.isEmpty ∨ ∃ index call content, Event.userAnswered index call ∈ past ∧
    LetPass call 0 (plugins.subscribed opNewUserConn) (u.content contents) content

structure Vetted (c : Client) : Prop where
  login : c.origin = .frp → LoginPassed sec plugins contents past c.login ∧ c.state.user = c.login.user
  letPass : ∀ m ∈ c.letPass, ProxyPassed sec plugins contents past c.names c.terms.user m
  proxies : c.proxies.Sourced (c.letPass ++ c.byPanel)
  named : c.state.runId ∈ c.names
  pool : c.origin = .frp → ∀ w ∈ c.pool, ∃ msg, w.checked = some msg ∧ msg.runId ∈ c.names ∧
    WorkPassed prims sec plugins contents past w.work msg

structure Gated (s : Server) : Prop where
  clients : ∀ c ∈ s.table.clients, Vetted prims sec plugins contents past c
  suspended : ∀ waiting ∈ s.suspended, waiting.2.origin = .frp ∧ Vetted prims sec plugins contents past waiting.2
  joined : ∀ pair ∈ s.joined, pair.user.kind.bridged → UserPassed sec plugins contents past pair.user

/-- A plugin refuses what is asked, or cannot be asked. -/
def Refused (s : Server) : Event sec Value → Prop
  | .login _ peer _ opening call .. =>
    ∃ sent reason, opening.message = .login sent ∧ plugins.isEmpty = false ∧
      plugins.handleMutable call opLogin (contents.login sent peer) = .error reason
  | .newProxy runId m call _ =>
    ∀ c, s.table.get runId = some c → c.proxies.busy = false → ∃ reason, plugins.isEmpty = false ∧
      plugins.handleMutable call opNewProxy
        (contents.newProxy { m with proxyName := canonicalWireName c.terms.user m.proxyName } c.login c.state.runId) =
        .error reason
  | .work arrived _ _ msg call _ =>
    plugins.isEmpty = false ∧ ∀ holder, arrived.registry.get msg.runId = some holder → ∃ reason,
      plugins.handleMutable call opNewWorkConn (contents.newWorkConn msg { user := holder.user } holder.runId) =
        .error reason
  | .userAnswered index call =>
    ∀ pair, s.asking[index]? = some pair → ∃ reason, plugins.isEmpty = false ∧
      plugins.handleMutable call opNewUserConn (pair.user.content contents) = .error reason
  | _ => False

/-- The clients with their tables, the suspended sessions and the users that are joined. -/
structure SameTables (s t : Server) : Prop where
  table : t.table = s.table
  suspended : t.suspended = s.suspended
  joined : t.joined = s.joined

end Property

section Tables

variable {P : Client → Prop} {t : Table} {runId : String}

theorem mem_of_get {c : Client} (found : t.get runId = some c) : c ∈ t.clients ∧ c.state.runId = runId :=
  (find?_key_eq_some_iff t.nodup).mp found

theorem eq_of_get {c other : Client} (found : t.get runId = some c) (member : other ∈ t.clients)
    (same : other.state.runId = runId) : other = c :=
  List.inj_on_of_nodup_map t.nodup member (mem_of_get found).1 (same.trans (mem_of_get found).2.symm)

theorem forall_remove (all : ∀ c ∈ t.clients, P c) (runId : String) : ∀ c ∈ (t.remove runId).clients, P c :=
  fun c member => all c (List.mem_filter.mp member).1

theorem forall_insert (all : ∀ c ∈ t.clients, P c) {new : Client} (isNew : P new) :
    ∀ c ∈ (t.insert new).clients, P c := by
  intro c member
  rcases List.mem_append.mp member with before | same
  · exact all c (List.mem_filter.mp before).1
  · exact List.mem_singleton.mp same ▸ isNew

theorem forall_update (all : ∀ c ∈ t.clients, P c) {f : Client → Client}
    (changed : ∀ c ∈ t.clients, c.state.runId = runId → P { f c with state := c.state }) :
    ∀ c ∈ (t.update runId f).clients, P c := by
  intro c member
  obtain ⟨before, isBefore, rfl⟩ := List.mem_map.mp member
  split
  next same => exact changed before isBefore same
  next => exact all before isBefore

theorem update_self {c : Client} (found : t.get runId = some c) : (t.update runId fun _ => c) = t := by
  have same : (t.clients.map fun other => if other.state.runId = runId then { c with state := other.state } else other) =
      t.clients := by
    refine (List.map_congr_left fun other member => ?_).trans (List.map_id _)
    split
    next isRun => rw [eq_of_get found member isRun, id]
    next => rfl
  cases t
  simp only [Table.update, same]

end Tables

section Preserved

variable {prims : Primitives} {sec : SecurityContext} {cfg : ServerConfig} {rbac : CompiledRbac}
  {plugins : PluginManager} {Value : Type} {contents : Contents Value} {past : List (Event sec Value)} {s : Server}
  {c : Client} {call : Call Value}

theorem letPass_of_handleMutable {op : String} {content final : Value}
    (passed : plugins.handleMutable call op content = .ok final) : LetPass call 0 (plugins.subscribed op) content final :=
  ask_eq_ok_iff.mp passed

theorem loginPassed_of_control {arrived : Moment sec} {peer : IpAddr} {runId : String} {opening : Opening} {now : Nat}
    {nlink : Option UInt64} {resume : Option Nat} {room : Bool} {conn : FrpConn} {login : Login} {role : Role}
    {udpBinary : Bool} {caps : NfrpCaps}
    (happened : Event.login arrived peer runId opening call now nlink resume room ∈ past)
    (accepted : serverHandshake prims (loginPlugins plugins contents call now) rbac.roleFor arrived peer runId opening =
      .ok (.control conn login role udpBinary caps)) : LoginPassed sec plugins contents past login := by
  obtain ⟨sent, later, isLogin, loggedIn⟩ := exists_loggedIn accepted
  have asked := loggedIn.asked
  rw [loginPlugins] at asked
  split at asked
  next none => exact .inl none
  next =>
    obtain ⟨left, hooked, same⟩ := map_eq_ok_iff.mp asked
    obtain ⟨rfl, -⟩ := Prod.mk.inj same
    obtain ⟨content, passed, read⟩ := bind_eq_ok_iff.mp hooked
    exact .inr ⟨arrived, peer, runId, opening, call, now, nlink, resume, room, sent, content, happened, isLogin,
      letPass_of_handleMutable (mapError_eq_ok_iff.mp passed), mapError_eq_ok_iff.mp read⟩

theorem proxyPassed_of_hooked {login : Login} {names : List String} {runId user : String} {sent left : NewProxy}
    {answer : Answer} (happened : Event.newProxy runId sent call answer ∈ past ∨ Event.sshProxy runId sent call answer ∈ past)
    (named : runId ∈ names)
    (hooked : hookProxy plugins contents call login runId
      { sent with proxyName := canonicalWireName user sent.proxyName } = .passed left) :
    ProxyPassed sec plugins contents past names user { left with proxyName := canonicalWireName user left.proxyName } := by
  rw [hookProxy] at hooked
  split at hooked
  next none => exact .inl none
  next =>
    split at hooked
    next => cases hooked
    next content passed =>
      split at hooked
      next m read =>
        obtain rfl := Hooked.passed.inj hooked
        exact .inr ⟨runId, sent, call, answer, login, content, _, happened, named, letPass_of_handleMutable passed, read,
          rfl⟩
      next => cases hooked

theorem userPassed_of_hooked {index : Nat} {u : User} (happened : Event.userAnswered index call ∈ past)
    (hooked : hookUserConn plugins call (u.content contents) = .ok ()) : UserPassed sec plugins contents past u := by
  rw [hookUserConn] at hooked
  split at hooked
  next none => exact .inl none
  next =>
    obtain ⟨content, passed, -⟩ := map_eq_ok_iff.mp hooked
    exact .inr ⟨index, call, content, happened, letPass_of_handleMutable passed⟩

/-- A work connection that is handed to a client has passed its checks, and the message
that names the client is what the plugins left. -/
theorem workPassed_of_handleWork {arrived answered : Moment sec} {clock : Clock sec} {conn : FrpConn} {sent : NewWorkConn}
    {room : Bool} {submission : Submission sec} (happened : Event.work arrived clock conn sent call room ∈ past)
    (handled : handleWork prims (workPlugins plugins contents call answered)
      (if plugins.isEmpty then answered else arrived) conn sent = .ok submission) :
    submission.client.runId = submission.msg.runId ∧
      WorkPassed prims sec plugins contents past submission.work submission.msg := by
  obtain ⟨holder, passed⟩ := exists_passed handled
  have asked := passed.asked
  have registered := registered_of_askPlugins passed.found asked
  refine ⟨(Registry.get_eq_some_iff.mp registered).2, ?_⟩
  have peer := peer_of_handleWork handled
  have credential : checkCredential prims submission.checked submission.client submission.msg
      submission.work.conn.peer = .ok () := peer ▸ passed.credential
  refine ⟨arrived, _, submission.checked, clock, conn, sent, call, room, holder, submission.client, happened, peer,
    passed.found, passed.identity, ?_, ?_, credential⟩
  · by_cases none : plugins.isEmpty
    · rw [workPlugins, if_pos none, askPlugins] at asked
      exact .inl ⟨none, (Prod.mk.inj (Except.ok.inj asked)).1.symm⟩
    · rw [workPlugins, if_neg none, askPlugins] at asked
      split at asked
      next => cases asked
      next msg checked answer =>
        split at asked
        next => cases asked
        next client registered =>
          obtain ⟨left, hooked, answered⟩ := map_eq_ok_iff.mp answer
          obtain ⟨rfl, -⟩ := Prod.mk.inj answered
          obtain ⟨content, letPass, read⟩ := bind_eq_ok_iff.mp hooked
          refine .inr ⟨content, if_neg none, letPass_of_handleMutable (mapError_eq_ok_iff.mp letPass), ?_⟩
          exact (Prod.mk.inj (Except.ok.inj asked)).1 ▸ mapError_eq_ok_iff.mp read
  · exact registered

theorem Vetted.fresh (state : ClientState) (login : Login) (terms : Terms)
    (passed : LoginPassed sec plugins contents past login ∧ state.user = login.user) :
    Vetted prims sec plugins contents past
      { state, login, origin := .frp, terms, names := [state.runId] } where
  login := fun _ => passed
  letPass := fun _ member => nomatch member
  proxies := Proxies.sourced_start _
  named := List.mem_singleton_self _
  pool := fun _ _ member => nomatch member

theorem ProxyPassed.mono {names more : List String} {user : String} {m : NewProxy}
    (passed : ProxyPassed sec plugins contents past names user m) (subset : names ⊆ more) :
    ProxyPassed sec plugins contents past more user m := by
  rcases passed with none | ⟨runId, sent, call, answer, login, content, left, happened, named, rest⟩
  · exact .inl none
  · exact .inr ⟨runId, sent, call, answer, login, content, left, happened, subset named, rest⟩

theorem Vetted.resumed (vetted : Vetted prims sec plugins contents past c) {runId : String} (named : runId ≠ "")
    (peer : IpAddr) {login : Login} (passed : LoginPassed sec plugins contents past login)
    (sameUser : c.state.user = login.user) : Vetted prims sec plugins contents past (c.resumed runId named peer login) where
  login := fun _ => ⟨passed, sameUser⟩
  letPass := fun m member => (vetted.letPass m member).mono (List.subset_cons_self _ _)
  proxies := Proxies.sourced_step c.terms .resume vetted.proxies
  named := List.mem_cons_self
  pool := by
    intro isFrp w member
    obtain ⟨msg, checked, isName, workPassed⟩ := vetted.pool isFrp w member
    exact ⟨msg, checked, List.mem_cons_of_mem _ isName, workPassed⟩

theorem Vetted.newProxy (vetted : Vetted prims sec plugins contents past c) {m : NewProxy} (answer : Answer)
    (passed : ProxyPassed sec plugins contents past c.names c.terms.user
      { m with proxyName := canonicalWireName c.terms.user m.proxyName }) :
    Vetted prims sec plugins contents past
      { c with
        proxies := (c.proxies.step c.terms (.newProxy m answer)).1
        letPass := { m with proxyName := canonicalWireName c.terms.user m.proxyName } :: c.letPass } where
  login := vetted.login
  letPass := List.forall_mem_cons.mpr ⟨passed, vetted.letPass⟩
  proxies := Proxies.sourced_step c.terms (.newProxy m answer) vetted.proxies
  named := vetted.named
  pool := vetted.pool

theorem Vetted.announce {m : NewProxy} {answer : Answer} {runId : String} (vetted : Vetted prims sec plugins contents past c)
    (happened : Event.newProxy runId m call answer ∈ past) (isRun : c.state.runId = runId) {after : Client}
    (announced : c.announce plugins contents m call answer = some after) :
    Vetted prims sec plugins contents past { after with state := c.state } := by
  rw [Client.announce] at announced
  split at announced
  next =>
    obtain rfl := Option.some.inj announced
    exact vetted
  next =>
    dsimp only at announced
    split at announced
    next =>
      obtain rfl := Option.some.inj announced
      exact vetted
    next => cases announced
    next left hooked =>
      obtain rfl := Option.some.inj announced
      exact vetted.newProxy answer (proxyPassed_of_hooked (.inl (isRun ▸ happened)) vetted.named hooked)

theorem Vetted.announceTunnel {m : NewProxy} {answer : Answer} {runId : String}
    (vetted : Vetted prims sec plugins contents past c) (happened : Event.sshProxy runId m call answer ∈ past)
    (isRun : c.state.runId = runId) {after : Client}
    (announced : c.announceTunnel plugins contents m call answer = some after) :
    Vetted prims sec plugins contents past { after with state := c.state } := by
  rw [Client.announceTunnel] at announced
  split at announced
  next => cases announced
  next => cases announced
  next left hooked =>
    split at announced
    next => cases announced
    next proxies outcome registered =>
      obtain rfl := Option.some.inj announced
      have registers := vetted.newProxy answer (proxyPassed_of_hooked (.inr (isRun ▸ happened)) vetted.named hooked)
      rw [registered] at registers
      exact registers

theorem Vetted.proxyEvent (vetted : Vetted prims sec plugins contents past c) (event : Proxies.Event) :
    Vetted prims sec plugins contents past { c.proxyEvent event with state := c.state } := by
  have sourced := Proxies.sourced_step c.terms event vetted.proxies
  cases event with
  | newProxy | resume => exact vetted
  | panelAck index accepted answer =>
    refine { vetted with proxies := sourced.mono ?_ }
    intro m member
    rcases List.mem_append.mp member with isNew | before
    · exact List.mem_append_right _ (List.mem_append_left _ isNew)
    · rcases List.mem_append.mp before with letPass | byPanel
      · exact List.mem_append_left _ letPass
      · exact List.mem_append_right _ (List.mem_append_right _ byPanel)
  | panelAdd | bound | closeProxy | panelRemove | resumeCommit | graceExpired | stop =>
    exact { vetted with proxies := sourced }

theorem gated_empty : Gated prims sec plugins contents past { table := Table.empty } where
  clients := fun _ member => nomatch member
  suspended := fun _ member => nomatch member
  joined := fun _ member => nomatch member

theorem Gated.update (gated : Gated prims sec plugins contents past s) {runId : String} {f : Client → Client}
    (changed : ∀ c ∈ s.table.clients, c.state.runId = runId → Vetted prims sec plugins contents past c →
      Vetted prims sec plugins contents past { f c with state := c.state }) :
    Gated prims sec plugins contents past { s with table := s.table.update runId f } where
  clients := forall_update gated.clients fun c member isRun => changed c member isRun (gated.clients c member)
  suspended := gated.suspended
  joined := gated.joined

theorem Gated.remove (gated : Gated prims sec plugins contents past s) (runId : String) :
    Gated prims sec plugins contents past { s with table := s.table.remove runId } where
  clients := forall_remove gated.clients runId
  suspended := gated.suspended
  joined := gated.joined

theorem Gated.insert (gated : Gated prims sec plugins contents past s) {new : Client}
    (isNew : Vetted prims sec plugins contents past new) :
    Gated prims sec plugins contents past { s with table := s.table.insert new } where
  clients := forall_insert gated.clients isNew
  suspended := gated.suspended
  joined := gated.joined

theorem Gated.others (gated : Gated prims sec plugins contents past s) {suspended : List (Nat × Client)} {asking : List Pair}
    (fewer : suspended ⊆ s.suspended) : Gated prims sec plugins contents past { s with suspended, asking } where
  clients := gated.clients
  suspended := fun waiting member => gated.suspended waiting (fewer member)
  joined := gated.joined

theorem Gated.join (gated : Gated prims sec plugins contents past s) {pair : Pair}
    (passed : pair.user.kind.bridged → UserPassed sec plugins contents past pair.user) :
    Gated prims sec plugins contents past { s with joined := s.joined ++ [pair] } where
  clients := gated.clients
  suspended := gated.suspended
  joined := by
    intro other member
    rcases List.mem_append.mp member with before | isNew
    · exact gated.joined other before
    · exact List.mem_singleton.mp isNew ▸ passed

theorem Gated.putOrRemove (gated : Gated prims sec plugins contents past s) {runId : String}
    (found : s.table.get runId = some c) {result : Option Client}
    (changed : ∀ after, result = some after → Vetted prims sec plugins contents past { after with state := c.state }) :
    Gated prims sec plugins contents past (s.putOrRemove runId result) := by
  cases result with
  | none => exact gated.remove runId
  | some after =>
    exact gated.update fun other member isRun _ => eq_of_get found member isRun ▸ changed after rfl

theorem Gated.vetted_of_get (gated : Gated prims sec plugins contents past s) {runId : String}
    (found : s.table.get runId = some c) : Vetted prims sec plugins contents past c :=
  gated.clients c (mem_of_get found).1

theorem Gated.handleControl (gated : Gated prims sec plugins contents past s) (conn : FrpConn) {login : Login}
    (passed : LoginPassed sec plugins contents past login) (udpBinary : Bool) (caps : NfrpCaps) (runId : String)
    (nlink : Option UInt64) (resume : Option Nat) (room : Bool) :
    Gated prims sec plugins contents past
      (s.handleControl cfg rbac conn login udpBinary caps runId nlink resume room) := by
  rw [Server.handleControl]
  split
  next => exact gated
  next named =>
    split
    next => exact gated
    next terms isTerms =>
      dsimp only
      split
      next key old taken =>
        obtain ⟨wanted, -, isTaken⟩ := Option.bind_eq_some_iff.mp taken
        have waits := List.mem_of_find?_eq_some isTaken
        have resumes := List.find?_some isTaken
        have sameUser : old.state.user = login.user := by
          simp only [Client.resumes, Bool.and_eq_true, decide_eq_true_eq] at resumes
          exact resumes.2.1.1.1.1
        have resumed := (gated.suspended (key, old) waits).2.resumed named conn.peer passed sameUser
        exact (gated.insert resumed).others List.filter_sublist.subset
      next =>
        split
        next => exact gated.insert (Vetted.fresh _ login terms ⟨passed, rfl⟩)
        next => exact gated

theorem Gated.runTunnel (gated : Gated prims sec plugins contents past s) (clock : Clock sec) (peer : IpAddr)
    (runId user : String) (token : Option String) (room : Bool) :
    Gated prims sec plugins contents past (s.runTunnel prims cfg rbac clock peer runId user token room) := by
  rw [Server.runTunnel]
  split
  next => exact gated
  next named =>
    split
    next => exact gated
    next terms isTerms =>
      split
      next => exact gated
      next =>
        split
        next =>
          refine gated.insert ?_
          exact
            { login := nofun
              letPass := fun _ member => nomatch member
              proxies := Proxies.sourced_start _
              named := List.mem_singleton_self _
              pool := nofun }
        next => exact gated

theorem Gated.submitWork (gated : Gated prims sec plugins contents past s) {runId : String} {w : Pooled} (room : Bool)
    (vetted : ∀ c, s.table.get runId = some c → c.origin = .frp → ∃ msg, w.checked = some msg ∧ msg.runId ∈ c.names ∧
      WorkPassed prims sec plugins contents past w.work msg) :
    Gated prims sec plugins contents past (s.submitWork runId w room) := by
  rw [Server.submitWork]
  split
  next => exact gated
  next c found =>
    split
    next u rest waits =>
      have waiting : Gated prims sec plugins contents past
          { s with table := s.table.update runId fun c => { c with waiting := rest } } :=
        gated.update fun c _ _ vetted => { vetted with }
      exact waiting.others (List.Subset.refl _)
    next =>
      split
      next =>
        refine gated.update fun other member isRun before => { before with pool := fun isFrp w' member' => ?_ }
        obtain rfl := eq_of_get found member isRun
        rcases List.mem_append.mp member' with before' | isNew
        · exact before.pool isFrp w' before'
        · exact List.mem_singleton.mp isNew ▸ vetted other found isFrp
      next => exact gated

theorem Gated.submitUser (gated : Gated prims sec plugins contents past s) (u : User) (room : Bool) :
    Gated prims sec plugins contents past (s.submitUser u room) := by
  rw [Server.submitUser]
  split
  next => exact gated
  next c found =>
    split
    next w rest isPool =>
      have taken : Gated prims sec plugins contents past
          { s with table := s.table.update u.clientRunId fun c => { c with pool := rest } } := by
        refine gated.update fun other member isRun before => { before with pool := fun isFrp w' member' => ?_ }
        obtain rfl := eq_of_get found member isRun
        exact before.pool isFrp w' (isPool ▸ List.mem_cons_of_mem _ member')
      dsimp only
      split
      next => exact taken.others (List.Subset.refl _)
      next others => exact taken.join fun bridged => absurd bridged others
    next =>
      split
      next => exact gated.update fun c _ _ vetted => { vetted with }
      next => exact gated

theorem gated_step (gated : Gated prims sec plugins contents past s) {event : Event sec Value} (happened : event ∈ past) :
    Gated prims sec plugins contents past (step prims cfg rbac plugins contents s event) := by
  cases event with
  | login arrived peer runId opening call now nlink resume room =>
    rw [step]
    split
    next conn login role udpBinary caps accepted =>
      exact gated.handleControl conn (loginPassed_of_control happened accepted) udpBinary caps runId nlink resume room
    next => exact gated
  | ssh clock peer runId user token room => exact gated.runTunnel clock peer runId user token room
  | newProxy runId m call answer =>
    rw [step]
    split
    next c found =>
      split
      next =>
        exact gated.putOrRemove found fun after announced =>
          (gated.vetted_of_get found).announce happened (mem_of_get found).2 announced
      next => exact gated
    next => exact gated
  | sshProxy runId m call answer =>
    rw [step]
    split
    next c found =>
      split
      next =>
        exact gated.putOrRemove found fun after announced =>
          (gated.vetted_of_get found).announceTunnel happened (mem_of_get found).2 announced
      next => exact gated
    next => exact gated
  | proxies runId event => exact gated.update fun c _ _ vetted => vetted.proxyEvent event
  | work arrived clock conn msg call room =>
    rw [step]
    split
    next submission handled =>
      obtain ⟨isNamed, passed⟩ := workPassed_of_handleWork happened handled
      refine gated.submitWork room fun c found _ => ⟨submission.msg, rfl, ?_, passed⟩
      exact isNamed ▸ (mem_of_get found).2 ▸ (gated.vetted_of_get found).named
    next => exact gated
  | sshWork runId work room =>
    rw [step]
    split
    next c found =>
      split
      next isSsh =>
        refine gated.submitWork room fun other found' isFrp => ?_
        obtain rfl := Option.some.inj (found.symm.trans found')
        cases isSsh.symm.trans isFrp
      next => exact gated
    next => exact gated
  | user kind runId proxyName proxyType remoteAddr room =>
    rw [step]
    split
    next => exact gated.submitUser _ room
    next => exact gated
  | userAnswered index call =>
    rw [step]
    split
    next => exact gated
    next pair found =>
      dsimp only
      split
      next hooked =>
        have answered : Gated prims sec plugins contents past { s with asking := s.asking.eraseIdx index } :=
          gated.others (List.Subset.refl _)
        exact answered.join fun _ => userPassed_of_hooked happened hooked
      next => exact gated.others (List.Subset.refl _)
  | reaped runId users works =>
    refine gated.update fun c _ _ vetted => { vetted with pool := fun isFrp w member => ?_ }
    exact vetted.pool isFrp w (List.mem_of_mem_drop member)
  | suspend runId key =>
    rw [step]
    split
    next c found =>
      split
      next isFrp =>
        split
        next => exact gated.remove runId
        next =>
          refine { clients := forall_remove gated.clients runId, suspended := ?_, joined := gated.joined }
          intro waiting member
          rcases List.mem_append.mp member with before | isNew
          · exact gated.suspended waiting before
          · exact List.mem_singleton.mp isNew ▸ ⟨isFrp, gated.vetted_of_get found⟩
      next => exact gated
    next => exact gated
  | expired key => exact gated.others List.filter_sublist.subset
  | stopped runId => exact gated.remove runId
  | ended index =>
    exact { gated with joined := fun pair member => gated.joined pair (List.mem_of_mem_eraseIdx member) }

theorem SameTables.refl (s : Server) : SameTables s s := ⟨rfl, rfl, rfl⟩

theorem hookProxy_of_refused {login : Login} {runId reason : String} {m : NewProxy} (some : plugins.isEmpty = false)
    (refused : plugins.handleMutable call opNewProxy (contents.newProxy m login runId) = .error reason) :
    hookProxy plugins contents call login runId m = .refused reason := by
  rw [hookProxy, some, refused]
  rfl

theorem not_control_of_refused {arrived : Moment sec} {peer : IpAddr} {runId reason : String} {opening : Opening}
    {now : Nat} {sent : Login} (isLogin : opening.message = .login sent) (some : plugins.isEmpty = false)
    (refused : plugins.handleMutable call opLogin (contents.login sent peer) = .error reason)
    {conn : FrpConn} {login : Login} {role : Role} {udpBinary : Bool} {caps : NfrpCaps} :
    serverHandshake prims (loginPlugins plugins contents call now) rbac.roleFor arrived peer runId opening ≠
      .ok (.control conn login role udpBinary caps) := by
  intro accepted
  obtain ⟨sent', later, isLogin', loggedIn⟩ := exists_loggedIn accepted
  obtain rfl := FrpMessage.login.inj (isLogin.symm.trans isLogin')
  have asked := loggedIn.asked
  rw [loginPlugins, some, if_neg Bool.false_ne_true, askLoginPlugins, hookLogin, refused] at asked
  cases asked

theorem not_submission_of_refused {arrived answered : Moment sec} {conn : FrpConn} {sent : NewWorkConn}
    (some : plugins.isEmpty = false)
    (refused : ∀ holder, arrived.registry.get sent.runId = Option.some holder → ∃ reason,
      plugins.handleMutable call opNewWorkConn (contents.newWorkConn sent { user := holder.user } holder.runId) =
        .error reason) {submission : Submission sec} :
    handleWork prims (workPlugins plugins contents call answered) arrived conn sent ≠ .ok submission := by
  intro handled
  obtain ⟨holder, passed⟩ := exists_passed handled
  obtain ⟨reason, isRefused⟩ := refused holder passed.found
  have asked := passed.asked
  rw [workPlugins, some, if_neg Bool.false_ne_true, askPlugins, hookWorkConn, isRefused] at asked
  cases asked

/-- Nobody enters over a refusal, and nothing that is there changes. -/
theorem sameTables_of_refused {event : Event sec Value} (refused : Refused sec plugins contents s event) :
    SameTables s (step prims cfg rbac plugins contents s event) := by
  cases event with
  | login arrived peer runId opening call now nlink resume room =>
    obtain ⟨sent, reason, isLogin, some, isRefused⟩ := refused
    rw [step]
    split
    next accepted => exact absurd accepted (not_control_of_refused isLogin some isRefused)
    next => exact .refl s
  | newProxy runId m call answer =>
    rw [step]
    split
    next c found =>
      split
      next =>
        have unchanged : c.announce plugins contents m call answer = some c := by
          rw [Client.announce]
          split
          next => rfl
          next free =>
            obtain ⟨reason, some, isRefused⟩ := refused c found (by simpa using free)
            simp only [hookProxy_of_refused some isRefused]
        rw [unchanged, Server.putOrRemove, update_self found]
        exact .refl s
      next => exact .refl s
    next => exact .refl s
  | work arrived clock conn msg call room =>
    rw [step]
    split
    next submission handled =>
      obtain ⟨some, isRefused⟩ := refused
      rw [some, if_neg Bool.false_ne_true] at handled
      exact absurd handled (not_submission_of_refused some isRefused)
    next => exact .refl s
  | userAnswered index call =>
    rw [step]
    split
    next => exact .refl s
    next pair found =>
      obtain ⟨reason, some, isRefused⟩ := refused pair found
      split
      next answered =>
        rw [hookUserConn, some, if_neg Bool.false_ne_true, isRefused] at answered
        cases answered
      next => exact ⟨rfl, rfl, rfl⟩
  | ssh | sshProxy | proxies | sshWork | user | reaped | suspend | expired | stopped | ended => exact refused.elim

end Preserved

/-- In every run of the server. -/
theorem gated_reached (prims : Primitives) (sec : SecurityContext) (cfg : ServerConfig) (rbac : CompiledRbac)
    (plugins : PluginManager) {Value : Type} (contents : Contents Value) (events : List (Event sec Value)) :
    Gated prims sec plugins contents events (reached prims cfg rbac plugins contents events) ∧
      ∀ event, Refused sec plugins contents (reached prims cfg rbac plugins contents events) event →
        SameTables (reached prims cfg rbac plugins contents events)
          (step prims cfg rbac plugins contents (reached prims cfg rbac plugins contents events) event) := by
  refine ⟨?_, fun event refused => sameTables_of_refused refused⟩
  have preserved : ∀ s event, event ∈ events → Gated prims sec plugins contents events s →
      Gated prims sec plugins contents events (step prims cfg rbac plugins contents s event) :=
    fun _ _ happened gated => gated_step gated happened
  exact run_invariant_of_meets preserved gated_empty (runMeets_mem _ _ (List.Subset.refl events))

/-- Of the announcement that is registered, each plugin by itself says that it passes. -/
def EachPassed {sec : SecurityContext} (plugins : PluginManager) {Value : Type} (contents : Contents Value)
    (past : List (Event sec Value)) (e : ProxyEntry) : Prop :=
  ∃ m, Registers m e ∧ ∀ ep ∈ plugins.subscribed opNewProxy, ∃ runId sent call answer count login res,
    Event.newProxy runId sent call answer ∈ past ∧ call count ep (contents.newProxy m login runId) = .ok res ∧
      res.reject = false

inductive Shown where
  | login (m : Login)
  | newProxy (m : NewProxy)
  | newWorkConn (m : NewWorkConn)
  | newUserConn

def shown : Contents Shown where
  login := fun m _ => .login m
  loginOf := fun content =>
    match content with
    | .login m => .ok m
    | _ => .error "login"
  newProxy := fun m _ _ => .newProxy m
  newProxyOf := fun content =>
    match content with
    | .newProxy m => .ok m
    | _ => .error "proxy"
  newWorkConn := fun m _ _ => .newWorkConn m
  newWorkConnOf := fun content =>
    match content with
    | .newWorkConn m => .ok m
    | _ => .error "work"
  newUserConn := fun _ _ _ _ _ => .newUserConn

/-- One plugin refuses what is not encrypted, the next turns encryption off. -/
def guardAndRewrite : PluginManager where
  endpoints := [⟨"guard", [opNewProxy]⟩, ⟨"rewrite", [opNewProxy]⟩]

def answers : Call Shown := fun _ ep content =>
  match content with
  | .newProxy m =>
    if ep.name = "guard" then .ok { reject := !m.useEncryption, unchange := true }
    else .ok { content := some (.newProxy { m with useEncryption := false }) }
  | _ => .ok { unchange := true }

def openServer : SecurityContext where
  authCfg := {}

def atStart : Moment openServer where
  now := 0
  registry := Table.empty.registry
  auth := .token ""
  follows := ⟨rfl, rfl⟩

def encrypted : NewProxy where
  proxyName := "ssh"
  proxyType := "stcp"
  useEncryption := true
  useCompression := false
  bandwidthLimit := ""
  bandwidthLimitMode := ""
  metas := []
  annotations := []

def announcedEncrypted : List (Event openServer Shown) :=
  [.login atStart (.v4 0x7f000001) "run" { preface := .v1, message := .login {} } answers 0 none none true,
    .newProxy "run" encrypted answers {}]

theorem not_eachPassed_rewritten : ¬∃ prims : Primitives,
    ∀ c ∈ (reached prims {} {} guardAndRewrite shown announcedEncrypted).table.clients, ∀ name e,
      c.proxies.entries.lookup name = some e → EachPassed guardAndRewrite shown announcedEncrypted e := by
  rintro ⟨prims, each⟩
  obtain ⟨c, isOnly, isEntry⟩ : ∃ c, (reached prims {} {} guardAndRewrite shown announcedEncrypted).table.clients = [c] ∧
      ∃ e, c.proxies.entries.lookup "ssh" = some e ∧ e.useEncryption = false :=
    ⟨_, rfl, _, rfl, rfl⟩
  obtain ⟨e, found, notEncrypted⟩ := isEntry
  obtain ⟨m, registers, passed⟩ := each c (isOnly ▸ List.mem_singleton_self c) "ssh" e found
  have subscribed : ⟨"guard", [opNewProxy]⟩ ∈ guardAndRewrite.subscribed opNewProxy := by decide
  obtain ⟨runId, sent, call, answer, count, login, res, happened, answered, letPass⟩ := passed _ subscribed
  have isCall : call = answers := by
    simp only [announcedEncrypted, List.mem_cons, reduceCtorEq, false_or, List.not_mem_nil, or_false,
      Event.newProxy.injEq] at happened
    exact happened.2.2.1
  subst isCall
  obtain rfl := Except.ok.inj answered
  have isEncrypted : m.useEncryption = true := by simpa using letPass
  cases isEncrypted.symm.trans (registers.useEncryption.symm.trans notEncrypted)

end Gates

end Nfrp
