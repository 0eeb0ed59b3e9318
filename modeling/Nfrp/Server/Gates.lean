import Nfrp.Server.Plugins

/-!
# Where the plugins are asked

The clients with their proxies and pools, the users that are joined to work connections,
and every way in: the control connection, work connections, the SSH gateway, the panel,
public ports, virtual hosts and visitors.  Where an operation waits for plugins the rest of
the server goes on.
-/

namespace Nfrp

open Lib

namespace Gates

inductive Origin where
  | frp
  | sshGateway
  deriving DecidableEq, Repr

inductive Kind where
  | tcp
  | http
  | https
  | tcpmux
  | stcp
  | xtcp
  | sudp
  deriving DecidableEq, Repr

/-- The kinds whose users are joined in `spawn_bridge`. -/
def Kind.bridged : Kind → Bool
  | tcp | stcp | xtcp => true
  | http | https | tcpmux | sudp => false

structure User where
  kind : Kind
  proxyName : String
  proxyType : String
  remoteAddr : String
  clientUser : String
  clientRunId : String
  deriving DecidableEq, Repr

/-- A work connection, and the message that was checked of one that came over frp. -/
structure Pooled where
  work : WorkItem
  checked : Option NewWorkConn

/-- A client with its tables.  `names` are the sessions it has had, `letPass` and `byPanel`
the registrations that came through the plugins and from the panel; no code reads these. -/
structure Client where
  state : ClientState
  login : Login
  origin : Origin
  terms : Terms
  proxies : Proxies := {}
  pool : List Pooled := []
  waiting : List User := []
  names : List String
  letPass : List NewProxy := []
  byPanel : List NewProxy := []

structure Table where
  clients : List Client
  nodup : (clients.map (·.state.runId)).Nodup

/-- A user and its work connection, before or after they are joined. -/
structure Pair where
  user : User
  work : Pooled

structure Server where
  table : Table
  suspended : List (Nat × Client) := []
  asking : List Pair := []
  joined : List Pair := []

namespace Table

variable (t : Table)

def empty : Table := ⟨[], List.nodup_nil⟩

def registry : Registry where
  clients := t.clients.map (·.state)
  nodup := by
    rw [List.map_map]
    exact t.nodup

def get (runId : String) : Option Client := t.clients.find? (·.state.runId = runId)

def remove (runId : String) : Table where
  clients := t.clients.filter (·.state.runId ≠ runId)
  nodup := t.nodup.sublist (List.filter_sublist.map _)

def insert (c : Client) : Table where
  clients := t.clients.filter (·.state.runId ≠ c.state.runId) ++ [c]
  nodup := by
    rw [List.map_append, List.nodup_append]
    refine ⟨t.nodup.sublist (List.filter_sublist.map _), List.nodup_singleton _, fun name before other isNew same => ?_⟩
    obtain ⟨client, kept, rfl⟩ := List.mem_map.mp before
    rw [List.map_singleton, List.mem_singleton] at isNew
    exact of_decide_eq_true (List.mem_filter.mp kept).2 (same.trans isNew)

def update (runId : String) (f : Client → Client) : Table where
  clients := t.clients.map fun c => if c.state.runId = runId then { f c with state := c.state } else c
  nodup := by
    rw [List.map_map]
    have same : (Client.state · |>.runId) ∘ (fun c => if c.state.runId = runId then { f c with state := c.state } else c) =
        (Client.state · |>.runId) := by
      funext c
      rw [Function.comp_apply]
      split <;> rfl
    rw [same]
    exact t.nodup

end Table

/-- What the server goes by when plugins have answered. -/
structure Clock (sec : SecurityContext) where
  now : Nat
  auth : AuthProvider
  follows : auth.Follows sec.authCfg

/-- `arrived` is the server as it was before plugins were asked.  A login may ask for a
suspended session; `room` says whether a limit lets it in. -/
inductive Event (sec : SecurityContext) (Value : Type) where
  | login (arrived : Moment sec) (peer : IpAddr) (runId : String) (opening : Opening) (call : Call Value) (now : Nat)
      (nlink : Option UInt64) (resume : Option Nat) (room : Bool)
  | ssh (clock : Clock sec) (peer : IpAddr) (runId user : String) (token : Option String) (room : Bool)
  | newProxy (runId : String) (m : NewProxy) (call : Call Value) (answer : Answer)
  | sshProxy (runId : String) (m : NewProxy) (call : Call Value) (answer : Answer)
  | proxies (runId : String) (event : Proxies.Event)
  | work (arrived : Moment sec) (clock : Clock sec) (conn : FrpConn) (msg : NewWorkConn) (call : Call Value)
      (room : Bool)
  | sshWork (runId : String) (work : WorkItem) (room : Bool)
  | user (kind : Kind) (runId proxyName proxyType remoteAddr : String) (room : Bool)
  | userAnswered (index : Nat) (call : Call Value)
  | reaped (runId : String) (users works : Nat)
  | suspend (runId : String) (key : Nat)
  | expired (key : Nat)
  | stopped (runId : String)
  | ended (index : Nat)

section Step

variable (prims : Primitives) {sec : SecurityContext} (cfg : ServerConfig) (rbac : CompiledRbac)
  (plugins : PluginManager) {Value : Type} (contents : Contents Value)

def Server.moment (s : Server) (clock : Clock sec) : Moment sec where
  now := clock.now
  registry := s.table.registry
  auth := clock.auth
  follows := clock.follows

def termsOf (user : String) : Option Terms :=
  match isRole : rbac.roleFor user with
  | .ok role => some { cfg, rbac, user, role, isRole }
  | .error _ => none

/-- A suspended session goes on for the same user and client, on the same transport. -/
def Client.resumes (c : Client) (user clientId : String) (caps : NfrpCaps) (version : WireVersion) (udpBinary : Bool) :
    Bool :=
  c.state.user = user && c.state.clientId = clientId && c.state.caps = caps && c.state.wireVersion = version &&
    c.state.udpBinary = udpBinary

def Client.resumed (c : Client) (runId : String) (named : runId ≠ "") (peer : IpAddr) (login : Login) : Client :=
  { c with
    state := { c.state with runId, peerIp := peer, named }
    login
    proxies := (c.proxies.step c.terms .resume).1
    names := runId :: c.names }

def Server.handleControl (s : Server) (conn : FrpConn) (login : Login) (udpBinary : Bool) (caps : NfrpCaps)
    (runId : String) (nlink : Option UInt64) (resume : Option Nat) (room : Bool) : Server :=
  if named : runId = "" then s
  else
    match termsOf cfg rbac login.user with
    | none => s
    | some terms =>
      let clientId := if login.clientId = "" then runId else login.clientId
      match resume.bind fun key => s.suspended.find? fun waiting =>
          waiting.1 = key && waiting.2.resumes login.user clientId caps conn.version udpBinary with
      | some (key, old) =>
        { s with
          table := s.table.insert (old.resumed runId named conn.peer login)
          suspended := s.suspended.filter (·.1 ≠ key) }
      | none =>
        if room then
          { s with
            table := s.table.insert
              { state :=
                  { runId, user := login.user, clientId, peerIp := conn.peer, caps, nlink,
                    wireVersion := conn.version, udpBinary, named }
                login, origin := .frp, terms, names := [runId] } }
        else s

def Server.runTunnel (s : Server) (clock : Clock sec) (peer : IpAddr) (runId user : String) (token : Option String)
    (room : Bool) : Server :=
  if named : runId = "" then s
  else
    match termsOf cfg rbac user with
    | none => s
    | some terms =>
      match token.map fun token =>
          clock.auth.verifyLogin prims clock.now token clock.now runId sec.maxClockSkewSecs with
      | some (.error _) => s
      | _ =>
        if room then
          { s with
            table := s.table.insert
              { state := { runId, user, clientId := "ssh-" ++ runId, peerIp := peer, named }
                login := { user }, origin := .sshGateway, terms, names := [runId] } }
        else s

/-- What the control connection does with an announcement; `none` ends it. -/
def Client.announce (c : Client) (m : NewProxy) (call : Call Value) (answer : Answer) : Option Client :=
  if c.proxies.busy then some c
  else
    let m := { m with proxyName := canonicalWireName c.terms.user m.proxyName }
    match hookProxy plugins contents call c.login c.state.runId m with
    | .refused _ => some c
    | .unreadable _ => none
    | .passed m =>
      some
        { c with
          proxies := (c.proxies.step c.terms (.newProxy m answer)).1
          letPass := { m with proxyName := canonicalWireName c.terms.user m.proxyName } :: c.letPass }

def Client.announceTunnel (c : Client) (m : NewProxy) (call : Call Value) (answer : Answer) : Option Client :=
  let m := { m with proxyName := canonicalWireName c.terms.user m.proxyName }
  match hookProxy plugins contents call { user := c.terms.user } c.state.runId m with
  | .refused _ | .unreadable _ => none
  | .passed m =>
    match c.proxies.step c.terms (.newProxy m answer) with
    | (_, .refused _) => none
    | (proxies, _) =>
      some
        { c with
          proxies
          letPass := { m with proxyName := canonicalWireName c.terms.user m.proxyName } :: c.letPass }

def Server.putOrRemove (s : Server) (runId : String) : Option Client → Server
  | some c => { s with table := s.table.update runId fun _ => c }
  | none => { s with table := s.table.remove runId }

def Client.proxyEvent (c : Client) (event : Proxies.Event) : Client :=
  match event with
  | .newProxy .. | .resume => c
  | .panelAck index accepted answer =>
    { c with
      proxies := (c.proxies.step c.terms (.panelAck index accepted answer)).1
      byPanel := (c.proxies.asked[index]?.map (Proxies.wire c.terms.user)).toList ++ c.byPanel }
  | event => { c with proxies := (c.proxies.step c.terms event).1 }

def Server.submitWork (s : Server) (runId : String) (w : Pooled) (room : Bool) : Server :=
  match s.table.get runId with
  | none => s
  | some c =>
    match c.waiting with
    | u :: rest =>
      { s with table := s.table.update runId fun c => { c with waiting := rest }, asking := s.asking ++ [⟨u, w⟩] }
    | [] =>
      if room then { s with table := s.table.update runId fun c => { c with pool := c.pool ++ [w] } } else s

/-- A user that finds a work connection is paired with it: one that is bridged is asked
about first.  Others than users of public ports wait elsewhere. -/
def Server.submitUser (s : Server) (u : User) (room : Bool) : Server :=
  match s.table.get u.clientRunId with
  | none => s
  | some c =>
    match c.pool with
    | w :: rest =>
      let s := { s with table := s.table.update u.clientRunId fun c => { c with pool := rest } }
      if u.kind.bridged then { s with asking := s.asking ++ [⟨u, w⟩] } else { s with joined := s.joined ++ [⟨u, w⟩] }
    | [] =>
      if u.kind = .tcp ∧ room then
        { s with table := s.table.update u.clientRunId fun c => { c with waiting := c.waiting ++ [u] } }
      else s

def User.content (u : User) : Value :=
  contents.newUserConn u.proxyName u.proxyType u.remoteAddr { user := u.clientUser } u.clientRunId

def step (s : Server) : Event sec Value → Server
  | .login arrived peer runId opening call now nlink resume room =>
    match serverHandshake prims (loginPlugins plugins contents call now) rbac.roleFor arrived peer runId opening with
    | .ok (.control conn login _ udpBinary caps) =>
      s.handleControl cfg rbac conn login udpBinary caps runId nlink resume room
    | _ => s
  | .ssh clock peer runId user token room => s.runTunnel prims cfg rbac clock peer runId user token room
  | .newProxy runId m call answer =>
    match s.table.get runId with
    | some c => if c.origin = .frp then s.putOrRemove runId (c.announce plugins contents m call answer) else s
    | none => s
  | .sshProxy runId m call answer =>
    match s.table.get runId with
    | some c =>
      if c.origin = .sshGateway then s.putOrRemove runId (c.announceTunnel plugins contents m call answer) else s
    | none => s
  | .proxies runId event => { s with table := s.table.update runId (·.proxyEvent event) }
  | .work arrived clock conn msg call room =>
    let arrived := if plugins.isEmpty then s.moment clock else arrived
    match handleWork prims (workPlugins plugins contents call (s.moment clock)) arrived conn msg with
    | .ok submission => s.submitWork submission.client.runId ⟨submission.work, some submission.msg⟩ room
    | .error _ => s
  | .sshWork runId work room =>
    match s.table.get runId with
    | some c => if c.origin = .sshGateway then s.submitWork runId ⟨work, none⟩ room else s
    | none => s
  | .user kind runId proxyName proxyType remoteAddr room =>
    match s.table.get runId with
    | some c =>
      s.submitUser { kind, proxyName, proxyType, remoteAddr, clientUser := c.state.user, clientRunId := runId } room
    | none => s
  | .userAnswered index call =>
    match s.asking[index]? with
    | none => s
    | some pair =>
      let s := { s with asking := s.asking.eraseIdx index }
      match hookUserConn plugins call (pair.user.content contents) with
      | .ok _ => { s with joined := s.joined ++ [pair] }
      | .error _ => s
  | .reaped runId users works =>
    { s with
      table := s.table.update runId fun c => { c with waiting := c.waiting.drop users, pool := c.pool.drop works } }
  | .suspend runId key =>
    match s.table.get runId with
    | some c =>
      if c.origin = .frp then
        if s.suspended.any (·.1 = key) then { s with table := s.table.remove runId }
        else { s with table := s.table.remove runId, suspended := s.suspended ++ [(key, c)] }
      else s
    | none => s
  | .expired key => { s with suspended := s.suspended.filter (·.1 ≠ key) }
  | .stopped runId => { s with table := s.table.remove runId }
  | .ended index => { s with joined := s.joined.eraseIdx index }

def reached (events : List (Event sec Value)) : Server :=
  run (step prims cfg rbac plugins contents) { table := Table.empty } events

end Step

end Gates

end Nfrp
