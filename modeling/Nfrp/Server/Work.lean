import Nfrp.Lib.Maps
import Nfrp.Server.Auth

/-!
# Who may hand in a work connection

A work connection names the session it is for, and the traffic of that session's
users will run over it.  The checks a connection passes before it is given to a
client, and what they say about its sender.
-/

namespace Nfrp

open Lib

inductive WireVersion where
  | v1
  | v2
  deriving DecidableEq, Repr

structure NfrpCaps where
  udpBinary : Bool := false
  serverCmd : Bool := false
  workConnCred : Bool := false
  deriving DecidableEq, Repr

def capIdentity : UInt64 := (1 : UInt64) <<< 3

structure FrpConn where
  peer : IpAddr
  version : WireVersion
  udpBinary : Bool := false

structure WorkItem where
  conn : FrpConn
  since : Nat

structure PendingUser where
  proxy : String
  since : Nat

/-- The connections without a user and the users without a connection. -/
structure PoolState where
  work : List WorkItem := []
  users : List PendingUser := []

structure ClientState where
  runId : String
  user : String := ""
  clientId : String := ""
  peerIp : IpAddr
  caps : NfrpCaps := {}
  nlink : Option UInt64 := none
  wireVersion : WireVersion := .v1
  udpBinary : Bool := false
  pool : PoolState := {}
  named : runId ≠ ""

def ClientState.nlinkHas (client : ClientState) (bit : UInt64) : Bool :=
  client.nlink.any fun caps => caps &&& bit ≠ 0

structure Registry where
  clients : List ClientState
  nodup : (clients.map (·.runId)).Nodup

def Registry.get (registry : Registry) (runId : String) : Option ClientState :=
  registry.clients.find? (·.runId = runId)

structure NewWorkConn where
  runId : String := ""
  privilegeKey : String := ""
  timestamp : Int := 0
  nlink : Option String := none

structure SecurityContext where
  authCfg : ServerAuthConfig
  maxClockSkewSecs : Nat := 300

structure Moment (sec : SecurityContext) where
  now : Nat
  registry : Registry
  auth : AuthProvider
  follows : auth.Follows sec.authCfg

/-- The plugins, asked about a user, a session and a message.  They refuse, or
answer with a message, and some time has passed. -/
abbrev WorkPlugins (sec : SecurityContext) :=
  String → String → NewWorkConn → Except String (NewWorkConn × Moment sec)

inductive WorkRefusal where
  | unknownRun (runId : String)
  | identity (reason : String)
  | plugin (reason : String)
  | rewrittenRun (runId : String)
  | followup (reason : String)
  | elsewhere (peer control : IpAddr)
  | credential
  | noCredential
  | wireVersion (runId : String) (work control : WireVersion)

section Handle

variable (prims : Primitives) {sec : SecurityContext}

def checkIdentity (arrived : Moment sec) (client : ClientState) (msg : NewWorkConn) : Except WorkRefusal Unit :=
  if client.nlinkHas capIdentity then
    (verifyIdentity prims (identityKey prims sec.authCfg.token) (msg.nlink.getD "") msg.runId client.user
      arrived.now).mapError .identity
  else .ok ()

def askPlugins (plugins : Option (WorkPlugins sec)) (arrived : Moment sec) (client : ClientState) (msg : NewWorkConn) :
    Except WorkRefusal (NewWorkConn × Moment sec × ClientState) :=
  match plugins with
  | none => .ok (msg, arrived, client)
  | some ask =>
    match ask client.user client.runId msg with
    | .error reason => .error (.plugin reason)
    | .ok (msg, answered) =>
      match answered.registry.get msg.runId with
      | none => .error (.rewrittenRun msg.runId)
      | some client => .ok (msg, answered, client)

def checkSameAddress (client : ClientState) (peer : IpAddr) : Except WorkRefusal Unit :=
  if peer = client.peerIp then .ok () else .error (.elsewhere peer client.peerIp)

def checkCredential (moment : Moment sec) (client : ClientState) (msg : NewWorkConn) (peer : IpAddr) :
    Except WorkRefusal Unit :=
  if moment.auth.method = .oidc then
    if sec.authCfg.checkNewWorkConns then
      (moment.auth.verifyFollowup prims moment.now msg.privilegeKey "新工作连接" msg.runId).mapError .followup
    else .ok ()
  else if moment.auth.secret = "" then checkSameAddress client peer
  else if msg.privilegeKey ≠ "" then
    match moment.auth.verifyLogin prims moment.now msg.privilegeKey msg.timestamp msg.runId sec.maxClockSkewSecs with
    | .ok _ => .ok ()
    | .error _ => .error .credential
  else if client.caps.workConnCred then .error .noCredential
  else checkSameAddress client peer

/-- A connection that is given to a client, and the message that was checked. -/
structure Submission (sec : SecurityContext) where
  client : ClientState
  work : WorkItem
  msg : NewWorkConn
  checked : Moment sec

def handleWork (plugins : Option (WorkPlugins sec)) (arrived : Moment sec) (conn : FrpConn) (msg : NewWorkConn) :
    Except WorkRefusal (Submission sec) := do
  match arrived.registry.get msg.runId with
  | none => throw (.unknownRun msg.runId)
  | some client =>
    checkIdentity prims arrived client msg
    let (msg, checked, client) ← askPlugins plugins arrived client msg
    checkCredential prims checked client msg conn.peer
    if conn.version ≠ client.wireVersion then throw (.wireVersion msg.runId conn.version client.wireVersion)
    let work := { conn := { conn with udpBinary := client.udpBinary }, since := checked.now }
    return { client, work, msg, checked }

inductive Vouched (arrived : Moment sec) (sent : NewWorkConn) (peer : IpAddr) (s : Submission sec) : Prop
  | credential (secret : sec.authCfg.token ≠ "")
      (fresh : checkFreshness s.checked.now s.msg.timestamp sec.maxClockSkewSecs "登录时间戳" = .ok ())
      (derived : s.msg.privilegeKey = authKey prims sec.authCfg.token s.msg.timestamp)
  | subject (v : OidcVerifier) (sub : String) (provider : s.checked.auth = .oidc v)
      (valid : v.subjectOf prims s.checked.now s.msg.privilegeKey = .ok sub)
      (bound : v.subjects.lookup s.client.runId = some sub)
  | identity (holder : ClientState) (found : arrived.registry.get sent.runId = some holder)
      (signed : verifyIdentity prims (identityKey prims sec.authCfg.token) (sent.nlink.getD "") sent.runId holder.user
        arrived.now = .ok ())
  | address (same : peer = s.client.peerIp)

end Handle

theorem Registry.get_eq_some_iff {registry : Registry} {runId : String} {client : ClientState} :
    registry.get runId = some client ↔ client ∈ registry.clients ∧ client.runId = runId :=
  find?_key_eq_some_iff registry.nodup

section Checks

variable {prims : Primitives} {sec : SecurityContext} {moment : Moment sec} {client : ClientState} {msg : NewWorkConn}
  {peer : IpAddr}

theorem peerIp_of_checkSameAddress (passed : checkSameAddress client peer = .ok ()) : peer = client.peerIp := by
  rw [checkSameAddress] at passed
  split at passed
  next same => exact same
  next => cases passed

theorem verified_of_checkIdentity (negotiated : client.nlinkHas capIdentity)
    (passed : checkIdentity prims moment client msg = .ok ()) :
    verifyIdentity prims (identityKey prims sec.authCfg.token) (msg.nlink.getD "") msg.runId client.user moment.now =
      .ok () := by
  rw [checkIdentity, if_pos negotiated] at passed
  exact mapError_eq_ok_iff.mp passed

/-- With a shared token a connection brings a credential or comes from where the
client is. -/
theorem checkCredential_token (byToken : sec.authCfg.method = .token)
    (passed : checkCredential prims moment client msg peer = .ok ()) :
    (sec.authCfg.token ≠ "" ∧ checkFreshness moment.now msg.timestamp sec.maxClockSkewSecs "登录时间戳" = .ok () ∧
      msg.privilegeKey = authKey prims sec.authCfg.token msg.timestamp) ∨ peer = client.peerIp := by
  have provider : moment.auth = .token sec.authCfg.token := moment.follows.secret_eq byToken
  rw [checkCredential, provider,
    if_neg (show (AuthProvider.token sec.authCfg.token).method ≠ .oidc from nofun)] at passed
  change (if sec.authCfg.token = "" then _ else _) = _ at passed
  split at passed
  next => exact .inr (peerIp_of_checkSameAddress passed)
  next secret =>
    split at passed
    next =>
      split at passed
      next seen verified =>
        obtain ⟨fresh, derived⟩ := AuthProvider.verifyLogin_token secret verified
        exact .inl ⟨secret, fresh, derived⟩
      next => cases passed
    next =>
      split at passed
      next => cases passed
      next => exact .inr (peerIp_of_checkSameAddress passed)

/-- With an identity provider it brings a token of the session, where one is asked for. -/
theorem checkCredential_oidc (scope : sec.authCfg.checkNewWorkConns) (named : msg.runId ≠ "")
    (passed : checkCredential prims moment client msg peer = .ok ()) :
    ∃ v sub, moment.auth = .oidc v ∧ v.subjectOf prims moment.now msg.privilegeKey = .ok sub ∧
      v.subjects.lookup msg.runId = some sub := by
  have byOidc : moment.auth.method = .oidc := by
    rw [moment.follows.method_eq]
    rw [ServerAuthConfig.checkNewWorkConns, Bool.and_eq_true, beq_iff_eq] at scope
    exact scope.1
  rw [checkCredential, if_pos byOidc, if_pos scope] at passed
  cases provider : moment.auth with
  | token secret => cases (provider ▸ byOidc : (AuthProvider.token secret).method = .oidc)
  | oidcUnavailable e =>
    rw [provider] at passed
    cases passed
  | oidc v =>
    rw [provider, AuthProvider.verifyFollowup] at passed
    obtain ⟨sub, verified, -⟩ := map_eq_ok_iff.mp (mapError_eq_ok_iff.mp passed)
    obtain ⟨valid, bound⟩ := OidcVerifier.lookup_of_verifyPostLogin named verified
    exact ⟨v, sub, rfl, valid, bound⟩

theorem checkCredential_unscoped (byOidc : sec.authCfg.method = .oidc) (noScope : ¬sec.authCfg.checkNewWorkConns) :
    checkCredential prims moment client msg peer = .ok () := by
  rw [checkCredential, if_pos (moment.follows.method_eq.trans byOidc), if_neg noScope]

end Checks

section Submitted

variable {prims : Primitives} {sec : SecurityContext} {plugins : Option (WorkPlugins sec)} {arrived : Moment sec}
  {conn : FrpConn} {msg : NewWorkConn}

/-- Whatever the plugins answer, the client is the one the message names. -/
theorem registered_of_askPlugins {client : ClientState} {passed : NewWorkConn × Moment sec × ClientState}
    (found : arrived.registry.get msg.runId = some client)
    (asked : askPlugins plugins arrived client msg = .ok passed) :
    passed.2.1.registry.get passed.1.runId = some passed.2.2 := by
  cases plugins with
  | none =>
    obtain rfl := Except.ok.inj asked
    exact found
  | some ask =>
    rw [askPlugins] at asked
    split at asked
    next => cases asked
    next rewritten checked answer =>
      split at asked
      next => cases asked
      next other registered =>
        obtain rfl := Except.ok.inj asked
        exact registered

structure Passed (prims : Primitives) (plugins : Option (WorkPlugins sec)) (arrived : Moment sec) (conn : FrpConn)
    (msg : NewWorkConn) (s : Submission sec) (holder : ClientState) : Prop where
  found : arrived.registry.get msg.runId = some holder
  identity : checkIdentity prims arrived holder msg = .ok ()
  asked : askPlugins plugins arrived holder msg = .ok (s.msg, s.checked, s.client)
  credential : checkCredential prims s.checked s.client s.msg conn.peer = .ok ()
  version : conn.version = s.client.wireVersion

theorem exists_passed {s : Submission sec} (submitted : handleWork prims plugins arrived conn msg = .ok s) :
    ∃ holder, Passed prims plugins arrived conn msg s holder := by
  rw [handleWork] at submitted
  cases found : arrived.registry.get msg.runId with
  | none =>
    rw [found] at submitted
    cases submitted
  | some holder =>
    rw [found] at submitted
    obtain ⟨_, identity, submitted⟩ := bind_eq_ok_iff.mp submitted
    obtain ⟨⟨passed, checked, client⟩, asked, submitted⟩ := bind_eq_ok_iff.mp submitted
    obtain ⟨_, credential, submitted⟩ := bind_eq_ok_iff.mp submitted
    split at submitted
    next => cases submitted
    next version =>
      obtain rfl := Except.ok.inj submitted
      exact ⟨holder, found, identity, asked, credential, not_not.mp version⟩

theorem peer_of_handleWork {s : Submission sec} (submitted : handleWork prims plugins arrived conn msg = .ok s) :
    s.work.conn.peer = conn.peer := by
  rw [handleWork] at submitted
  cases found : arrived.registry.get msg.runId with
  | none =>
    rw [found] at submitted
    cases submitted
  | some holder =>
    rw [found] at submitted
    obtain ⟨_, -, submitted⟩ := bind_eq_ok_iff.mp submitted
    obtain ⟨_, -, submitted⟩ := bind_eq_ok_iff.mp submitted
    obtain ⟨_, -, submitted⟩ := bind_eq_ok_iff.mp submitted
    split at submitted
    next => cases submitted
    next =>
      obtain rfl := Except.ok.inj submitted
      rfl

theorem handleWork_of_passed {client : ClientState} (found : arrived.registry.get msg.runId = some client)
    (identity : checkIdentity prims arrived client msg = .ok ())
    (credential : checkCredential prims arrived client msg conn.peer = .ok ())
    (version : conn.version = client.wireVersion) :
    handleWork prims none arrived conn msg =
      .ok { client, work := { conn := { conn with udpBinary := client.udpBinary }, since := arrived.now }, msg,
            checked := arrived } := by
  rw [handleWork, found]
  change (checkIdentity prims arrived client msg >>= fun _ => _) = _
  rw [identity]
  change (checkCredential prims arrived client msg conn.peer >>= fun _ => _) = _
  rw [credential]
  change (if conn.version ≠ client.wireVersion then _ else _) = _
  rw [if_neg (not_not.mpr version)]
  rfl

def stranger (client : ClientState) : FrpConn :=
  { peer := if client.peerIp = .v4 0 then .v4 1 else .v4 0,
    version := client.wireVersion }

theorem stranger_elsewhere (client : ClientState) : (stranger client).peer ≠ client.peerIp := by
  rw [stranger]
  split
  next isZero => exact fun same => absurd (same.trans isZero) (show IpAddr.v4 1 ≠ .v4 0 by decide)
  next other => exact fun same => other same.symm

theorem not_vouched_stranger {client : ClientState} {s : Submission sec} (submitted : s.client = client)
    (sent : s.msg = { runId := client.runId }) :
    ¬Vouched prims arrived { runId := client.runId } (stranger client).peer s := by
  subst submitted
  intro vouched
  cases vouched with
  | credential secret fresh derived =>
    rw [sent] at derived
    exact authKey_ne_empty _ _ _ derived.symm
  | subject v sub provider valid bound =>
    rw [sent] at valid
    exact OidcVerifier.subjectOf_empty _ _ _ _ valid
  | identity holder found signed =>
    rw [Option.getD_none, verifyIdentity_empty] at signed
    cases signed
  | address same => exact stranger_elsewhere s.client same

end Submitted

def loginOnly : SecurityContext where
  authCfg := { method := .oidc, additionalScopes := ["HeartBeats"], oidc := { issuer := "https://idp.example.com" } }

def official : ClientState where
  runId := "6f1d2c0a9b8e47d35a60c1f2e3d4b5a6"
  user := "alice"
  peerIp := .v4 0xCB007107
  named := by decide

def oneClient : Moment loginOnly where
  now := 1700000000
  registry := { clients := [official], nodup := List.nodup_singleton _ }
  auth := .oidc { cfg := { issuer := "https://idp.example.com" }, subjects := [(official.runId, "alice")] }
  follows := ⟨rfl, rfl⟩

end Nfrp
