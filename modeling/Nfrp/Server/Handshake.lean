import Nfrp.Server.Roles
import Nfrp.Server.Work

/-!
# The handshake of a stream

A stream says with its first message what it is: the control connection of a client, a
work connection, or a visitor.  Only a login is checked here.
-/

namespace Nfrp

open Lib

structure Login where
  user : String := ""
  privilegeKey : String := ""
  timestamp : Int := 0
  clientId : String := ""
  metas : List (String × String) := []
  nfrp : Option NfrpCaps := none
  deriving DecidableEq

structure NewVisitorConn where
  runId : String := ""
  proxyName : String := ""
  signKey : String := ""
  timestamp : Int := 0
  deriving DecidableEq

inductive FrpMessage where
  | login (m : Login)
  | newWorkConn (m : NewWorkConn)
  | newVisitorConn (m : NewVisitorConn)
  | other (typeId : Nat)

/-- What comes before the first message: of a `ClientHello`, whether it asks for binary
packets. -/
inductive Preface where
  | v1
  | v2 (clientHello : Option Bool)
  deriving DecidableEq, Repr

def Preface.version : Preface → WireVersion
  | v1 => .v1
  | v2 _ => .v2

def Preface.clientHello : Preface → Option Bool
  | v1 => none
  | v2 clientHello => clientHello

structure Opening where
  preface : Preface
  message : FrpMessage

inductive ServerAccept where
  | control (conn : FrpConn) (login : Login) (role : Role) (udpBinary : Bool) (caps : NfrpCaps)
  | work (conn : FrpConn) (msg : NewWorkConn)
  | visitor (conn : FrpConn) (msg : NewVisitorConn)

/-- The plugins, asked about a login from an address: they refuse, or answer with a
login, and it has become later. -/
abbrev LoginPlugins := IpAddr → Login → Except String (Login × Nat)

section

variable (prims : Primitives) {sec : SecurityContext}

def askLoginPlugins (plugins : Option LoginPlugins) (now : Nat) (peer : IpAddr) (login : Login) :
    Except String (Login × Nat) :=
  match plugins with
  | none => .ok (login, now)
  | some ask => ask peer login

/-- A capability is in force where the client declares it. -/
def negotiate (version : WireVersion) (login : Login) : NfrpCaps :=
  let declared := login.nfrp.getD {}
  { serverCmd := declared.serverCmd
    workConnCred := declared.workConnCred
    udpBinary := version = .v1 && declared.udpBinary }

/-- `arrived` is when the stream came: the login is checked with the provider there was
then. -/
def serverHandshake (plugins : Option LoginPlugins) (authorize : String → Except String Role) (arrived : Moment sec)
    (peer : IpAddr) (runId : String) (opening : Opening) : Except String ServerAccept := do
  let conn : FrpConn := { peer, version := opening.preface.version, udpBinary := opening.preface.clientHello.getD false }
  match opening.message with
  | .newWorkConn msg =>
    if opening.preface.clientHello.isSome then throw "工作连接不允许携带 ClientHello"
    return .work conn msg
  | .newVisitorConn msg =>
    if opening.preface.clientHello.isSome then throw "visitor 连接不允许携带 ClientHello"
    return .visitor conn msg
  | .other typeId => throw s!"期望 Login 或 NewWorkConn，收到 type_id {typeId}"
  | .login login =>
    let (login, now) ← askLoginPlugins plugins arrived.now peer login
    let _ ← (arrived.auth.verifyLogin prims now login.privilegeKey login.timestamp runId
      sec.maxClockSkewSecs).mapError ("认证失败：" ++ ·)
    let role ← (authorize login.user).mapError ("授权失败：" ++ ·)
    let caps := negotiate opening.preface.version login
    let conn := { conn with udpBinary := conn.udpBinary || caps.udpBinary }
    return .control conn login role (opening.preface.clientHello.getD false) caps

end

section Accepted

variable {prims : Primitives} {sec : SecurityContext} {plugins : Option LoginPlugins}
  {authorize : String → Except String Role} {arrived : Moment sec} {peer : IpAddr} {runId : String} {opening : Opening}

structure LoggedIn (prims : Primitives) (plugins : Option LoginPlugins) (authorize : String → Except String Role)
    (arrived : Moment sec) (peer : IpAddr) (runId : String) (sent login : Login) (role : Role) (now : Nat) : Prop where
  asked : askLoginPlugins plugins arrived.now peer sent = .ok (login, now)
  verified : ∃ seen, arrived.auth.verifyLogin prims now login.privilegeKey login.timestamp runId sec.maxClockSkewSecs =
    .ok seen
  authorized : authorize login.user = .ok role

/-- Only a login makes a control connection, and only one that passed its checks. -/
theorem exists_loggedIn {conn : FrpConn} {login : Login} {role : Role} {udpBinary : Bool} {caps : NfrpCaps}
    (accepted : serverHandshake prims plugins authorize arrived peer runId opening =
      .ok (.control conn login role udpBinary caps)) :
    ∃ sent now, opening.message = .login sent ∧
      LoggedIn prims plugins authorize arrived peer runId sent login role now := by
  rw [serverHandshake] at accepted
  cases isMessage : opening.message with
  | newWorkConn msg =>
    simp only [isMessage] at accepted
    split at accepted <;> cases accepted
  | newVisitorConn msg =>
    simp only [isMessage] at accepted
    split at accepted <;> cases accepted
  | other typeId =>
    simp only [isMessage] at accepted
    cases accepted
  | login sent =>
    simp only [isMessage] at accepted
    obtain ⟨⟨answered, now⟩, asked, accepted⟩ := bind_eq_ok_iff.mp accepted
    obtain ⟨seen, verified, accepted⟩ := bind_eq_ok_iff.mp accepted
    obtain ⟨given, authorized, accepted⟩ := bind_eq_ok_iff.mp accepted
    obtain ⟨rfl, rfl, rfl, rfl, rfl⟩ := ServerAccept.control.inj (Except.ok.inj accepted)
    exact ⟨sent, now, rfl, asked, ⟨seen, mapError_eq_ok_iff.mp verified⟩, mapError_eq_ok_iff.mp authorized⟩

theorem serverHandshake_work {msg : NewWorkConn} (isWork : opening.message = .newWorkConn msg)
    (noHello : opening.preface.clientHello = none) :
    serverHandshake prims plugins authorize arrived peer runId opening =
      .ok (.work { peer, version := opening.preface.version } msg) := by
  rw [serverHandshake, isWork, noHello]
  rfl

theorem newWorkConn_of_work {conn : FrpConn} {msg : NewWorkConn}
    (accepted : serverHandshake prims plugins authorize arrived peer runId opening = .ok (.work conn msg)) :
    opening.message = .newWorkConn msg ∧ opening.preface.clientHello = none := by
  rw [serverHandshake] at accepted
  cases isMessage : opening.message with
  | newWorkConn sent =>
    simp only [isMessage] at accepted
    split at accepted
    next => cases accepted
    next noHello =>
      obtain ⟨-, rfl⟩ := ServerAccept.work.inj (Except.ok.inj accepted)
      exact ⟨rfl, by simpa using noHello⟩
  | newVisitorConn sent =>
    simp only [isMessage] at accepted
    split at accepted <;> cases accepted
  | other typeId =>
    simp only [isMessage] at accepted
    cases accepted
  | login sent =>
    simp only [isMessage] at accepted
    obtain ⟨_, _, accepted⟩ := bind_eq_ok_iff.mp accepted
    obtain ⟨_, _, accepted⟩ := bind_eq_ok_iff.mp accepted
    obtain ⟨_, _, accepted⟩ := bind_eq_ok_iff.mp accepted
    cases accepted

end Accepted

end Nfrp
