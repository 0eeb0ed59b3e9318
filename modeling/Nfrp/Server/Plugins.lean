import Nfrp.Server.Handshake
import Nfrp.Server.Register

/-!
# The HTTP plugins of the server

A plugin is subscribed to some operations.  Those subscribed to one are asked in the order
of the configuration, each about what the one before it left; one that refuses, or cannot
be asked, ends the operation.
-/

namespace Nfrp

open Lib

structure Endpoint where
  name : String
  ops : List String
  deriving DecidableEq, Repr

structure PluginResponse (Value : Type) where
  reject : Bool := false
  rejectReason : String := ""
  unchange : Bool := false
  content : Option Value := none

structure PluginManager where
  endpoints : List Endpoint := []

def opLogin : String := "Login"
def opNewProxy : String := "NewProxy"
def opNewWorkConn : String := "NewWorkConn"
def opNewUserConn : String := "NewUserConn"

/-- What the plugins answer this time: the endpoint that is asked after so many others,
about a content. -/
abbrev Call (Value : Type) := Nat → Endpoint → Value → Except String (PluginResponse Value)

def PluginResponse.leaves {Value : Type} (res : PluginResponse Value) (content : Value) : Value :=
  if res.unchange then content else res.content.getD content

namespace PluginManager

variable {Value : Type}

def isEmpty (plugins : PluginManager) : Bool := plugins.endpoints.isEmpty

def supports (ep : Endpoint) (op : String) : Bool := ep.ops.any (· == op)

def subscribed (plugins : PluginManager) (op : String) : List Endpoint :=
  plugins.endpoints.filter (supports · op)

def ask (call : Call Value) (op : String) : Nat → List Endpoint → Value → Except String Value
  | _, [], content => .ok content
  | count, ep :: rest, content =>
    match call count ep content with
    | .ok res =>
      if res.reject then
        .error (if (trim res.rejectReason) = "" then s!"{op} rejected by plugin {ep.name}" else res.rejectReason)
      else ask call op (count + 1) rest (res.leaves content)
    | .error e => .error s!"send {op} request to plugin error: {e}"

def handleMutable (plugins : PluginManager) (call : Call Value) (op : String) (content : Value) : Except String Value :=
  ask call op 0 (plugins.subscribed op) content

end PluginManager

/-- All let it pass: each is shown what the one before it left, and does not refuse. -/
inductive LetPass {Value : Type} (call : Call Value) : Nat → List Endpoint → Value → Value → Prop
  | done (count : Nat) (content : Value) : LetPass call count [] content content
  | asked {count : Nat} {ep : Endpoint} {rest : List Endpoint} {content final : Value} {res : PluginResponse Value}
      (answered : call count ep content = .ok res) (passed : res.reject = false)
      (later : LetPass call (count + 1) rest (res.leaves content) final) : LetPass call count (ep :: rest) content final

theorem ask_eq_ok_iff {Value : Type} {call : Call Value} {op : String} {count : Nat} {endpoints : List Endpoint}
    {content final : Value} :
    PluginManager.ask call op count endpoints content = .ok final ↔ LetPass call count endpoints content final := by
  induction endpoints generalizing count content with
  | nil =>
    rw [PluginManager.ask]
    constructor
    · rintro same
      obtain rfl := Except.ok.inj same
      exact .done count content
    · intro passed
      cases passed
      rfl
  | cons ep rest ih =>
    rw [PluginManager.ask]
    constructor
    · intro asked
      split at asked
      next res answered =>
        split at asked
        next => cases asked
        next passed => exact .asked answered (by simpa using passed) (ih.mp asked)
      next => cases asked
    · intro letPass
      cases letPass with
      | asked answered passed later =>
        simp only [answered, passed, Bool.false_eq_true, if_false]
        exact ih.mpr later

/-- How the messages are written for the plugins, and read from what they leave.  The user
is described by a login and the name of the session. -/
structure Contents (Value : Type) where
  login : Login → IpAddr → Value
  loginOf : Value → Except String Login
  newProxy : NewProxy → Login → String → Value
  newProxyOf : Value → Except String NewProxy
  newWorkConn : NewWorkConn → Login → String → Value
  newWorkConnOf : Value → Except String NewWorkConn
  newUserConn : (proxyName proxyType remoteAddr : String) → Login → String → Value

section Hooks

variable {Value : Type} (plugins : PluginManager) (contents : Contents Value)

def hookLogin (call : Call Value) (peer : IpAddr) (login : Login) : Except String Login := do
  let content ← (plugins.handleMutable call opLogin (contents.login login peer)).mapError ("HTTP 插件拒绝登录：" ++ ·)
  (contents.loginOf content).mapError fun _ => "插件返回的 Login 内容无法解析"

def loginPlugins (call : Call Value) (now : Nat) : Option LoginPlugins :=
  if plugins.isEmpty then none
  else some fun peer login => (hookLogin plugins contents call peer login).map fun login => (login, now)

def hookWorkConn (call : Call Value) (user runId : String) (msg : NewWorkConn) : Except String NewWorkConn := do
  let content ← (plugins.handleMutable call opNewWorkConn (contents.newWorkConn msg { user } runId)).mapError
    ("HTTP 插件拒绝工作连接：" ++ ·)
  (contents.newWorkConnOf content).mapError fun _ => "插件返回的 NewWorkConn 内容无法解析"

def workPlugins {sec : SecurityContext} (call : Call Value) (answered : Moment sec) : Option (WorkPlugins sec) :=
  if plugins.isEmpty then none
  else some fun user runId msg => (hookWorkConn plugins contents call user runId msg).map fun msg => (msg, answered)

/-- What became of an operation: no plugin refused it, or one did; the content that is
left may still make no sense. -/
inductive Hooked (Message : Type) where
  | passed (m : Message)
  | refused (reason : String)
  | unreadable (reason : String)

def hookProxy (call : Call Value) (login : Login) (runId : String) (m : NewProxy) : Hooked NewProxy :=
  if plugins.isEmpty then .passed m
  else
    match plugins.handleMutable call opNewProxy (contents.newProxy m login runId) with
    | .error reason => .refused reason
    | .ok content =>
      match contents.newProxyOf content with
      | .ok m => .passed m
      | .error _ => .unreadable "插件返回的 NewProxy 内容无法解析"

def hookUserConn (call : Call Value) (content : Value) : Except String Unit :=
  if plugins.isEmpty then .ok () else (plugins.handleMutable call opNewUserConn content).map fun _ => ()

end Hooks

end Nfrp
