import Nfrp.Lib.Maps
import Nfrp.Lib.Runs
import Nfrp.Server.Config
import Nfrp.Server.Roles

/-!
# Registering the proxies of a client

The client announces its proxies on the control connection and the panel adds some of
its own; a registration waits for the client, or for a port, and others go on in the
meantime.
-/

namespace Nfrp

open Lib Nfrp.Client

/-- The announcement of a proxy, with what no client of this repository sends. -/
structure NewProxy extends Client.NewProxy where
  headers : List (String × String) := []
  responseHeaders : List (String × String) := []
  deriving DecidableEq

/-- Whatever order the parts came in, the same announcement has the same signature. -/
def proxySignature (m : NewProxy) : String :=
  let sortedMap (map : List (String × String)) :=
    "&".intercalate ((map.insertionSort fun a b => ¬b.1 < a.1).map fun (k, v) => k ++ "=" ++ v)
  let sortedVec (v : List String) := ",".intercalate (v.insertionSort fun a b => ¬b < a)
  let nul := String.singleton (Char.ofNat 0)
  nul.intercalate
    ["name=" ++ m.proxyName, "type=" ++ m.proxyType, "enc=" ++ toString m.useEncryption,
      "comp=" ++ toString m.useCompression, "bw=" ++ m.bandwidthLimit, "bwmode=" ++ m.bandwidthLimitMode,
      "group=" ++ m.group, "gkey=" ++ m.groupKey, "metas=" ++ sortedMap m.metas, "ann=" ++ sortedMap m.annotations,
      "port=" ++ toString m.remotePort, "domains=" ++ sortedVec m.customDomains, "sub=" ++ m.subdomain,
      "locations=" ++ sortedVec m.locations, "http_user=" ++ m.httpUser, "http_pwd=" ++ m.httpPwd,
      "host=" ++ m.hostHeaderRewrite, "headers=" ++ sortedMap m.headers,
      "resp_headers=" ++ sortedMap m.responseHeaders, "route_user=" ++ m.routeByHttpUser, "mux=" ++ m.multiplexer,
      "sk=" ++ m.sk, "allow=" ++ sortedVec m.allowUsers]

structure ProxyEntry where
  port : Option Nat
  useEncryption : Bool := false
  useCompression : Bool := false
  proxyType : String
  remoteAddr : String := ""
  signature : String := ""
  seenEpoch : Nat := 0
  deriving DecidableEq, Repr

inductive PortClaim where
  | fresh
  | joined
  deriving DecidableEq, Repr

/-- What the rest of the server says: who else has the port, and whether a domain or a
name of a visitor is free. -/
structure Answer where
  claim : Except String PortClaim := .ok .fresh
  route : Except String String := .ok ""

structure Terms where
  cfg : ServerConfig
  rbac : CompiledRbac
  user : String
  role : Role
  isRole : rbac.roleFor user = .ok role

structure Binding where
  m : NewProxy
  byControl : Bool

abbrev ProxyMap := AList fun _ : String => ProxyEntry

/-- The proxies of a client, what the panel has asked the client about, and what waits
for a port. -/
structure Proxies where
  entries : ProxyMap := ∅
  resumedSession : Bool := false
  resumeEpoch : Nat := 0
  asked : List ProxyConfig := []
  binding : List Binding := []

inductive Outcome where
  | nothing
  | waiting
  | registered (remoteAddr : String) (adopted : Bool)
  | refused (r : Refusal)
  deriving DecidableEq

def canonicalWireName (user name : String) : String :=
  addUserPrefix user (stripUserPrefix user name)

def portsUsed (entries : ProxyMap) : Nat :=
  (entries.entries.filter fun entry => entry.2.port.isSome).length

def NewProxy.entry (m : NewProxy) : ProxyEntry where
  port := if isPortType m.proxyType then some m.remotePort else none
  useEncryption := m.useEncryption
  useCompression := m.useCompression
  proxyType := m.proxyType

namespace Proxies

def proxyCount (s : Proxies) : Nat := s.entries.entries.length

def busy (s : Proxies) : Bool := s.binding.any (·.byControl)

def reusableProxy (s : Proxies) (name signature : String) : Option String :=
  ((s.entries.lookup name).filter (·.signature = signature)).map (·.remoteAddr)

def stopProxy (s : Proxies) (name : String) : Proxies :=
  { s with entries := s.entries.erase name }

def enter (s : Proxies) (m : NewProxy) (remoteAddr : String) : Proxies :=
  { s with
    entries := s.entries.insert m.proxyName
      { m.entry with remoteAddr, signature := proxySignature m, seenEpoch := s.resumeEpoch } }

def adopt (s : Proxies) (name signature remoteAddr : String) : Proxies :=
  match s.entries.lookup name with
  | some e =>
    { s with entries := s.entries.insert name { e with remoteAddr, signature, seenEpoch := s.resumeEpoch } }
  | none => s

/-- Ports that are not allowed, and ports beyond the number of a client. -/
def portRefusal (cfg : ServerConfig) (s : Proxies) (m : NewProxy) : Option Refusal :=
  if (m.proxyType = "tcp" ∨ m.proxyType = "udp") ∧ m.remotePort ≠ 0 then
    if ¬cfg.portAllowed m.remotePort then some (.allowPorts m.remotePort)
    else if 0 < cfg.maxPortsPerClient ∧ cfg.maxPortsPerClient < portsUsed s.entries + 1 then
      some (.maxPorts (portsUsed s.entries) cfg.maxPortsPerClient)
    else none
  else none

def registerKind (cfg : ServerConfig) (s : Proxies) (m : NewProxy) (byControl : Bool) (answer : Answer) :
    Proxies × Outcome :=
  if m.proxyType = "tcp" then
    if m.remotePort = 0 then (s, .refused (.other "tcp 代理必须指定 remote_port"))
    else
      match answer.claim with
      | .error e => (s, .refused (.other e))
      | .ok .fresh => ({ s with binding := s.binding ++ [{ m, byControl }] }, .waiting)
      | .ok .joined =>
        let remoteAddr := s!"{cfg.effectiveProxyBindAddr}:{m.remotePort}"
        (s.enter m remoteAddr, .registered remoteAddr false)
  else if m.proxyType = "udp" then
    if m.remotePort = 0 then (s, .refused (.other "udp 代理必须指定 remote_port"))
    else
      match answer.claim with
      | .error e => (s, .refused (.other e))
      | .ok .fresh => ({ s with binding := s.binding ++ [{ m, byControl }] }, .waiting)
      | .ok .joined =>
        (s, .refused (.other s!"端口 {m.remotePort} 已被同组 [{m.group}] 的其他代理占用；UDP 暂不支持 group 负载均衡，请改用 tcp"))
  else if m.proxyType ∈ ["http", "https", "tcpmux", "stcp", "xtcp", "sudp"] then
    match answer.route with
    | .error e => (s, .refused (.other e))
    | .ok remoteAddr => (s.enter m remoteAddr, .registered remoteAddr false)
  else (s, .refused (.other s!"暂不支持的代理类型：{m.proxyType}（支持 tcp / udp / http / https / tcpmux / stcp / xtcp / sudp）"))

def registerProxy (cfg : ServerConfig) (s : Proxies) (m : NewProxy) (byControl : Bool) (answer : Answer) :
    Proxies × Outcome :=
  if m.proxyName = "" then (s, .refused (.other "代理名为空"))
  else
    match if s.resumedSession then s.reusableProxy m.proxyName (proxySignature m) else none with
    | some addr => (s.adopt m.proxyName (proxySignature m) addr, .registered addr true)
    | none =>
      let s := s.stopProxy m.proxyName
      if cfg.maxProxiesPerClient ≠ 0 ∧ cfg.maxProxiesPerClient ≤ s.proxyCount + s.binding.length then
        (s, .refused (.slot cfg.maxProxiesPerClient))
      else
        match portRefusal cfg s m with
        | some r => (s, .refused r)
        | none => registerKind cfg s m byControl answer

/-- What a wire message of the panel's proxy looks like. -/
def wire (user : String) (p : ProxyConfig) : NewProxy :=
  { NewProxy.fromConfig p user with }

inductive Event where
  | newProxy (m : NewProxy) (answer : Answer)
  | panelAdd (p : ProxyConfig)
  | panelAck (index : Nat) (accepted : Except String Unit) (answer : Answer)
  | bound (index : Nat) (result : Except String String)
  | closeProxy (name : String)
  | panelRemove (name : String)
  | resume
  | resumeCommit (wanted : List String)
  | graceExpired
  | stop

/-- The control loop takes its next message when it is done with the last. -/
def step (t : Terms) (s : Proxies) : Event → Proxies × Outcome
  | .newProxy m answer =>
    if s.busy then (s, .nothing)
    else
      let m := { m with proxyName := canonicalWireName t.user m.proxyName }
      match checkProxy t.role m.proxyName m.proxyType m.remotePort s.proxyCount with
      | .error r => (s, .refused r)
      | .ok _ => s.registerProxy t.cfg m true answer
  | .panelAdd p =>
    if p.name = "" then (s, .refused (.other "代理配置缺少 name"))
    else if p.proxyType = "" then (s, .refused (.other "代理配置缺少 type"))
    else if ¬t.role.allowManage then (s, .refused (.other "所属角色不允许被面板管理（allowManage = false）"))
    else
      match checkProxy t.role p.name p.proxyType p.remotePort s.proxyCount with
      | .error r => (s, .refused r)
      | .ok _ => ({ s with asked := s.asked ++ [p] }, .waiting)
  | .panelAck index accepted answer =>
    match s.asked[index]? with
    | none => (s, .nothing)
    | some p =>
      let s := { s with asked := s.asked.eraseIdx index }
      match accepted with
      | .error e => (s, .refused (.other e))
      | .ok _ => s.registerProxy t.cfg (wire t.user p) false answer
  | .bound index result =>
    match s.binding[index]? with
    | none => (s, .nothing)
    | some b =>
      let s := { s with binding := s.binding.eraseIdx index }
      match result with
      | .error e => (s, .refused (.other e))
      | .ok remoteAddr => (s.enter b.m remoteAddr, .registered remoteAddr false)
  | .closeProxy name => if s.busy then (s, .nothing) else (s.stopProxy name, .nothing)
  | .panelRemove name =>
    if t.role.allowManage then (s.stopProxy (canonicalWireName t.user name), .nothing) else (s, .nothing)
  | .resume =>
    ({ s with
        resumedSession := true
        resumeEpoch := s.resumeEpoch + 1
        binding := s.binding.filter (¬·.byControl) }, .nothing)
  | .resumeCommit wanted =>
    if s.busy ∨ ¬s.resumedSession then (s, .nothing)
    else ({ s with entries := retain (fun name _ => name ∈ wanted) s.entries, resumedSession := false }, .nothing)
  | .graceExpired =>
    if s.busy ∨ ¬s.resumedSession then (s, .nothing)
    else
      ({ s with
          entries := retain (fun _ e => e.seenEpoch = s.resumeEpoch) s.entries, resumedSession := false }, .nothing)
  | .stop => ({ s with entries := ∅ }, .nothing)

inductive Change (t : Terms) (s : Proxies) : Event → Proxies → Prop where
  | same (event : Event) : Change t s event s
  | newProxy (m : NewProxy) (answer : Answer)
      (passed : checkProxy t.role (canonicalWireName t.user m.proxyName) m.proxyType m.remotePort s.proxyCount = .ok ()) :
      Change t s (.newProxy m answer)
        (s.registerProxy t.cfg { m with proxyName := canonicalWireName t.user m.proxyName } true answer).1
  | panelAdd (p : ProxyConfig) (passed : checkProxy t.role p.name p.proxyType p.remotePort s.proxyCount = .ok ()) :
      Change t s (.panelAdd p) { s with asked := s.asked ++ [p] }
  | panelFailed (index : Nat) (e : String) (answer : Answer) :
      Change t s (.panelAck index (.error e) answer) { s with asked := s.asked.eraseIdx index }
  | panelAck (index : Nat) (answer : Answer) (p : ProxyConfig) (found : s.asked[index]? = some p) :
      Change t s (.panelAck index (.ok ()) answer)
        (registerProxy t.cfg { s with asked := s.asked.eraseIdx index } (wire t.user p) false answer).1
  | unbound (index : Nat) (e : String) :
      Change t s (.bound index (.error e)) { s with binding := s.binding.eraseIdx index }
  | bound (index : Nat) (remoteAddr : String) (b : Binding) (found : s.binding[index]? = some b) :
      Change t s (.bound index (.ok remoteAddr)) (enter { s with binding := s.binding.eraseIdx index } b.m remoteAddr)
  | close (event : Event) (name : String) : Change t s event (s.stopProxy name)
  | resume : Change t s .resume
      { s with
        resumedSession := true
        resumeEpoch := s.resumeEpoch + 1
        binding := s.binding.filter (¬·.byControl) }
  | sweep (event : Event) (keep : String → ProxyEntry → Bool) :
      Change t s event { s with entries := retain keep s.entries, resumedSession := false }
  | stop : Change t s .stop { s with entries := ∅ }

theorem change_step (t : Terms) (s : Proxies) (event : Event) : Change t s event (s.step t event).1 := by
  cases event with
  | newProxy m answer =>
    rw [step]
    split
    next => exact .same _
    next =>
      dsimp only
      split
      next => exact .same _
      next passed => exact .newProxy m answer passed
  | panelAdd p =>
    rw [step]
    split_ifs
    · exact .same _
    · exact .same _
    · split
      next => exact .same _
      next passed => exact .panelAdd p passed
    · exact .same _
  | panelAck index accepted answer =>
    rw [step]
    split
    next => exact .same _
    next p found =>
      cases accepted with
      | error e => exact .panelFailed index e answer
      | ok _ => exact .panelAck index answer p found
  | bound index result =>
    rw [step]
    split
    next => exact .same _
    next b found =>
      cases result with
      | error e => exact .unbound index e
      | ok remoteAddr => exact .bound index remoteAddr b found
  | closeProxy name =>
    rw [step]
    split
    next => exact .same _
    next => exact .close _ name
  | panelRemove name =>
    rw [step]
    split
    next => exact .close _ _
    next => exact .same _
  | resume => exact .resume
  | resumeCommit wanted =>
    rw [step]
    split
    next => exact .same _
    next => exact .sweep _ _
  | graceExpired =>
    rw [step]
    split
    next => exact .same _
    next => exact .sweep _ _
  | stop => exact .stop

end Proxies

end Nfrp
