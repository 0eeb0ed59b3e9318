import Nfrp.Lib.Ip

/-!
# The configuration of the server

The fields the modelled parts read, with the defaults of the source.
-/

namespace Nfrp

open Lib

inductive Protocol where
  | frpV1
  | frpV2
  | nfrp
  deriving DecidableEq, Repr

structure PortRange where
  start : Nat
  «end» : Nat
  deriving DecidableEq, Repr

def PortRange.contains (r : PortRange) (port : Nat) : Bool :=
  r.start ≤ port && port ≤ r.end

def portAllowed (allow : List PortRange) (port : Nat) : Bool :=
  allow = [] || allow.any (·.contains port)

structure WebServerConfig where
  port : Nat := 0
  user : String := ""
  password : String := ""
  deriving DecidableEq, Repr

structure ServerConfig where
  bindAddr : String := "0.0.0.0"
  proxyBindAddr : String := ""
  controlPort : Nat := 7000
  workPort : Nat := 7001
  token : String := ""
  userConnTimeout : Nat := 10
  maxPoolCount : Nat := 0
  tcpMuxKeepaliveInterval : Nat := 30
  tcpKeepalive : Nat := 7200
  bindPort : Option Nat := none
  protocol : Protocol := .frpV1
  tcpMux : Bool := true
  tlsForce : Bool := false
  vhostHttpPort : Option Nat := none
  vhostHttpsPort : Option Nat := none
  tcpmuxHttpConnectPort : Option Nat := none
  tcpmuxPassthrough : Bool := false
  vhostHttpTimeout : Nat := 60
  custom404Page : String := ""
  subdomainHost : String := ""
  logLevel : String := "info"
  logTo : String := ""
  maxDays : Int := 3
  disablePrintColor : Bool := false
  maxTotalConns : Nat := 0
  maxClients : Nat := 0
  maxConnsPerClient : Nat := 0
  maxPendingPerClient : Nat := 0
  maxProxiesPerClient : Nat := 0
  allowPorts : List PortRange := []
  maxPortsPerClient : Int := 0
  detailedErrorsToClient : Bool := true
  p2pPort : Option Nat := none
  dashboardPort : Option Nat := none
  webServer : WebServerConfig := {}
  dashboardUser : String := ""
  dashboardPwd : String := ""
  allowInsecureDashboard : Bool := false
  deriving DecidableEq, Repr

/-- A pair that can be used to authenticate: a password of blanks is one. -/
def hasDashboardCreds (user pwd : String) : Bool :=
  trim user != "" && pwd != ""

/-- Whether the address is a literal loopback address; a name is not. -/
def isLoopbackAddr (addr : String) : Bool :=
  let a := trimmed addr.toList
  let bare := if a.head? = some '[' ∧ a.tail.getLast? = some ']' then a.tail.dropLast else a
  (IpAddr.parse bare).any IpAddr.isLoopback

namespace ServerConfig

def effectiveDashboardPort (cfg : ServerConfig) : Option Nat :=
  (cfg.dashboardPort.filter (· ≠ 0)).or (if cfg.webServer.port ≠ 0 then some cfg.webServer.port else none)

def effectiveDashboardCreds (cfg : ServerConfig) : String × String :=
  if hasDashboardCreds cfg.dashboardUser cfg.dashboardPwd then (cfg.dashboardUser, cfg.dashboardPwd)
  else if hasDashboardCreds cfg.webServer.user cfg.webServer.password then
    (cfg.webServer.user, cfg.webServer.password)
  else (cfg.dashboardUser, cfg.dashboardPwd)

def effectiveProxyBindAddr (cfg : ServerConfig) : String :=
  if trim cfg.proxyBindAddr = "" then cfg.bindAddr else cfg.proxyBindAddr

def portAllowed (cfg : ServerConfig) (port : Nat) : Bool :=
  Nfrp.portAllowed cfg.allowPorts port

end ServerConfig

theorem ne_empty_of_hasDashboardCreds {user pwd : String} (given : hasDashboardCreds user pwd) :
    user ≠ "" ∧ pwd ≠ "" := by
  simp only [hasDashboardCreds, Bool.and_eq_true, bne_iff_ne] at given
  refine ⟨?_, given.2⟩
  rintro rfl
  exact given.1 (by decide)

end Nfrp
