import Nfrp.Lib.Reader

/-!
# The configuration of a client

The fields the modelled parts read, and the message a proxy is announced with.
-/

namespace Nfrp.Client

open Lib

structure ProxyConfig where
  name : String
  proxyType : String := "tcp"
  localAddr : String
  remotePort : Nat := 0
  customDomains : List String := []
  subdomain : String := ""
  locations : List String := []
  httpUser : String := ""
  httpPwd : String := ""
  useEncryption : Bool := false
  useCompression : Bool := false
  hostHeaderRewrite : String := ""
  routeByHttpUser : String := ""
  multiplexer : String := ""
  bandwidthLimit : String := ""
  bandwidthLimitMode : String := ""
  metas : List (String × String) := []
  annotations : List (String × String) := []
  group : String := ""
  groupKey : String := ""
  healthCheckType : String := ""
  healthCheckTimeoutS : Nat := 3
  healthCheckMaxFailed : UInt32 := 3
  healthCheckIntervalS : Nat := 10
  healthCheckUrl : String := ""
  healthCheckHttpHeaders : List (String × String) := []
  plugin : String := ""
  pluginLocalPath : String := ""
  pluginStripPrefix : String := ""
  pluginUser : String := ""
  pluginPasswd : String := ""
  pluginLocalAddr : String := ""
  pluginCrtPath : String := ""
  pluginKeyPath : String := ""
  pluginHostHeaderRewrite : String := ""
  pluginRequestHeaders : List (String × String) := []
  secretKey : String := ""
  allowUsers : List String := []
  deriving DecidableEq, Repr

structure ClientConfig where
  user : String := ""
  token : String := ""
  useEncryption : Bool := false
  useCompression : Bool := false
  poolCount : Int := 1
  proxies : List ProxyConfig := []
  deriving DecidableEq, Repr

def addUserPrefix (user name : String) : String :=
  if user = "" then name else user ++ "." ++ name

def stripUserPrefix (user name : String) : String :=
  if user = "" then name
  else
    let full := (user ++ ".").toList
    if full.isPrefixOf name.toList then String.ofList (name.toList.drop full.length) else name

@[simp]
theorem stripUserPrefix_addUserPrefix (user name : String) :
    stripUserPrefix user (addUserPrefix user name) = name := by
  rw [stripUserPrefix, addUserPrefix]
  split
  · rfl
  · simp only [String.toList_append, List.append_assoc, List.isPrefixOf_iff_prefix]
    rw [if_pos]
    · rw [← List.append_assoc, List.drop_left, String.ofList_toList]
    · rw [← List.append_assoc]
      exact List.prefix_append _ _

theorem addUserPrefix_inj {user name other : String} :
    addUserPrefix user name = addUserPrefix user other ↔ name = other := by
  refine ⟨fun same => ?_, congrArg _⟩
  rw [← stripUserPrefix_addUserPrefix user name, same, stripUserPrefix_addUserPrefix]

structure NewProxy where
  proxyName : String
  proxyType : String
  useEncryption : Bool
  useCompression : Bool
  bandwidthLimit : String
  bandwidthLimitMode : String
  metas : List (String × String)
  annotations : List (String × String)
  group : String := ""
  groupKey : String := ""
  remotePort : Nat := 0
  customDomains : List String := []
  subdomain : String := ""
  locations : List String := []
  httpUser : String := ""
  httpPwd : String := ""
  hostHeaderRewrite : String := ""
  routeByHttpUser : String := ""
  multiplexer : String := ""
  sk : String := ""
  allowUsers : List String := []
  deriving DecidableEq, Repr

def toAsciiLowercase (s : String) : String :=
  String.ofList (s.toList.map Char.toLower)

/-- Every type of proxy sends the fields it has a use for. -/
def NewProxy.fromConfig (p : ProxyConfig) (user : String) : NewProxy :=
  let m : NewProxy := {
    proxyName := addUserPrefix user p.name
    proxyType := p.proxyType
    useEncryption := p.useEncryption
    useCompression := p.useCompression
    bandwidthLimit := p.bandwidthLimit
    bandwidthLimitMode := if toAsciiLowercase p.bandwidthLimitMode = "client" then "" else p.bandwidthLimitMode
    metas := p.metas
    annotations := p.annotations }
  if p.proxyType = "http" ∨ p.proxyType = "https" then
    { m with
      customDomains := p.customDomains
      subdomain := p.subdomain
      locations := p.locations
      httpUser := p.httpUser
      httpPwd := p.httpPwd
      hostHeaderRewrite := p.hostHeaderRewrite
      group := p.group
      groupKey := p.groupKey }
  else if p.proxyType = "stcp" ∨ p.proxyType = "xtcp" ∨ p.proxyType = "sudp" then
    { m with
      sk := p.secretKey
      allowUsers := p.allowUsers }
  else if p.proxyType = "tcpmux" then
    { m with
      customDomains := p.customDomains
      subdomain := p.subdomain
      multiplexer := p.multiplexer
      httpUser := p.httpUser
      httpPwd := p.httpPwd
      routeByHttpUser := p.routeByHttpUser
      group := p.group
      groupKey := p.groupKey }
  else
    { m with
      remotePort := p.remotePort
      group := p.group
      groupKey := p.groupKey }

@[simp]
theorem NewProxy.proxyName_fromConfig (p : ProxyConfig) (user : String) :
    (NewProxy.fromConfig p user).proxyName = addUserPrefix user p.name := by
  simp only [NewProxy.fromConfig]
  repeat' split
  all_goals rfl

end Nfrp.Client
