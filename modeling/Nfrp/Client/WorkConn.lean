import Nfrp.Client.Validate
import Nfrp.Lib.Coding
import Nfrp.Lib.Secret
import Nfrp.Proxy.Encryption

/-!
# What the client does with a work connection

A work connection goes to a plugin or to the local service.  Only what goes to the
local service is compressed and encrypted.
-/

namespace Nfrp.Client

open Lib

/-- A plugin that speaks for another server, with TLS on either side or without. -/
structure Bridge where
  inTls : Bool
  outTls : Bool
  raw : Bool
  localAddr : String
  hostRewrite : String
  extraHeaders : List (String × String)
  setXForwarded : Bool

inductive Plugin where
  | httpProxy (user passwd : String)
  | socks5 (user passwd : String)
  | staticFile (root stripPrefix : String)
  | unixSocket (path : String)
  | bridge (b : Bridge)

section

-- Whether a certificate and its key can be loaded.
variable (serverConfigFromPem : String → String → Except String Unit)

def loadInboundTls (kind : String) (p : ProxyConfig) : Except String Unit :=
  if isBlank p.pluginCrtPath ∨ isBlank p.pluginKeyPath then
    .error s!"插件 {kind} 要在 frpc 这一侧终止 TLS，必须同时配置 crtPath 和 keyPath（证书与私钥是本地服务用的，不是 frps 的）"
  else serverConfigFromPem (trim p.pluginCrtPath) (trim p.pluginKeyPath)

def Bridge.plain (p : ProxyConfig) (setXForwarded outTls : Bool) : Bridge where
  inTls := false
  outTls := outTls
  raw := false
  localAddr := p.pluginLocalAddr
  hostRewrite := p.pluginHostHeaderRewrite
  extraHeaders := p.pluginRequestHeaders
  setXForwarded := setXForwarded

def Bridge.build (kind : String) (p : ProxyConfig) : Except String Bridge := do
  if kind = "http2http" then return .plain p false false
  if kind = "http2https" then return .plain p false true
  if kind = "https2http" then
    loadInboundTls serverConfigFromPem kind p
    return { Bridge.plain p true false with inTls := true }
  if kind = "https2https" then
    loadInboundTls serverConfigFromPem kind p
    return { Bridge.plain p true true with inTls := true }
  if kind = "tls2raw" then
    loadInboundTls serverConfigFromPem kind p
    return { Bridge.plain p true false with inTls := true, raw := true, setXForwarded := false }
  throw s!"不是 HTTP 桥接插件：{kind}"

def pluginKind (p : ProxyConfig) : String := toAsciiLowercase (trim p.plugin)

def isUnixSocket (p : ProxyConfig) : Bool :=
  pluginKind p = "unix_domain_socket" || pluginKind p = "unixdomainsocket"

/-- The plugin of a proxy, or what is wrong with it; `none` without one. -/
def Plugin.fromProxy (p : ProxyConfig) : Option (Except String Plugin) :=
  let kind := pluginKind p
  if kind = "" then none
  else if kind = "http_proxy" ∨ kind = "httpproxy" then some (.ok (.httpProxy p.pluginUser p.pluginPasswd))
  else if kind = "socks5" then some (.ok (.socks5 p.pluginUser p.pluginPasswd))
  else if kind = "static_file" ∨ kind = "staticfile" then
    if p.pluginLocalPath = "" then some (.error "插件 static_file 必须配置 plugin_local_path（要服务的目录）")
    else some (.ok (.staticFile p.pluginLocalPath p.pluginStripPrefix))
  else if isUnixSocket p then
    if p.pluginLocalPath = "" then some (.error "插件 unix_domain_socket 必须配置 plugin_local_path（套接字路径）")
    else some (.ok (.unixSocket p.pluginLocalPath))
  else if kind ∈ ["http2http", "http2https", "https2http", "https2https", "tls2raw"] then
    some ((Bridge.build serverConfigFromPem kind p).map .bridge)
  else
    some (.error s!"未知插件 [{kind}]，支持：http_proxy / socks5 / static_file / unix_domain_socket / http2http / http2https / https2http / https2https / tls2raw")

end

namespace Plugin

def starts : Plugin → Except String Unit
  | bridge b => if isBlank b.localAddr then .error "插件必须配置 localAddr（要转发的上游地址）" else .ok ()
  | httpProxy _ _ | socks5 _ _ | staticFile _ _ | unixSocket _ => .ok ()

/-- What a plugin reads of a connection, of which `leftover` was read already. -/
def reads (leftover rest : List UInt8) : Plugin → List UInt8
  | unixSocket _ => rest
  | httpProxy _ _ | socks5 _ _ | staticFile _ _ | bridge _ => leftover ++ rest

end Plugin

inductive WorkConn where
  | udp
  | plugin (p : Plugin)
  | forward (t : Transform Block)

/-- The encryption and compression that the client uses, its own setting and the proxy's together. -/
def effEnc (cfg : ClientConfig) (p : ProxyConfig) : Bool := p.useEncryption || cfg.useEncryption

def effComp (cfg : ClientConfig) (p : ProxyConfig) : Bool := p.useCompression || cfg.useCompression

def workConnFlow (serverConfigFromPem : String → String → Except String Unit)
    (hmacSha1 : List UInt8 → List UInt8 → Vector UInt8 20) (cfg : ClientConfig) (p : ProxyConfig) :
    Except String WorkConn :=
  if p.proxyType = "udp" ∨ p.proxyType = "sudp" then .ok .udp
  else
    match Plugin.fromProxy serverConfigFromPem p with
    | some (.error e) => .error s!"代理 [{p.name}] 的插件配置有误: {e}"
    | some (.ok plugin) => plugin.starts.map fun _ => .plugin plugin
    | none =>
      .ok (.forward {
        key := if effEnc cfg p then some (deriveKey hmacSha1 (bytesOf cfg.token)) else none
        compress := effComp cfg p })

namespace WorkConn

variable (c : Ciphers Block (List UInt8))

def received (leftover rest : List UInt8) : WorkConn → List UInt8
  | udp => []
  | plugin p => p.reads leftover rest
  | forward t =>
    if t.key.isSome ∨ t.compress then (c.coding t).decode (leftover ++ rest) else leftover ++ rest

/-- What is put on the work connection of what the plugin or the local service says. -/
def sent (text : List UInt8) : WorkConn → List UInt8
  | udp => []
  | plugin _ => text
  | forward t => if t.key.isSome ∨ t.compress then (c.coding t).encode text else text

end WorkConn

theorem plugin_fromProxy_eq_none_iff {serverConfigFromPem : String → String → Except String Unit} {p : ProxyConfig} :
    Plugin.fromProxy serverConfigFromPem p = none ↔ pluginKind p = "" := by
  rw [Plugin.fromProxy]
  constructor
  · intro isNone
    by_contra named
    simp only [if_neg named] at isNone
    repeat' split at isNone
    all_goals cases isNone
  · intro unnamed
    simp only [if_pos unnamed]

end Nfrp.Client
