import Mathlib.Algebra.GroupWithZero.Nat
import Nfrp.Client.Address
import Nfrp.Client.Config

/-!
# What a proxy may say

The checks every proxy passes, and those a proxy from outside has to pass
besides: no resource of this host, no plugin, and no address but this host.
-/

namespace Nfrp.Client

open Lib

def supportedProxyTypes : List String :=
  ["tcp", "udp", "http", "https", "tcpmux", "stcp", "xtcp", "sudp"]

def officialPluginTypes : List String :=
  ["http_proxy", "socks5", "static_file", "unix_domain_socket", "http2http", "http2https", "https2http",
    "https2https", "tls2raw"]

def supportedPluginTypes : List String := officialPluginTypes

def isBlank (s : String) : Bool :=
  trimmed s.toList = []

def pluginKey (raw : String) : List Char :=
  ((trimmed raw.toList).map Char.toLower).filter (· ≠ '_')

def pluginTypeSupported (raw : String) : Bool :=
  supportedPluginTypes.any fun t => pluginKey t = pluginKey raw

def unimplementedPluginTypes : List String :=
  officialPluginTypes.filter fun t => !pluginTypeSupported t

def rejectUnimplementedPlugin (p : ProxyConfig) : Except String Unit :=
  let kind := trim p.plugin
  if kind = "" then .ok ()
  else if pluginTypeSupported kind then .ok ()
  else if unimplementedPluginTypes.any fun t => pluginKey t = pluginKey kind then
    .error ("代理 [" ++ p.name ++ "] 的插件 " ++ kind.quote ++
      " 是官方 frp 有、但 NFrp **尚未实现**的插件 —— 现在放行只会让每条连接在运行期逐个失败，所以在这里直接拒绝。\n" ++
      "官方有而 NFrp 没有的插件：" ++ " / ".intercalate unimplementedPluginTypes)
  else
    .error ("代理 [" ++ p.name ++ "] 的插件 " ++ kind.quote ++ " 不认识（NFrp 实现了 " ++
      " / ".intercalate supportedPluginTypes ++ "）")

def rejectDecodedProxy (p : ProxyConfig) : Except String Unit :=
  if p.proxyType ∉ supportedProxyTypes then
    .error ("代理 [" ++ p.name ++ "] 的类型 " ++ p.proxyType.quote ++ " 不受支持（NFrp 实现了 " ++
      " / ".intercalate supportedProxyTypes ++ "）")
  else rejectUnimplementedPlugin p

def rejectBadTcpmux (p : ProxyConfig) : Except String Unit :=
  if p.proxyType ≠ "tcpmux" then .ok ()
  else if p.multiplexer ≠ "httpconnect" then
    .error ("代理 [" ++ p.name ++ "] 的 multiplexer 是 " ++ p.multiplexer.quote ++
      "，只支持 \"httpconnect\"（官方也只有这一种）")
  else if p.customDomains.all isBlank && isBlank p.subdomain then
    .error ("代理 [" ++ p.name ++ "] 是 tcpmux：它不绑端口、只按 CONNECT 请求里的域名分发，" ++
      "所以 customDomains 和 subdomain 至少要配一个")
  else .ok ()

/-- Of the characters outside ASCII only the Kelvin sign has a lower case in it. -/
def lowercase (c : Char) : Char :=
  if c.toNat = 0x212a then 'k' else c.toLower

def isAsciiAlnum (c : Char) : Bool :=
  ('a' ≤ c && c ≤ 'z') || ('A' ≤ c && c ≤ 'Z') || ('0' ≤ c && c ≤ '9')

def byteLength (s : List Char) : Nat :=
  (s.map Char.utf8Size).sum

/-- At most so long, inner characters as allowed, and alphanumeric at both ends. -/
def isLabel (edge inner : Char → Bool) (s : List Char) : Bool :=
  s ≠ [] && byteLength s ≤ 63 && s.head?.any edge && s.getLast?.any edge && s.all inner

def isDns1123Label (s : List Char) : Bool :=
  let edge := fun c : Char => ('a' ≤ c && c ≤ 'z') || ('0' ≤ c && c ≤ '9')
  isLabel edge (fun c => edge c || c = '-') s

def isDns1123Subdomain (s : List Char) : Bool :=
  s ≠ [] && byteLength s ≤ 253 && (s.splitOn '.').all isDns1123Label

def isQualifiedNamePart (s : List Char) : Bool :=
  isLabel isAsciiAlnum (fun c => isAsciiAlnum c || c = '-' || c = '_' || c = '.') s

def annotationKeyError (key : String) : Option String :=
  let nameError (name : List Char) : Option String :=
    if isQualifiedNamePart name then none
    else some ("名字 " ++ (String.ofList name).quote ++ " 不合法（字母数字开头结尾，中间可含 `- _ .`，长度 ≤63）")
  match (key.toList.map lowercase).splitOn '/' with
  | [name] => nameError name
  | [front, name] =>
    if front = [] then some "`/` 前面不能为空"
    else if !isDns1123Subdomain front then
      some ("前缀 " ++ (String.ofList front).quote ++ " 不是合法的 DNS 子域（小写字母数字与 `-`、`.`，" ++
        "每段以字母数字开头结尾且 ≤63 字符，总长 ≤253）")
    else nameError name
  | _ => some "最多只能有一个 `/`（格式 `前缀/名字`）"

def annotationSizeLimit : Nat := 256 * 2 ^ 10

def rejectBadAnnotations (p : ProxyConfig) : Except String Unit := do
  for (k, _) in p.annotations do
    if let some reason := annotationKeyError k then
      throw ("代理 [" ++ p.name ++ "] 的注解键 " ++ k.quote ++ " 不合法：" ++ reason)
  let total := (p.annotations.map fun (k, v) => k.utf8ByteSize + v.utf8ByteSize).sum
  if annotationSizeLimit < total then
    throw ("代理 [" ++ p.name ++ "] 的 annotations 总大小 " ++ toString total ++ " 字节，超过官方上限 256 KiB（" ++
      toString annotationSizeLimit ++ " 字节）")

def rejectBadProxy (p : ProxyConfig) : Except String Unit := do
  rejectDecodedProxy p
  rejectBadTcpmux p
  rejectBadAnnotations p

/-- The fields that name a resource of this host and are set. -/
def offending (p : ProxyConfig) : List String :=
  ([("pluginLocalPath", p.pluginLocalPath), ("pluginLocalAddr", p.pluginLocalAddr),
    ("pluginCrtPath", p.pluginCrtPath), ("pluginKeyPath", p.pluginKeyPath)].filter
      fun field => !isBlank field.2).map (·.1)

def caps (p : ProxyConfig) : List String :=
  ([("plugin", p.plugin), ("pluginUser", p.pluginUser), ("pluginPasswd", p.pluginPasswd),
    ("pluginHostHeaderRewrite", p.pluginHostHeaderRewrite),
    ("pluginStripPrefix", p.pluginStripPrefix)].filter fun field => !isBlank field.2).map (·.1) ++
    if p.pluginRequestHeaders = [] then [] else ["pluginRequestHeaders"]

def rejectRemote (p : ProxyConfig) : Except String Unit :=
  let host := localAddrHost p.localAddr.toList
  if offending p ≠ [] then
    .error ("代理 [" ++ p.name ++ "] 来自远程下发，不允许携带本机资源字段（" ++ " / ".intercalate (offending p) ++
      "）—— 这些字段决定读哪个文件、连哪个内网地址，只能由本机配置文件指定。")
  else if !isBlank p.localAddr && !isLoopbackHost host then
    .error ("代理 [" ++ p.name ++ "] 来自远程下发，`local_addr` 只能指向本机回环地址，收到 " ++ p.localAddr.quote ++
      "（主机部分 " ++ (String.ofList host).quote ++ "）—— 远程下发不该决定客户端往哪里连。" ++
      "若确实需要连别的地址，请写在本机配置文件里。")
  else if caps p ≠ [] then
    .error ("代理 [" ++ p.name ++ "] 来自远程下发，不允许携带插件相关字段（" ++ " / ".intercalate (caps p) ++
      "）—— 插件决定客户端**变成什么**（本地文件服务 / 正向代理 / 私钥终结），" ++
      "只能由本机配置文件指定。远程下发要连内网服务，请用普通 tcp/http 代理。")
  else if isBlank p.plugin && isBlank p.localAddr then
    .error ("代理 [" ++ p.name ++ "] 来自远程下发，但 `local_addr` 是空的 —— " ++
      "这条代理连不上任何地方，客户端会把它注册上去（面板显示「已生效」）然后每条连接都失败。" ++
      "请填上内网服务地址（如 `127.0.0.1:8080`）。★ 注意字段名是**合并式**的 `local_addr`（`ip:port`）：" ++
      "官方的 `localIP` + `localPort` 两段式在**远程下发**里不被接受，写了也会被静默丢弃。")
  else .ok ()

def validateRemoteProxy (p : ProxyConfig) (isRemote : Bool) : Except String Unit := do
  if isRemote then rejectRemote p
  rejectBadProxy p

/-- What a plugin of a proxy is, or what is wrong with it; `none` without one. -/
def runsPlugin (p : ProxyConfig) : Bool :=
  (trimmed p.plugin.toList).map Char.toLower ≠ []

/-- Wherever the connections of the proxy go is this host, and no plugin serves them. -/
structure Harmless (p : ProxyConfig) : Prop where
  staysLocal : StaysLocal p.localAddr.toList
  noPlugin : ¬ runsPlugin p

theorem plugin_blank_of_caps {p : ProxyConfig} (none : caps p = []) : isBlank p.plugin := by
  simp only [caps, List.append_eq_nil_iff, List.map_eq_nil_iff] at none
  have notKept := List.filter_eq_nil_iff.mp none.1 ("plugin", p.plugin) List.mem_cons_self
  simpa using notKept

theorem not_runsPlugin {p : ProxyConfig} (blank : isBlank p.plugin) : ¬ runsPlugin p := by
  simp only [isBlank, decide_eq_true_eq] at blank
  simp [runsPlugin, blank]

/-- A proxy from outside that is accepted has no plugin, and its address begins
with a loopback host. -/
theorem rejectRemote_eq_ok {p : ProxyConfig} (accepted : rejectRemote p = .ok ()) :
    isLoopbackHost (localAddrHost p.localAddr.toList) ∧ ¬ runsPlugin p := by
  simp only [rejectRemote] at accepted
  split at accepted
  · cases accepted
  split at accepted
  · cases accepted
  next isHere =>
    split at accepted
    · cases accepted
    next noCaps =>
      split at accepted
      · cases accepted
      next notEmpty =>
        have blank := plugin_blank_of_caps (not_not.mp noCaps)
        refine ⟨?_, not_runsPlugin blank⟩
        simp only [blank, Bool.true_and] at notEmpty
        simpa [notEmpty] using isHere

theorem rejectRemote_of_validateRemoteProxy {p : ProxyConfig} (accepted : validateRemoteProxy p true = .ok ()) :
    rejectRemote p = .ok () := by
  rw [validateRemoteProxy] at accepted
  cases first : rejectRemote p with
  | ok _ => rfl
  | error reason =>
    rw [if_pos rfl, first] at accepted
    cases accepted

/-- An accepted proxy is harmless exactly if its address is not looked up. -/
theorem harmless_iff {p : ProxyConfig} (accepted : validateRemoteProxy p true = .ok ()) :
    Harmless p ↔ NotLookedUp p.localAddr.toList := by
  obtain ⟨isHere, noPlugin⟩ := rejectRemote_eq_ok (rejectRemote_of_validateRemoteProxy accepted)
  rw [← staysLocal_iff isHere]
  exact ⟨Harmless.staysLocal, fun staysLocal => ⟨staysLocal, noPlugin⟩⟩

end Nfrp.Client
