import Nfrp.Server.Ports
import Nfrp.Server.Quota
import Nfrp.Server.Routes

/-!
# What a registration takes

A proxy takes a slot of its client, and a port, domains or a name; the entry of the client
is made last.  Before a proxy is registered again its old registration is taken back.
-/

namespace Nfrp

open Lib Nfrp.Client

/-- What is held for clients; `slots` is how many more proxies each may have. -/
structure Tables where
  ports : PortTable := fun _ => none
  vhosts : Option VhostTable := none
  visitors : VisitorTable := fun _ => none
  clients : Nat → Proxies := fun _ => {}
  slots : Nat → Limit

/-- What the net answers when a port is bound: an address or none, and a listener or none. -/
structure Net where
  resolved : Option String
  bound : Option Nat
  boundUdp : Except String Nat

namespace Tables

variable (cfg : ServerConfig) (user : Nat → String) (ids : RunIds) (net : Net)

def giveBack (client : Nat) (t : Tables) : Tables :=
  let limit := t.slots client
  { t with slots := Function.update t.slots client (limit.release (if limit.max = 0 then 0 else 1)) }

def withClient (client : Nat) (proxies : Proxies) (t : Tables) : Tables :=
  { t with clients := Function.update t.clients client proxies }

def enter (client : Nat) (m : NewProxy) (remoteAddr : String) (t : Tables) : Tables :=
  t.withClient client ((t.clients client).enter m remoteAddr)

def closeProxyByName (client : Nat) (name : String) (t : Tables) : Tables × Bool :=
  let t := { t with
    visitors := t.visitors.remove client name
    vhosts := t.vhosts.map (VhostTable.removeProxy client name.toList) }
  match (t.clients client).entries.lookup name with
  | none => (t, false)
  | some entry =>
    let t := (t.withClient client ((t.clients client).stopProxy name)).giveBack client
    (match entry.port with
      | some port => { t with ports := t.ports.releasePort ids port client name }
      | none => t, true)

def registerVisitorProxy (client : Nat) (m : NewProxy) (kind : String) (t : Tables) : Tables × Except String String :=
  if m.sk = "" then (t.giveBack client, .error (kind ++ " 代理必须配置 secret_key（frpc 里叫 secretKey）"))
  else
    match t.visitors.register ⟨m.proxyName, m.sk, m.allowUsers, user client, client, kind⟩ with
    | .error e => (t.giveBack client, .error e)
    | .ok visitors => ({ t with visitors }.enter client m "", .ok "")

def registerTcp (client : Nat) (m : NewProxy) (t : Tables) : Tables × Except String String :=
  if m.remotePort = 0 then (t.giveBack client, .error "tcp 代理必须指定 remote_port")
  else
    let remoteAddr := s!"{cfg.effectiveProxyBindAddr}:{m.remotePort}"
    match t.ports.reservePort user ids m.remotePort m.group m.groupKey m.proxyName client with
    | (_, .error e) => (t.giveBack client, .error e)
    | (ports, .ok .joined) => ({ t with ports }.enter client m remoteAddr, .ok remoteAddr)
    | (ports, .ok .fresh) =>
      match net.resolved with
      | none => ({ t with ports }.giveBack client, .error ("解析 " ++ remoteAddr ++ " 失败"))
      | some addr =>
        match net.bound with
        | none =>
          ({ t with ports := ports.releasePort ids m.remotePort client m.proxyName }.giveBack client,
            .error ("监听 " ++ addr ++ " 失败"))
        | some handle =>
          ({ t with ports := ports.attachListener m.remotePort handle }.enter client m remoteAddr, .ok remoteAddr)

def registerUdp (client : Nat) (m : NewProxy) (t : Tables) : Tables × Except String String :=
  if m.remotePort = 0 then (t.giveBack client, .error "udp 代理必须指定 remote_port")
  else
    let remoteAddr := s!"{cfg.effectiveProxyBindAddr}:{m.remotePort}/udp"
    match t.ports.reservePort user ids m.remotePort m.group m.groupKey m.proxyName client with
    | (_, .error e) => (t.giveBack client, .error e)
    | (ports, .ok .joined) =>
      ({ t with ports := ports.releasePort ids m.remotePort client m.proxyName }.giveBack client,
        .error s!"端口 {m.remotePort} 已被同组 [{m.group}] 的其他代理占用；UDP 暂不支持 group 负载均衡，请改用 tcp")
    | (ports, .ok .fresh) =>
      match net.boundUdp with
      | .error e =>
        ({ t with ports := ports.releasePort ids m.remotePort client m.proxyName }.giveBack client, .error e)
      | .ok handle =>
        ({ t with ports := ports.attachListener m.remotePort handle }.enter client m remoteAddr, .ok remoteAddr)

end Tables

def VhostKind.label : VhostKind → String
  | .http => "http"
  | .https => "https"
  | .tcpMux => "tcpmux"

/-- The port of the server for this kind, and the name of its setting. -/
def VhostKind.port (cfg : ServerConfig) : VhostKind → Option Nat × String
  | .http => (cfg.vhostHttpPort, "vhost_http_port")
  | .https => (cfg.vhostHttpsPort, "vhost_https_port")
  | .tcpMux => (cfg.tcpmuxHttpConnectPort, "tcpmux_http_connect_port（frps.toml 里叫 tcpmuxHTTPConnectPort）")

def vhostDomains (cfg : ServerConfig) (m : NewProxy) (kind : VhostKind) : Except String (List String) :=
  let custom := (m.customDomains.map fun domain => toAsciiLowercase (trim domain)).filter (· ≠ "")
  if m.subdomain ≠ "" ∧ cfg.subdomainHost = "" then .error "客户端用了 subdomain，但服务端未配置 subdomain_host"
  else
    let domains :=
      if m.subdomain = "" then custom
      else custom ++ [toAsciiLowercase (trim m.subdomain) ++ "." ++ toAsciiLowercase (trim cfg.subdomainHost)]
    if domains = [] then .error (kind.label ++ " 代理必须配置 custom_domains 或 subdomain") else .ok domains

/-- The longest first. -/
def vhostLocations (m : NewProxy) : VhostKind → List String
  | .tcpMux => [""]
  | .http | .https =>
    (if m.locations = [] then ["/"] else m.locations).insertionSort fun a b => b.utf8ByteSize ≤ a.utf8ByteSize

def vhostRoute (client : Nat) (m : NewProxy) (kind : VhostKind) (domain : String) : VhostRoute where
  proxyName := m.proxyName.toList
  client := client
  domain := domain.toList
  locations := (vhostLocations m kind).map String.toList
  httpUser := m.httpUser.toList
  httpPwd := m.httpPwd.toList
  routeByHttpUser := m.routeByHttpUser.toList
  rewriteHost := m.hostHeaderRewrite.toList
  reqHeaders := m.headers.map fun (key, value) => (key.toList, value.toList)
  kind := kind

/-- As far as no table is changed. -/
def vhostRequest (cfg : ServerConfig) (m : NewProxy) (kind : VhostKind) (vhosts : Option VhostTable) :
    Except String (Nat × VhostTable × List String) :=
  match kind.port cfg with
  | (none, setting) => .error ("服务端未配置 " ++ setting ++ "，无法注册 " ++ kind.label ++ " 代理")
  | (some port, _) =>
    if kind = .tcpMux ∧ m.multiplexer ≠ "httpconnect" then
      .error ("tcpmux 代理 [" ++ m.proxyName ++ "] 的 multiplexer 是 " ++ m.multiplexer.quote ++ "，只支持 \"httpconnect\"")
    else
      match vhosts with
      | none => .error "虚拟主机路由表未初始化"
      | some table => (vhostDomains cfg m kind).map fun domains => (port, table, domains)

namespace Tables

variable (cfg : ServerConfig) (user : Nat → String) (ids : RunIds) (net : Net)

def registerVhost (client : Nat) (m : NewProxy) (kind : VhostKind) (t : Tables) : Tables × Except String String :=
  match vhostRequest cfg m kind t.vhosts with
  | .error e => (t.giveBack client, .error e)
  | .ok (port, table, domains) =>
    match table.registerAll (domains.map (vhostRoute client m kind)) with
    | (table, .error e) => ({ t with vhosts := some table }.giveBack client, .error e)
    | (table, .ok ()) =>
      let remoteAddr := ",".intercalate (domains.map fun domain => s!"{domain}:{port}")
      ({ t with vhosts := some table }.enter client m remoteAddr, .ok remoteAddr)

def registerKind (client : Nat) (m : NewProxy) (t : Tables) : Tables × Except String String :=
  match m.proxyType with
  | "tcp" => t.registerTcp cfg user ids net client m
  | "udp" => t.registerUdp cfg user ids net client m
  | "http" => t.registerVhost cfg client m .http
  | "https" => t.registerVhost cfg client m .https
  | "tcpmux" => t.registerVhost cfg client m .tcpMux
  | "stcp" => t.registerVisitorProxy user client m "stcp"
  | "xtcp" => t.registerVisitorProxy user client m "xtcp"
  | "sudp" => t.registerVisitorProxy user client m "sudp"
  | other =>
    (t.giveBack client,
      .error s!"暂不支持的代理类型：{other}（支持 tcp / udp / http / https / tcpmux / stcp / xtcp / sudp）")

/-- After the old registration, if there was one, is taken back. -/
def registerAfresh (client : Nat) (m : NewProxy) (t : Tables) : Tables × Except Refusal (String × Bool) :=
  match (t.slots client).tryAcquire with
  | none => (t, .error (.slot (t.slots client).max))
  | some (_, limit) =>
    let t := { t with slots := Function.update t.slots client limit }
    match (t.clients client).portRefusal cfg m with
    | some r => (t.giveBack client, .error r)
    | none =>
      match t.registerKind cfg user ids net client m with
      | (t, .error e) => (t, .error (.other e))
      | (t, .ok remoteAddr) => (t, .ok (remoteAddr, false))

def registerProxy (client : Nat) (m : NewProxy) (t : Tables) : Tables × Except Refusal (String × Bool) :=
  if m.proxyName = "" then (t, .error (.other "代理名为空"))
  else
    let proxies := t.clients client
    match if proxies.resumedSession then proxies.reusableProxy m.proxyName (proxySignature m) else none with
    | some addr => (t.withClient client (proxies.adopt m.proxyName (proxySignature m) addr), .ok (addr, true))
    | none =>
      if (proxies.entries.lookup m.proxyName).isSome then
        (t.closeProxyByName ids client m.proxyName).1.registerAfresh cfg user ids net client m
      else t.registerAfresh cfg user ids net client m

end Tables

theorem Limit.release_acquired {l after : Limit} {permit : Permit} (acquired : l.tryAcquire = some (permit, after)) :
    after.release (if after.max = 0 then 0 else 1) = l := by
  obtain ⟨max, available⟩ := l
  unfold tryAcquire at acquired
  split_ifs at acquired with unlimited none
  · obtain ⟨-, rfl⟩ := Prod.mk.inj (Option.some.inj acquired)
    simp [release, show max = 0 from unlimited]
  · obtain ⟨-, rfl⟩ := Prod.mk.inj (Option.some.inj acquired)
    simp only [release, unlimited, if_false, Limit.mk.injEq, true_and]
    exact Nat.sub_add_cancel (Nat.pos_of_ne_zero none)

namespace PortTable

variable {user : Nat → String} {ids : RunIds} {t : PortTable} {port client : Nat} {proxyName : String} {g : PortGroup}

theorem releasePort_new (vacant : t port = none) (name key : String) :
    releasePort ids port client proxyName
      (Function.update t port (some (.new name key (user client) client proxyName))) = t := by
  rw [releasePort, Function.update_self, Function.update_idem]
  have gone : (PortGroup.remove ids client proxyName (.new name key (user client) client proxyName)).kept = none := by
    simp [PortGroup.remove, PortGroup.new, PortGroup.kept]
  rw [Option.bind_some, gone, ← vacant, Function.update_eq_self]

theorem releasePort_push : releasePort ids port client proxyName
    (Function.update t port (some (g.push ids client proxyName))) =
      Function.update t port (g.remove ids client proxyName).kept := by
  have same : (g.push ids client proxyName).remove ids client proxyName = g.remove ids client proxyName := by
    simp [PortGroup.remove, PortGroup.push, List.filter_append, List.filter_filter]
  rw [releasePort, Function.update_self, Function.update_idem, Option.bind_some, same]

theorem update_remove_eq_iff (found : t port = some g) :
    Function.update t port (g.remove ids client proxyName).kept = t ↔ ⟨client, proxyName⟩ ∉ g.members ∧ g.members ≠ [] := by
  rw [Function.update_eq_iff]
  simp only [found, PortGroup.kept_eq_some_iff, ne_eq, implies_true, and_true]
  constructor
  · rintro ⟨inhabited, same⟩
    rw [same] at inhabited
    refine ⟨fun isMember => ?_, inhabited⟩
    exact (PortGroup.mem_remove.mp (same.symm ▸ isMember)).2 rfl
  · rintro ⟨absent, inhabited⟩
    have same : g.remove ids client proxyName = g := by
      have all : g.members.filter (fun b => !(ids.sameClient b.client client && b.proxyName == proxyName)) = g.members := by
        refine List.filter_eq_self.mpr fun b isMember => ?_
        have different : b ≠ ⟨client, proxyName⟩ := fun same => absent (same ▸ isMember)
        simpa [Backend.ext_iff, imp_iff_not_or] using different
      rw [PortGroup.remove, all]
    exact ⟨same.symm ▸ inhabited, same⟩

end PortTable

namespace Tables

variable {cfg : ServerConfig} {user : Nat → String} {ids : RunIds} {net : Net} {client : Nat} {m : NewProxy}
  {t before : Tables} {e : String} {r : Refusal}

structure Same (a b : Tables) : Prop where
  ports : a.ports = b.ports
  routes : a.vhosts.map VhostTable.listed = b.vhosts.map VhostTable.listed
  visitors : a.visitors = b.visitors
  clients : a.clients = b.clients
  slots : a.slots = b.slots

theorem slots_giveBack {permit : Permit} {limit : Limit} (acquired : (before.slots client).tryAcquire = some (permit, limit))
    (taken : t.slots = Function.update before.slots client limit) : (t.giveBack client).slots = before.slots := by
  show Function.update t.slots client _ = before.slots
  rw [taken, Function.update_self, Function.update_idem, Limit.release_acquired acquired, Function.update_eq_self]

/-- A registration is refused before its kind is looked at, or is what it is for its kind. -/
theorem registerAfresh_cases :
    ((t.slots client).tryAcquire = none ∧
        t.registerAfresh cfg user ids net client m = (t, .error (.slot (t.slots client).max))) ∨
      ∃ permit limit, (t.slots client).tryAcquire = some (permit, limit) ∧
        ((∃ reason, (t.clients client).portRefusal cfg m = some reason ∧
            t.registerAfresh cfg user ids net client m =
              (({ t with slots := Function.update t.slots client limit } : Tables).giveBack client, .error reason)) ∨
          (t.clients client).portRefusal cfg m = none ∧
            ∃ result, ({ t with slots := Function.update t.slots client limit } : Tables).registerKind cfg user ids net
                client m = result ∧
              ((∃ e, result.2 = .error e ∧
                  t.registerAfresh cfg user ids net client m = (result.1, .error (.other e))) ∨
                ∃ addr, result.2 = .ok addr ∧ t.registerAfresh cfg user ids net client m = (result.1, .ok (addr, false)))) := by
  cases acquired : (t.slots client).tryAcquire with
  | none => exact .inl ⟨rfl, by rw [registerAfresh, acquired]⟩
  | some both =>
    obtain ⟨permit, limit⟩ := both
    refine .inr ⟨permit, limit, rfl, ?_⟩
    cases allowed : (t.clients client).portRefusal cfg m with
    | some reason => exact .inl ⟨reason, rfl, by simp only [registerAfresh, acquired, allowed]⟩
    | none =>
      refine .inr ⟨rfl, _, rfl, ?_⟩
      cases registered : ({ t with slots := Function.update t.slots client limit } : Tables).registerKind cfg user ids net
          client m with
      | mk after outcome =>
        cases outcome with
        | error e => exact .inl ⟨e, rfl, by simp only [registerAfresh, acquired, allowed, registered]⟩
        | ok addr => exact .inr ⟨addr, rfl, by simp only [registerAfresh, acquired, allowed, registered]⟩

theorem registerAfresh_eq_ok {after : Tables} {outcome : String × Bool}
    (registered : t.registerAfresh cfg user ids net client m = (after, .ok outcome)) :
    outcome.2 = false ∧ ∃ permit limit addr, (t.slots client).tryAcquire = some (permit, limit) ∧
      ({ t with slots := Function.update t.slots client limit } : Tables).registerKind cfg user ids net client m =
        (after, .ok addr) := by
  rcases @registerAfresh_cases cfg user ids net client m t with
    ⟨-, isAfter⟩ | ⟨permit, limit, acquired, ⟨_, -, isAfter⟩ | ⟨-, result, isKind, ⟨_, -, isAfter⟩ | ⟨addr, isOk, isAfter⟩⟩⟩
  · cases registered.symm.trans isAfter
  · cases registered.symm.trans isAfter
  · cases registered.symm.trans isAfter
  · obtain ⟨rfl, same⟩ := Prod.mk.inj (registered.symm.trans isAfter)
    exact ⟨Except.ok.inj same ▸ rfl, permit, limit, addr, acquired, isKind.trans (Prod.ext rfl isOk)⟩

theorem registerVisitorProxy_error {kind : String} (refused : (t.registerVisitorProxy user client m kind).2 = .error e) :
    (t.registerVisitorProxy user client m kind).1 = t.giveBack client := by
  unfold registerVisitorProxy at refused ⊢
  split_ifs at refused ⊢ with noKey
  · rfl
  · split at refused
    · rfl
    · cases refused

/-- An address that is not resolved leaves the port with the entry of the proxy. -/
theorem registerTcp_error (refused : (t.registerTcp cfg user ids net client m).2 = .error e) :
    (t.registerTcp cfg user ids net client m).1 =
      (if m.remotePort ≠ 0 ∧ t.ports m.remotePort = none ∧ net.resolved = none then
        { t with ports := Function.update t.ports m.remotePort (some (.new m.group m.groupKey (user client) client m.proxyName)) }
      else t).giveBack client := by
  unfold registerTcp at refused ⊢
  by_cases noPort : m.remotePort = 0
  · simp [noPort]
  rw [if_neg noPort] at refused ⊢
  rcases @PortTable.reservePort_cases user ids t.ports m.remotePort client m.group m.groupKey m.proxyName with
    ⟨vacant, isFresh⟩ | ⟨g, -, -, isJoined⟩ | ⟨g, isEntry, -, isTaken⟩
  · simp only [isFresh] at refused ⊢
    cases resolved : net.resolved with
    | none => simp [noPort, vacant]
    | some addr =>
      rw [resolved] at refused
      cases bound : net.bound with
      | none =>
        dsimp only
        rw [PortTable.releasePort_new vacant]
        simp
      | some handle =>
        rw [bound] at refused
        cases refused
  · simp only [isJoined] at refused
    cases refused
  · simp [isTaken, isEntry]

theorem registerUdp_error (refused : (t.registerUdp cfg user ids net client m).2 = .error e) :
    (∃ g, m.remotePort ≠ 0 ∧ t.ports m.remotePort = some g ∧ g.Admits (user client) m.group m.groupKey ∧
        (t.registerUdp cfg user ids net client m).1 =
          ({ t with ports := Function.update t.ports m.remotePort (g.remove ids client m.proxyName).kept } : Tables).giveBack
            client) ∨
      (¬∃ g, m.remotePort ≠ 0 ∧ t.ports m.remotePort = some g ∧ g.Admits (user client) m.group m.groupKey) ∧
        (t.registerUdp cfg user ids net client m).1 = t.giveBack client := by
  unfold registerUdp at refused ⊢
  by_cases noPort : m.remotePort = 0
  · simp [noPort]
  rw [if_neg noPort] at refused ⊢
  rcases @PortTable.reservePort_cases user ids t.ports m.remotePort client m.group m.groupKey m.proxyName with
    ⟨vacant, isFresh⟩ | ⟨g, isEntry, admits, isJoined⟩ | ⟨g, isEntry, refuses, isTaken⟩
  · simp only [isFresh] at refused ⊢
    cases bound : net.boundUdp with
    | error reason =>
      dsimp only
      rw [PortTable.releasePort_new vacant]
      simp [vacant]
    | ok handle =>
      rw [bound] at refused
      cases refused
  · simp only [isJoined]
    rw [PortTable.releasePort_push]
    exact .inl ⟨g, noPort, isEntry, admits, rfl⟩
  · simp [isTaken, isEntry, refuses]

theorem of_vhostRequest {kind : VhostKind} {vhosts : Option VhostTable} {port : Nat} {table : VhostTable}
    {domains : List String} (isRequest : vhostRequest cfg m kind vhosts = .ok (port, table, domains)) :
    vhosts = some table ∧ vhostDomains cfg m kind = .ok domains := by
  unfold vhostRequest at isRequest
  split at isRequest
  · cases isRequest
  · split_ifs at isRequest
    split at isRequest
    · cases isRequest
    next table =>
      cases asked : vhostDomains cfg m kind with
      | error reason =>
        rw [asked] at isRequest
        cases isRequest
      | ok domains =>
        rw [asked] at isRequest
        obtain ⟨-, rest⟩ := Prod.mk.inj (Except.ok.inj isRequest)
        obtain ⟨rfl, rfl⟩ := Prod.mk.inj rest
        exact ⟨rfl, rfl⟩

theorem oneProxy_vhostRoutes (client : Nat) (m : NewProxy) (kind : VhostKind) (domains : List String) :
    VhostRoute.OneProxy (domains.map (vhostRoute client m kind)) where
  sameProxy a isA b isB := by
    obtain ⟨_, -, rfl⟩ := List.mem_map.mp isA
    obtain ⟨_, -, rfl⟩ := List.mem_map.mp isB
    exact ⟨rfl, rfl⟩
  oneEach a isA b isB sameDomain := by
    obtain ⟨domain, -, rfl⟩ := List.mem_map.mp isA
    obtain ⟨other, -, rfl⟩ := List.mem_map.mp isB
    have same : domain = other := String.toList_injective sameDomain
    rw [same]

theorem registerVhost_error {kind : VhostKind} (refused : (t.registerVhost cfg client m kind).2 = .error e) :
    (∃ port table domains, vhostRequest cfg m kind t.vhosts = .ok (port, table, domains) ∧
        (t.registerVhost cfg client m kind).1 =
          ({ t with vhosts := some (table.registerAll (domains.map (vhostRoute client m kind))).1 } : Tables).giveBack client) ∨
      (¬∃ request, vhostRequest cfg m kind t.vhosts = .ok request) ∧
        (t.registerVhost cfg client m kind).1 = t.giveBack client := by
  unfold registerVhost at refused ⊢
  cases isRequest : vhostRequest cfg m kind t.vhosts with
  | error reason => simp
  | ok request =>
    obtain ⟨port, table, domains⟩ := request
    refine .inl ⟨port, table, domains, rfl, ?_⟩
    rw [isRequest] at refused
    dsimp only at refused ⊢
    generalize table.registerAll (domains.map (vhostRoute client m kind)) = entered at refused ⊢
    obtain ⟨table, entered | entered⟩ := entered
    · rfl
    · cases refused

/-- As far as the checks before a kind goes, the registration is let in. -/
structure Admitted (cfg : ServerConfig) (client : Nat) (m : NewProxy) (t : Tables) : Prop where
  named : m.proxyName ≠ ""
  room : (t.slots client).tryAcquire ≠ none
  allowed : (t.clients client).portRefusal cfg m = none

/-- A port is entered before its address is resolved, and stays. -/
def TcpLeaves (net : Net) (m : NewProxy) (t : Tables) : Prop :=
  m.remotePort ≠ 0 ∧ t.ports m.remotePort = none ∧ net.resolved = none

/-- A place in the group, which was left behind earlier, is taken out. -/
def UdpLeaves (user : Nat → String) (client : Nat) (m : NewProxy) (t : Tables) : Prop :=
  m.remotePort ≠ 0 ∧ ∃ g, t.ports m.remotePort = some g ∧ g.Admits (user client) m.group m.groupKey ∧
    (⟨client, m.proxyName⟩ ∈ g.members ∨ g.members = [])

/-- The domains before one that clashes are entered, and stay. -/
def VhostLeaves (cfg : ServerConfig) (client : Nat) (m : NewProxy) (kind : VhostKind) (t : Tables) : Prop :=
  ∃ port table domains, vhostRequest cfg m kind t.vhosts = .ok (port, table, domains) ∧
    ∃ route ∈ table.entered (domains.map (vhostRoute client m kind)), ¬table.Stands route

def KindLeaves (cfg : ServerConfig) (user : Nat → String) (net : Net) (client : Nat) (m : NewProxy) (t : Tables) : Prop :=
  match m.proxyType with
  | "tcp" => t.TcpLeaves net m
  | "udp" => t.UdpLeaves user client m
  | "http" => t.VhostLeaves cfg client m .http
  | "https" => t.VhostLeaves cfg client m .https
  | "tcpmux" => t.VhostLeaves cfg client m .tcpMux
  | _ => False

/-- A registration that fails changes the tables where something is taken already, or taken
out, that is not put back. -/
def LeavesBehind (cfg : ServerConfig) (user : Nat → String) (net : Net) (client : Nat) (m : NewProxy) (t : Tables) : Prop :=
  t.Admitted cfg client m ∧ t.KindLeaves cfg user net client m

section Refused

variable {permit : Permit} {limit : Limit} (acquired : (t.slots client).tryAcquire = some (permit, limit))

include acquired

theorem same_giveBack_iff {ports : PortTable} {vhosts : Option VhostTable} :
    ((({ t with ports, vhosts, slots := Function.update t.slots client limit } : Tables).giveBack client).Same t) ↔
      ports = t.ports ∧ vhosts.map VhostTable.listed = t.vhosts.map VhostTable.listed := by
  constructor
  · intro same
    exact ⟨same.ports, same.routes⟩
  · rintro ⟨samePorts, sameRoutes⟩
    exact ⟨samePorts, sameRoutes, rfl, rfl, slots_giveBack acquired rfl⟩

theorem registerTcp_same_iff
    (refused : (({ t with slots := Function.update t.slots client limit } : Tables).registerTcp cfg user ids net client
      m).2 = .error e) :
    (({ t with slots := Function.update t.slots client limit } : Tables).registerTcp cfg user ids net client m).1.Same t ↔
      ¬t.TcpLeaves net m := by
  rw [registerTcp_error refused, TcpLeaves]
  by_cases spoilt : m.remotePort ≠ 0 ∧ t.ports m.remotePort = none ∧ net.resolved = none
  · rw [if_pos spoilt, same_giveBack_iff acquired]
    refine iff_of_false ?_ (not_not.mpr spoilt)
    rintro ⟨same, -⟩
    have vacant := congrFun same m.remotePort
    rw [Function.update_self, spoilt.2.1] at vacant
    cases vacant
  · rw [if_neg spoilt]
    exact iff_of_true ((same_giveBack_iff acquired).mpr ⟨rfl, rfl⟩) spoilt

theorem registerUdp_same_iff
    (refused : (({ t with slots := Function.update t.slots client limit } : Tables).registerUdp cfg user ids net client
      m).2 = .error e) :
    (({ t with slots := Function.update t.slots client limit } : Tables).registerUdp cfg user ids net client m).1.Same t ↔
      ¬t.UdpLeaves user client m := by
  rcases registerUdp_error refused with ⟨g, hasPort, found, admits, isAfter⟩ | ⟨alone, isAfter⟩
  · have sameFound : ∀ h, t.ports m.remotePort = some h → h = g := fun h isH => Option.some.inj (isH.symm.trans found)
    rw [isAfter, same_giveBack_iff acquired, and_iff_left rfl, PortTable.update_remove_eq_iff found]
    constructor
    · rintro ⟨absent, inhabited⟩ ⟨-, h, isH, -, isMember | empty⟩
      · exact absent (sameFound h isH ▸ isMember)
      · exact inhabited (sameFound h isH ▸ empty)
    · intro clean
      exact ⟨fun isMember => clean ⟨hasPort, g, found, admits, .inl isMember⟩,
        fun empty => clean ⟨hasPort, g, found, admits, .inr empty⟩⟩
  · rw [isAfter]
    refine iff_of_true ((same_giveBack_iff acquired).mpr ⟨rfl, rfl⟩) ?_
    rintro ⟨hasPort, g, found, admits, -⟩
    exact alone ⟨g, hasPort, found, admits⟩

theorem registerVhost_same_iff {kind : VhostKind}
    (refused : (({ t with slots := Function.update t.slots client limit } : Tables).registerVhost cfg client m kind).2 =
      .error e) :
    (({ t with slots := Function.update t.slots client limit } : Tables).registerVhost cfg client m kind).1.Same t ↔
      ¬t.VhostLeaves cfg client m kind := by
  rcases registerVhost_error refused with ⟨port, table, domains, isRequest, isAfter⟩ | ⟨none, isAfter⟩
  · have isTable : t.vhosts = some table := (of_vhostRequest isRequest).1
    rw [isAfter, same_giveBack_iff acquired, and_iff_right rfl, isTable, Option.map_some, Option.map_some, Option.some.injEq,
      VhostTable.listed_registerAll_eq_iff (oneProxy_vhostRoutes client m kind domains)]
    constructor
    · rintro stands ⟨otherPort, other, otherDomains, isOther, route, isEntered, missing⟩
      have sameRequest := Except.ok.inj (isOther.symm.trans isRequest)
      obtain ⟨-, rest⟩ := Prod.mk.inj sameRequest
      obtain ⟨rfl, rfl⟩ := Prod.mk.inj rest
      exact missing (stands route isEntered)
    · intro clean route isEntered
      by_contra missing
      exact clean ⟨port, table, domains, isRequest, route, isEntered, missing⟩
  · rw [isAfter]
    refine iff_of_true ((same_giveBack_iff acquired).mpr ⟨rfl, rfl⟩) ?_
    rintro ⟨port, table, domains, isRequest, -⟩
    exact none ⟨_, isRequest⟩

theorem registerVisitorProxy_same_iff {kind : String}
    (refused : (({ t with slots := Function.update t.slots client limit } : Tables).registerVisitorProxy user client m
      kind).2 = .error e) :
    (({ t with slots := Function.update t.slots client limit } : Tables).registerVisitorProxy user client m kind).1.Same t ↔
      ¬False := by
  rw [registerVisitorProxy_error refused]
  exact iff_of_true ((same_giveBack_iff acquired).mpr ⟨rfl, rfl⟩) not_false

theorem registerKind_same_iff
    (refused : (({ t with slots := Function.update t.slots client limit } : Tables).registerKind cfg user ids net client
      m).2 = .error e) :
    (({ t with slots := Function.update t.slots client limit } : Tables).registerKind cfg user ids net client m).1.Same t ↔
      ¬t.KindLeaves cfg user net client m := by
  unfold registerKind at refused ⊢
  unfold KindLeaves
  generalize m.proxyType = ty at refused ⊢
  split at refused
  · exact registerTcp_same_iff acquired refused
  · exact registerUdp_same_iff acquired refused
  · exact registerVhost_same_iff acquired refused
  · exact registerVhost_same_iff acquired refused
  · exact registerVhost_same_iff acquired refused
  · exact registerVisitorProxy_same_iff acquired refused
  · exact registerVisitorProxy_same_iff acquired refused
  · exact registerVisitorProxy_same_iff acquired refused
  next notTcp notUdp notHttp notHttps notTcpmux notStcp notXtcp notSudp =>
    have stays : (({ t with slots := Function.update t.slots client limit } : Tables).giveBack client).Same t :=
      (same_giveBack_iff acquired).mpr ⟨rfl, rfl⟩
    simp_all

end Refused

theorem registerAfresh_same_iff (named : m.proxyName ≠ "")
    (refused : (t.registerAfresh cfg user ids net client m).2 = .error r) :
    (t.registerAfresh cfg user ids net client m).1.Same t ↔ ¬t.LeavesBehind cfg user net client m := by
  rcases @registerAfresh_cases cfg user ids net client m t with
    ⟨full, isAfter⟩ | ⟨permit, limit, acquired, ⟨reason, allowed, isAfter⟩ | ⟨allowed, _, rfl, ⟨e, failed, isAfter⟩ | ⟨_, -, isAfter⟩⟩⟩
  · rw [isAfter]
    exact iff_of_true ⟨rfl, rfl, rfl, rfl, rfl⟩ fun leaves => leaves.1.room full
  · rw [isAfter]
    refine iff_of_true ((same_giveBack_iff acquired).mpr ⟨rfl, rfl⟩) fun leaves => ?_
    cases allowed.symm.trans leaves.1.allowed
  · rw [isAfter, LeavesBehind, and_iff_right ⟨named, by simp [acquired], allowed⟩]
    exact registerKind_same_iff acquired failed
  · rw [isAfter] at refused
    cases refused

end Tables

/-- A failed registration of a new name leaves every table as it was, but where an address
is not resolved after its port was entered, where a domain clashes after others were
entered, and where a UDP proxy is refused by a group it is in. -/
theorem leavesNothing_iff {cfg : ServerConfig} {user : Nat → String} {ids : RunIds} {net : Net} {client : Nat} {m : NewProxy}
    {t : Tables} {r : Refusal} (absent : (t.clients client).entries.lookup m.proxyName = none)
    (refused : (t.registerProxy cfg user ids net client m).2 = .error r) :
    (t.registerProxy cfg user ids net client m).1.Same t ↔ ¬t.LeavesBehind cfg user net client m := by
  unfold Tables.registerProxy at refused ⊢
  by_cases named : m.proxyName = ""
  · rw [if_pos named]
    exact iff_of_true ⟨rfl, rfl, rfl, rfl, rfl⟩ fun leaves => leaves.1.named named
  have notReused : (if (t.clients client).resumedSession then
      (t.clients client).reusableProxy m.proxyName (proxySignature m) else none) = none := by
    simp [Proxies.reusableProxy, absent]
  simp only [if_neg named, notReused, absent, Option.isSome_none, Bool.false_eq_true, if_false] at refused ⊢
  exact Tables.registerAfresh_same_iff named refused

def shopTables : Tables where
  vhosts := some ⟨∅, ∅⟩
  slots _ := .new 0

def shopConfig : ServerConfig where
  vhostHttpPort := some 8080

def shopProxy (proxyType : String) (remotePort : Nat) (customDomains : List String) : NewProxy where
  proxyName := "shop.web"
  proxyType := proxyType
  useEncryption := false
  useCompression := false
  bandwidthLimit := ""
  bandwidthLimitMode := ""
  metas := []
  annotations := []
  remotePort := remotePort
  customDomains := customDomains

def shopNet (resolved : Option String) : Net where
  resolved := resolved
  bound := some 0
  boundUdp := .ok 0

theorem leavesNothing_shop :
    (shopTables.registerProxy shopConfig (fun _ => "shop") .counted (shopNet none) 0 (shopProxy "tcp" 0 [])).1.Same shopTables := by
  refine (leavesNothing_iff rfl rfl).mpr ?_
  rintro ⟨-, hasPort, -⟩
  exact hasPort rfl

/-- A second client of the shop has the domain of the other. -/
def sharedTables : Tables :=
  (shopTables.registerProxy shopConfig (fun _ => "shop") .counted (shopNet none) 1 (shopProxy "http" 0 ["b.shop"])).1

/-- A port whose address is not resolved keeps its entry, and of two domains the first is
kept where the second is taken. -/
theorem leaves_shop :
    (∃ r, (shopTables.registerProxy shopConfig (fun _ => "shop") .counted (shopNet none) 0 (shopProxy "tcp" 6000 [])).2 =
        .error r ∧
      ¬(shopTables.registerProxy shopConfig (fun _ => "shop") .counted (shopNet none) 0 (shopProxy "tcp" 6000 [])).1.Same
        shopTables) ∧
    ∃ r, (sharedTables.registerProxy shopConfig (fun _ => "shop") .counted (shopNet none) 0
        (shopProxy "http" 0 ["a.shop", "b.shop"])).2 = .error r ∧
      ¬(sharedTables.registerProxy shopConfig (fun _ => "shop") .counted (shopNet none) 0
        (shopProxy "http" 0 ["a.shop", "b.shop"])).1.Same sharedTables := by
  refine ⟨⟨_, rfl, fun same => ?_⟩, ⟨_, rfl, fun same => ?_⟩⟩
  · have entries := congrArg (fun ports => (ports 6000).isSome) same.ports
    revert entries
    decide
  · have routes := congrArg (fun listed => (listed.map fun listed => (listed "a.shop".toList).isSome)) same.routes
    revert routes
    decide

namespace Tables

variable {cfg : ServerConfig} {user : Nat → String} {ids : RunIds} {net : Net} {client : Nat} {m : NewProxy}
  {t : Tables} {e : String} {r : Refusal} {name : String} {entry : ProxyEntry}

theorem clients_registerKind_error (refused : (t.registerKind cfg user ids net client m).2 = .error e) :
    (t.registerKind cfg user ids net client m).1.clients = t.clients := by
  have visitor : ∀ kind, (t.registerVisitorProxy user client m kind).2 = .error e →
      (t.registerVisitorProxy user client m kind).1.clients = t.clients := by
    intro kind refused
    rw [registerVisitorProxy_error refused]
    rfl
  have vhost : ∀ kind, (t.registerVhost cfg client m kind).2 = .error e →
      (t.registerVhost cfg client m kind).1.clients = t.clients := by
    intro kind refused
    rcases registerVhost_error refused with ⟨port, table, domains, -, isAfter⟩ | ⟨-, isAfter⟩
    · rw [isAfter]
      rfl
    · rw [isAfter]
      rfl
  unfold registerKind at refused ⊢
  generalize m.proxyType = ty at refused ⊢
  split at refused
  · rw [registerTcp_error refused]
    split
    · rfl
    · rfl
  · rcases registerUdp_error refused with ⟨g, -, -, -, isAfter⟩ | ⟨-, isAfter⟩
    · rw [isAfter]
      rfl
    · rw [isAfter]
      rfl
  · exact vhost .http refused
  · exact vhost .https refused
  · exact vhost .tcpMux refused
  · exact visitor "stcp" refused
  · exact visitor "xtcp" refused
  · exact visitor "sudp" refused
  next notTcp notUdp notHttp notHttps notTcpmux notStcp notXtcp notSudp =>
    have unchanged : (t.giveBack client).clients = t.clients := rfl
    simp_all

theorem clients_registerAfresh_error (refused : (t.registerAfresh cfg user ids net client m).2 = .error r) :
    (t.registerAfresh cfg user ids net client m).1.clients = t.clients := by
  rcases @registerAfresh_cases cfg user ids net client m t with
    ⟨-, isAfter⟩ | ⟨_, _, -, ⟨_, -, isAfter⟩ | ⟨-, _, rfl, ⟨_, failed, isAfter⟩ | ⟨_, -, isAfter⟩⟩⟩
  · rw [isAfter]
  · rw [isAfter]
    rfl
  · rw [isAfter]
    exact clients_registerKind_error failed
  · rw [isAfter] at refused
    cases refused

/-- No entry, no place at its port, no route and no name are left of a proxy. -/
structure Gone (client : Nat) (name : String) (entry : ProxyEntry) (t : Tables) : Prop where
  unlisted : (t.clients client).entries.lookup name = none
  port : ∀ port ∈ entry.port, ⟨client, name⟩ ∉ t.ports.members port
  routes : ∀ table ∈ t.vhosts, ∀ route, table.Has route → ¬(route.client = client ∧ route.proxyName = name.toList)
  visitor : ∀ visitor ∈ t.visitors name, visitor.client ≠ client

theorem gone_closeProxyByName (present : (t.clients client).entries.lookup name = some entry) :
    (t.closeProxyByName ids client name).1.Gone client name entry := by
  have routes : ∀ table ∈ t.vhosts.map (VhostTable.removeProxy client name.toList), ∀ route, table.Has route →
      ¬(route.client = client ∧ route.proxyName = name.toList) := by
    intro table isTable route has
    obtain ⟨old, -, rfl⟩ := Option.mem_map.mp isTable
    exact VhostTable.not_of_has_removeProxy has
  have visitor : ∀ visitor ∈ t.visitors.remove client name name, visitor.client ≠ client := by
    intro visitor isVisitor
    rw [VisitorTable.remove, Function.update_self] at isVisitor
    exact of_decide_eq_true (Option.filter_eq_some_iff.mp isVisitor).2
  have unlisted : (Function.update t.clients client ((t.clients client).stopProxy name) client).entries.lookup name = none := by
    rw [Function.update_self]
    exact AList.lookup_erase _ _
  rw [closeProxyByName]
  simp only [present]
  cases isPort : entry.port with
  | none => exact ⟨unlisted, by simp [isPort], routes, visitor⟩
  | some port =>
    refine ⟨unlisted, ?_, routes, visitor⟩
    intro other isOther
    obtain rfl := Option.some.inj (isPort.symm.trans isOther)
    show ⟨client, name⟩ ∉ PortTable.members (PortTable.releasePort ids port client name _) port
    rw [PortTable.members_releasePort]
    simp

end Tables

/-- A registration that is refused has closed the proxy of its name before. -/
theorem refused_closed {cfg : ServerConfig} {user : Nat → String} {ids : RunIds} {net : Net} {client : Nat} {m : NewProxy}
    {t : Tables} {r : Refusal} {entry : ProxyEntry} (named : m.proxyName ≠ "")
    (present : (t.clients client).entries.lookup m.proxyName = some entry)
    (refused : (t.registerProxy cfg user ids net client m).2 = .error r) :
    (t.closeProxyByName ids client m.proxyName).1.Gone client m.proxyName entry ∧
      (t.registerProxy cfg user ids net client m).1.clients = (t.closeProxyByName ids client m.proxyName).1.clients ∧
        ((t.registerProxy cfg user ids net client m).1.Same (t.closeProxyByName ids client m.proxyName).1 ↔
          ¬(t.closeProxyByName ids client m.proxyName).1.LeavesBehind cfg user net client m) := by
  refine ⟨Tables.gone_closeProxyByName present, ?_⟩
  unfold Tables.registerProxy at refused ⊢
  rw [if_neg named] at refused ⊢
  dsimp only at refused ⊢
  cases reused : (if (t.clients client).resumedSession then
      (t.clients client).reusableProxy m.proxyName (proxySignature m) else none) with
  | some addr =>
    rw [reused] at refused
    cases refused
  | none =>
    rw [reused] at refused
    simp only [present, Option.isSome_some, if_true] at refused ⊢
    exact ⟨Tables.clients_registerAfresh_error refused, Tables.registerAfresh_same_iff named refused⟩

def openTables : Tables :=
  (shopTables.registerProxy shopConfig (fun _ => "shop") .counted (shopNet (some "0.0.0.0:6000")) 0 (shopProxy "tcp" 6000 [])).1

theorem refused_closed_shop :
    ((openTables.registerProxy shopConfig (fun _ => "shop") .counted (shopNet none) 0 (shopProxy "tcp" 0 [])).1.clients 0).entries
      = ((openTables.closeProxyByName .counted 0 "shop.web").1.clients 0).entries := by
  have closed := @refused_closed shopConfig (fun _ => "shop") .counted (shopNet none) 0 (shopProxy "tcp" 0 []) openTables _ _
    (by decide) rfl rfl
  exact congrArg (fun clients => (clients 0).entries) closed.2.1

/-- Asked for without a port, it is refused, and the shop has no proxy any more. -/
theorem not_kept_shop :
    (∃ r, (openTables.registerProxy shopConfig (fun _ => "shop") .counted (shopNet none) 0 (shopProxy "tcp" 0 [])).2 =
      .error r) ∧
    ((openTables.clients 0).entries.lookup "shop.web").isSome ∧
    ((openTables.registerProxy shopConfig (fun _ => "shop") .counted (shopNet none) 0
      (shopProxy "tcp" 0 [])).1.clients 0).entries.lookup "shop.web" = none := by
  refine ⟨⟨_, rfl⟩, ?_, ?_⟩
  · decide
  · decide

end Nfrp
