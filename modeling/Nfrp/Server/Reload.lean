import Nfrp.Lib.Runs
import Nfrp.Server.Config

/-!
# Hot reload

The server watches its configuration file.  A new file is compared with the last
one it accepted: the log level and the credentials of the dashboard change on the
spot, everything else is only reported.  The dashboard listener was bound once,
at the start, so a reload that takes the credentials away must be refused as long
as that listener can be reached from outside.
-/

namespace Nfrp

open Lib

abbrev DashboardAuth := Option (String × String)

def dashboardIsExposed (cfg : ServerConfig) : Bool :=
  cfg.dashboardPort.isSome && !hasDashboardCreds cfg.dashboardUser cfg.dashboardPwd &&
    !isLoopbackAddr cfg.bindAddr && !cfg.allowInsecureDashboard

/-- The new file, with what needs a restart taken from the running configuration. -/
def liveView (live new : ServerConfig) : ServerConfig :=
  { new with
    bindAddr := live.bindAddr
    dashboardPort := live.dashboardPort
    allowInsecureDashboard := live.allowInsecureDashboard }

def dashboardExposedAfterReload (live new : ServerConfig) : Bool :=
  dashboardIsExposed (liveView live new)

/-- The fields that need a restart, and whether they differ. -/
def restartFields (old new : ServerConfig) : List (String × Bool) :=
  [("bind_addr", old.bindAddr != new.bindAddr),
    ("bind_port", old.bindPort != new.bindPort),
    ("control_port", old.controlPort != new.controlPort),
    ("work_port", old.workPort != new.workPort),
    ("proxy_bind_addr", old.proxyBindAddr != new.proxyBindAddr),
    ("user_conn_timeout", old.userConnTimeout != new.userConnTimeout),
    ("max_pool_count", old.maxPoolCount != new.maxPoolCount),
    ("tcp_mux_keepalive_interval", old.tcpMuxKeepaliveInterval != new.tcpMuxKeepaliveInterval),
    ("tcp_keepalive", old.tcpKeepalive != new.tcpKeepalive),
    ("token", old.token != new.token),
    ("protocol", old.protocol != new.protocol),
    ("tcp_mux", old.tcpMux != new.tcpMux),
    ("tls_force", old.tlsForce != new.tlsForce),
    ("vhost_http_port", old.vhostHttpPort != new.vhostHttpPort),
    ("vhost_https_port", old.vhostHttpsPort != new.vhostHttpsPort),
    ("tcpmux_http_connect_port", old.tcpmuxHttpConnectPort != new.tcpmuxHttpConnectPort),
    ("tcpmux_passthrough", old.tcpmuxPassthrough != new.tcpmuxPassthrough),
    ("subdomain_host", old.subdomainHost != new.subdomainHost),
    ("p2p_port", old.p2pPort != new.p2pPort),
    ("dashboard_port", old.dashboardPort != new.dashboardPort),
    ("max_total_conns", old.maxTotalConns != new.maxTotalConns),
    ("max_clients", old.maxClients != new.maxClients),
    ("max_conns_per_client", old.maxConnsPerClient != new.maxConnsPerClient),
    ("max_pending_per_client", old.maxPendingPerClient != new.maxPendingPerClient),
    ("max_proxies_per_client", old.maxProxiesPerClient != new.maxProxiesPerClient),
    ("allow_ports", old.allowPorts != new.allowPorts),
    ("max_ports_per_client", old.maxPortsPerClient != new.maxPortsPerClient),
    ("detailed_errors_to_client", old.detailedErrorsToClient != new.detailedErrorsToClient),
    ("vhost_http_timeout", old.vhostHttpTimeout != new.vhostHttpTimeout),
    ("custom_404_page", old.custom404Page != new.custom404Page),
    ("log_to", old.logTo != new.logTo),
    ("max_days", old.maxDays != new.maxDays),
    ("disable_print_color", old.disablePrintColor != new.disablePrintColor)]

def credsDiffer (old new : ServerConfig) : Prop :=
  old.dashboardUser ≠ new.dashboardUser ∨ old.dashboardPwd ≠ new.dashboardPwd

instance (old new : ServerConfig) : Decidable (credsDiffer old new) :=
  inferInstanceAs (Decidable (_ ∨ _))

/-- The fields that need a restart, and the credentials from now on.  `log` sets
the log level and says whether it is a valid one. -/
def applyDynamic (old new : ServerConfig) (log : Option (String → Bool)) (auth : DashboardAuth) :
    List String × DashboardAuth :=
  let logLevel := if old.logLevel ≠ new.logLevel ∧ log.isNone then ["log_level"] else []
  let clearsCreds := !hasDashboardCreds new.dashboardUser new.dashboardPwd
  let auth :=
    if credsDiffer old new then
      if clearsCreds && dashboardExposedAfterReload old new then auth
      else if clearsCreds then none
      else some (new.dashboardUser, new.dashboardPwd)
    else auth
  (logLevel ++ ((restartFields old new).filter (·.2)).map (·.1), auth)

/-- The baseline of the next comparison, and the credentials the dashboard checks. -/
structure Watch where
  current : ServerConfig
  auth : DashboardAuth
  deriving DecidableEq, Repr

def Watch.reload (log : Option (String → Bool)) (w : Watch) : Except String ServerConfig → Watch
  | .error _ => w
  | .ok new =>
    if dashboardExposedAfterReload w.current new then w
    else ⟨new, (applyDynamic w.current new log w.auth).2⟩

/-- What the server starts with: the address and port the dashboard is bound to,
and the credentials it checks. -/
structure Serving where
  dashboard : Option (String × Nat)
  auth : DashboardAuth
  deriving DecidableEq, Repr

def serveWith (cfg : ServerConfig) : Except String Serving :=
  let creds := cfg.effectiveDashboardCreds
  let hasDashCreds := hasDashboardCreds creds.1 creds.2
  let auth := if hasDashCreds then some creds else none
  match cfg.effectiveDashboardPort with
  | none => .ok ⟨none, auth⟩
  | some port =>
    if !hasDashCreds && !isLoopbackAddr cfg.bindAddr && !cfg.allowInsecureDashboard then
      .error ("拒绝启动面板：bind_addr = " ++ cfg.bindAddr.quote ++ " 是对外地址，但没有配置**完整的**凭据" ++
        "（dashboard_user 与 dashboard_pwd 都非空才行）。" ++
        "要么配齐用户名密码，要么把 bind_addr 改成 127.0.0.1，" ++
        "要么显式写 allow_insecure_dashboard = true。")
    else .ok ⟨some (cfg.bindAddr, port), auth⟩

/-- The dashboard listens on an address other than a literal loopback address. -/
def Serving.Exposed (s : Serving) : Prop :=
  ∃ bound ∈ s.dashboard, ¬ isLoopbackAddr bound.1

def Guarded (auth : DashboardAuth) : Prop :=
  ∃ user pwd, auth = some (user, pwd) ∧ user ≠ "" ∧ pwd ≠ ""

theorem guarded_of_hasDashboardCreds {creds : String × String} (given : hasDashboardCreds creds.1 creds.2) :
    Guarded (some creds) :=
  ⟨creds.1, creds.2, rfl, ne_empty_of_hasDashboardCreds given⟩

theorem not_guarded_none : ¬ Guarded none := by
  rintro ⟨_, _, ⟨⟩, _⟩

/-- An exposed dashboard starts with credentials, unless it was allowed to go without. -/
theorem serveWith_guarded {cfg : ServerConfig} {serving : Serving} (starts : serveWith cfg = .ok serving)
    (exposed : serving.Exposed) (secure : cfg.allowInsecureDashboard = false) : Guarded serving.auth := by
  obtain ⟨bound, isBound, outside⟩ := exposed
  unfold serveWith at starts
  simp only at starts
  split at starts
  · obtain rfl := Except.ok.inj starts
    cases isBound
  split at starts
  · simp only [reduceCtorEq] at starts
  next allowed =>
    obtain rfl := Except.ok.inj starts
    obtain rfl := Option.some.inj isBound
    simp only [Bool.not_eq_true] at outside
    simp only [outside, secure, Bool.not_false, Bool.and_true, Bool.not_eq_true, Bool.not_eq_false'] at allowed
    simp only [allowed, if_true]
    exact guarded_of_hasDashboardCreds allowed

/-- The baseline describes a dashboard that can be reached and is not allowed to
go without credentials. -/
def baselineExposed (cfg : ServerConfig) : Prop :=
  cfg.dashboardPort.isSome ∧ ¬ isLoopbackAddr cfg.bindAddr ∧ ¬ cfg.allowInsecureDashboard

instance (cfg : ServerConfig) : Decidable (baselineExposed cfg) :=
  inferInstanceAs (Decidable (_ ∧ _ ∧ _))

/-- A file that takes the credentials away is read while the baseline describes
an exposed dashboard. -/
def Watch.ClearsExposed (w : Watch) : Except String ServerConfig → Prop
  | .error _ => True
  | .ok new => credsDiffer w.current new → ¬ hasDashboardCreds new.dashboardUser new.dashboardPwd →
      baselineExposed w.current

instance (w : Watch) : (file : Except String ServerConfig) → Decidable (w.ClearsExposed file)
  | .error _ => .isTrue trivial
  | .ok new => inferInstanceAs (Decidable (credsDiffer w.current new →
      ¬ hasDashboardCreds new.dashboardUser new.dashboardPwd → baselineExposed w.current))

theorem dashboardExposedAfterReload_iff (live new : ServerConfig) :
    dashboardExposedAfterReload live new ↔
      baselineExposed live ∧ ¬ hasDashboardCreds new.dashboardUser new.dashboardPwd := by
  simp only [dashboardExposedAfterReload, dashboardIsExposed, liveView, baselineExposed, Bool.and_eq_true,
    Bool.not_eq_true', Bool.not_eq_true]
  constructor
  · rintro ⟨⟨⟨hasPort, cleared⟩, outside⟩, secure⟩
    exact ⟨⟨hasPort, outside, secure⟩, cleared⟩
  · rintro ⟨⟨hasPort, outside, secure⟩, cleared⟩
    exact ⟨⟨⟨hasPort, cleared⟩, outside⟩, secure⟩

theorem Watch.reload_auth (log : Option (String → Bool)) {w : Watch} {new : ServerConfig}
    (accepted : ¬ dashboardExposedAfterReload w.current new) :
    (w.reload log (.ok new)).auth =
      if credsDiffer w.current new then
        if hasDashboardCreds new.dashboardUser new.dashboardPwd then
          some (new.dashboardUser, new.dashboardPwd)
        else none
      else w.auth := by
  simp only [Watch.reload, applyDynamic, accepted, Bool.and_false, Bool.false_eq_true, if_false,
    Bool.not_eq_true', ← Bool.not_eq_true, ite_not]

/-- A reload keeps the dashboard guarded exactly if it meets the condition. -/
theorem Watch.reload_guarded_iff (log : Option (String → Bool)) {w : Watch} (guarded : Guarded w.auth)
    (file : Except String ServerConfig) : Guarded (w.reload log file).auth ↔ w.ClearsExposed file := by
  cases file with
  | error message => exact iff_of_true guarded trivial
  | ok new =>
    by_cases refused : dashboardExposedAfterReload w.current new
    · rw [Watch.reload, if_pos refused]
      exact iff_of_true guarded fun _ _ => ((dashboardExposedAfterReload_iff _ _).mp refused).1
    · rw [Watch.reload_auth log refused, Watch.ClearsExposed]
      by_cases differ : credsDiffer w.current new
      · by_cases given : hasDashboardCreds new.dashboardUser new.dashboardPwd
        · rw [if_pos differ, if_pos given]
          exact iff_of_true (guarded_of_hasDashboardCreds given) fun _ absent => absurd given absent
        · have hidden : ¬ baselineExposed w.current := fun baseline =>
            refused ((dashboardExposedAfterReload_iff _ _).mpr ⟨baseline, given⟩)
          rw [if_pos differ, if_neg given]
          exact iff_of_false not_guarded_none fun kept => hidden (kept differ given)
      · rw [if_neg differ]
        exact iff_of_true guarded fun differs => absurd differs differ

/-- In every run whose files take no credentials away behind a baseline that
hides the dashboard, an exposed dashboard stays guarded. -/
theorem panel_stays_guarded (log : Option (String → Bool)) {start : ServerConfig} {serving : Serving}
    (starts : serveWith start = .ok serving) (exposed : serving.Exposed)
    (secure : start.allowInsecureDashboard = false) {files : List (Except String ServerConfig)}
    (meets : RunMeets (Watch.reload log) Watch.ClearsExposed ⟨start, serving.auth⟩ files) :
    Guarded (run (Watch.reload log) ⟨start, serving.auth⟩ files).auth := by
  refine @run_invariant_of_meets _ _ _ _ (fun w : Watch => Guarded w.auth) ?_ _ ?_ _ meets
  · intro w file meets guarded
    exact (w.reload_guarded_iff log guarded file).mpr meets
  · exact serveWith_guarded starts exposed secure

def panelStart : ServerConfig :=
  { dashboardPort := some 7500, dashboardUser := "admin", dashboardPwd := "s3cret" }

/-- Two files: the first moves the address, which needs a restart, the second
takes the credentials away.  The listener is still the one on 0.0.0.0. -/
theorem panel_opened :
    ∃ serving, serveWith panelStart = .ok serving ∧ serving.Exposed ∧
      panelStart.allowInsecureDashboard = false ∧
      (run (Watch.reload none) ⟨panelStart, serving.auth⟩
        [.ok { panelStart with bindAddr := "127.0.0.1" },
          .ok { bindAddr := "127.0.0.1", dashboardPort := some 7500 }]).auth = none := by
  refine ⟨⟨some ("0.0.0.0", 7500), some ("admin", "s3cret")⟩, by decide, ?_, rfl, by decide⟩
  exact ⟨("0.0.0.0", 7500), rfl, by decide⟩

theorem panel_stays_guarded_example :
    Guarded (run (Watch.reload none) ⟨panelStart, some ("admin", "s3cret")⟩
      [.ok { panelStart with dashboardPwd := "other" }, .error "unclosed string",
        .ok { panelStart with dashboardUser := "", dashboardPwd := "" }]).auth := by
  have starts : serveWith panelStart = .ok ⟨some ("0.0.0.0", 7500), some ("admin", "s3cret")⟩ := by decide
  exact panel_stays_guarded none starts ⟨("0.0.0.0", 7500), rfl, by decide⟩ rfl (by decide)

end Nfrp
