import Nfrp.Server.Reload

/-!
# What a reload reports

Of the fields of the file some change on the spot, some are compared with those of the last
file and named, and some are never looked at.  The server goes on with what it was started
with in all of them but the log level and the credentials of the dashboard.
-/

namespace Nfrp.Reported

open Lib

/-- The fields and tables that no part of a reload reads; of the table of the dashboard, those
that are not read either to find its port and its credentials. -/
inductive Unread where
  | nlink | heartbeatTimeout | workConnIdleTimeout | tlsCertFile | tlsKeyFile | tlsTrustedCaFile | lbPolicy
  | kcpMaxSessions | transportProtocol | kcpBindPort | quicBindPort | webServer | enablePrometheus | udpPacketSize
  | assetsDir | pprofEnable | natholeAnalysisDataReserveHours | httpPlugins | sshTunnelGateway | allowInsecureNoAuth
  | maxClockSkewSecs | hotReload | auth | acl | roles | defaultRole | denyUnknown | audit | websocket | vnet | vnetPort
  deriving DecidableEq, Repr

structure ServerFile (Value : Unread → Type) where
  config : ServerConfig
  unread : (s : Unread) → Value s

/-- A field, by the part of the reload that it matters to. -/
inductive Field where
  | compared (name : String)
  | logLevel
  | dashboardUser
  | dashboardPwd
  | webServerPort
  | webServerUser
  | webServerPassword
  | allowInsecureDashboard
  | unread (s : Unread)
  deriving DecidableEq, Repr

def Unread.name : Unread → String
  | nlink => "nlink"
  | heartbeatTimeout => "heartbeat_timeout"
  | workConnIdleTimeout => "work_conn_idle_timeout"
  | tlsCertFile => "tls_cert_file"
  | tlsKeyFile => "tls_key_file"
  | tlsTrustedCaFile => "tls_trusted_ca_file"
  | lbPolicy => "lb_policy"
  | kcpMaxSessions => "kcp_max_sessions"
  | transportProtocol => "transport_protocol"
  | kcpBindPort => "kcp_bind_port"
  | quicBindPort => "quic_bind_port"
  | webServer => "web_server"
  | enablePrometheus => "enable_prometheus"
  | udpPacketSize => "udp_packet_size"
  | assetsDir => "assets_dir"
  | pprofEnable => "pprof_enable"
  | natholeAnalysisDataReserveHours => "nathole_analysis_data_reserve_hours"
  | httpPlugins => "http_plugins"
  | sshTunnelGateway => "ssh_tunnel_gateway"
  | allowInsecureNoAuth => "allow_insecure_no_auth"
  | maxClockSkewSecs => "max_clock_skew_secs"
  | hotReload => "hot_reload"
  | auth => "auth"
  | acl => "acl"
  | roles => "roles"
  | defaultRole => "default_role"
  | denyUnknown => "deny_unknown"
  | audit => "audit"
  | websocket => "websocket"
  | vnet => "vnet"
  | vnetPort => "vnet_port"

def Field.name : Field → String
  | compared name => name
  | logLevel => "log_level"
  | dashboardUser => "dashboard_user"
  | dashboardPwd => "dashboard_pwd"
  | webServerPort => "web_server.port"
  | webServerUser => "web_server.user"
  | webServerPassword => "web_server.password"
  | allowInsecureDashboard => "allow_insecure_dashboard"
  | unread s => s.name

/-- The credentials that the dashboard of a server checks that is started with the file. -/
def startAuth (cfg : ServerConfig) : DashboardAuth :=
  let creds := cfg.effectiveDashboardCreds
  if hasDashboardCreds creds.1 creds.2 then some creds else none

theorem serveWith_auth {cfg : ServerConfig} {serving : Serving} (starts : serveWith cfg = .ok serving) :
    serving.auth = startAuth cfg := by
  unfold serveWith at starts
  simp only at starts
  split at starts
  next =>
    obtain rfl := Except.ok.inj starts
    simp only [startAuth]
  next =>
    split at starts
    next => simp only [reduceCtorEq] at starts
    next =>
      obtain rfl := Except.ok.inj starts
      simp only [startAuth]

section

variable {Value : Unread → Type}

def Field.Differs (a b : ServerFile Value) : Field → Prop
  | compared name => (name, true) ∈ restartFields a.config b.config
  | logLevel => a.config.logLevel ≠ b.config.logLevel
  | dashboardUser => a.config.dashboardUser ≠ b.config.dashboardUser
  | dashboardPwd => a.config.dashboardPwd ≠ b.config.dashboardPwd
  | webServerPort => a.config.webServer.port ≠ b.config.webServer.port
  | webServerUser => a.config.webServer.user ≠ b.config.webServer.user
  | webServerPassword => a.config.webServer.password ≠ b.config.webServer.password
  | allowInsecureDashboard => a.config.allowInsecureDashboard ≠ b.config.allowInsecureDashboard
  | unread s => a.unread s ≠ b.unread s

/-- What the server runs with: the file that it was started with, and what a reload can change. -/
structure Live (Value : Unread → Type) where
  start : ServerFile Value
  level : String
  auth : DashboardAuth

/-- The server does what it would if it was started with the new file. -/
def Field.InEffect (live : Live Value) (new : ServerFile Value) : Field → Prop
  | logLevel => live.level = new.config.logLevel
  | dashboardUser | dashboardPwd => live.auth = startAuth new.config
  | f => ¬f.Differs live.start new

/-- A filter for the log is set where the new level is one. -/
def Live.apply (log : Option (String → Bool)) (live : Live Value) (old new : ServerFile Value) :
    List String × Live Value :=
  let done := applyDynamic old.config new.config log live.auth
  let level :=
    if old.config.logLevel ≠ new.config.logLevel ∧ log.any (· new.config.logLevel) then new.config.logLevel
    else live.level
  (done.1, { live with level, auth := done.2 })

def Reports (log : Option (String → Bool)) (live : Live Value) (old new : ServerFile Value) : Prop :=
  ∀ f : Field, f.Differs old new → f.InEffect (live.apply log old new).2 new ∨ f.name ∈ (live.apply log old new).1

/-- What is not compared is as before, or as it was at the start; a new log level is one; and
new credentials are taken, or are no other than the dashboard has. -/
structure Heeds (log : Option (String → Bool)) (live : Live Value) (old new : ServerFile Value) : Prop where
  port : old.config.webServer.port = new.config.webServer.port ∨ live.start.config.webServer.port = new.config.webServer.port
  user : old.config.webServer.user = new.config.webServer.user ∨ live.start.config.webServer.user = new.config.webServer.user
  password : old.config.webServer.password = new.config.webServer.password ∨
    live.start.config.webServer.password = new.config.webServer.password
  insecure : old.config.allowInsecureDashboard = new.config.allowInsecureDashboard ∨
    live.start.config.allowInsecureDashboard = new.config.allowInsecureDashboard
  unread : ∀ s, old.unread s = new.unread s ∨ live.start.unread s = new.unread s
  level : old.config.logLevel = new.config.logLevel ∨ log = none ∨ log.any (· new.config.logLevel) ∨
    live.level = new.config.logLevel
  creds : credsDiffer old.config new.config → ¬hasDashboardCreds new.config.dashboardUser new.config.dashboardPwd →
    startAuth new.config = if dashboardExposedAfterReload old.config new.config then live.auth else none

theorem mem_apply {log : Option (String → Bool)} {live : Live Value} {old new : ServerFile Value} {name : String} :
    name ∈ (live.apply log old new).1 ↔
      name = "log_level" ∧ old.config.logLevel ≠ new.config.logLevel ∧ log.isNone ∨
        (name, true) ∈ restartFields old.config new.config := by
  simp only [Live.apply, applyDynamic, List.mem_append, List.mem_map, List.mem_filter]
  refine or_congr ?_ ?_
  · split
    next named => simp [named]
    next other =>
      refine iff_of_false List.not_mem_nil ?_
      rintro ⟨-, differs, noLog⟩
      exact other ⟨differs, noLog⟩
  · constructor
    · rintro ⟨⟨name, differs⟩, ⟨member, isTrue⟩, rfl⟩
      obtain rfl : differs = true := isTrue
      exact member
    · exact fun member => ⟨(name, true), ⟨member, rfl⟩, rfl⟩

theorem not_mem_apply {log : Option (String → Bool)} {live : Live Value} {old new : ServerFile Value} {name : String}
    (unknown : name ∉ "log_level" :: (restartFields {} {}).map Prod.fst) : name ∉ (live.apply log old new).1 := by
  have names : (restartFields old.config new.config).map Prod.fst = (restartFields {} {}).map Prod.fst := rfl
  rw [mem_apply]
  rintro (⟨isLevel, -⟩ | member)
  · exact unknown (isLevel ▸ List.mem_cons_self)
  · exact unknown (List.mem_cons_of_mem _ (names ▸ List.mem_map_of_mem member))

theorem unread_unknown (s : Unread) : s.name ∉ "log_level" :: (restartFields {} {}).map Prod.fst := by
  cases s <;> decide

theorem apply_auth {log : Option (String → Bool)} {live : Live Value} {old new : ServerFile Value}
    (differ : credsDiffer old.config new.config) :
    (live.apply log old new).2.auth = startAuth new.config ↔
      (¬hasDashboardCreds new.config.dashboardUser new.config.dashboardPwd →
        startAuth new.config = if dashboardExposedAfterReload old.config new.config then live.auth else none) := by
  simp only [Live.apply, applyDynamic, if_pos differ]
  by_cases given : hasDashboardCreds new.config.dashboardUser new.config.dashboardPwd
  · have isStart : startAuth new.config = some (new.config.dashboardUser, new.config.dashboardPwd) := by
      simp [startAuth, ServerConfig.effectiveDashboardCreds, given]
    simp [given, isStart]
  · by_cases exposed : dashboardExposedAfterReload old.config new.config
    · simp [given, exposed, eq_comm]
    · simp [given, exposed, eq_comm]

theorem apply_level {log : Option (String → Bool)} {live : Live Value} {old new : ServerFile Value} :
    (old.config.logLevel ≠ new.config.logLevel →
        (live.apply log old new).2.level = new.config.logLevel ∨ "log_level" ∈ (live.apply log old new).1) ↔
      (old.config.logLevel = new.config.logLevel ∨ log = none ∨ log.any (· new.config.logLevel) ∨
        live.level = new.config.logLevel) := by
  have notNamed : ("log_level", true) ∉ restartFields old.config new.config := by
    intro member
    have names : (restartFields old.config new.config).map Prod.fst = (restartFields {} {}).map Prod.fst := rfl
    exact absurd (names ▸ List.mem_map_of_mem member : "log_level" ∈ (restartFields {} {}).map Prod.fst) (by decide)
  rw [mem_apply]
  by_cases same : old.config.logLevel = new.config.logLevel
  · simp [same]
  · cases log with
    | none => simp [same]
    | some isLevel =>
      by_cases valid : isLevel new.config.logLevel
      · simp [Live.apply, same, valid]
      · simp [Live.apply, same, valid, notNamed]

/-- A reload reports every change, wherever the server has got to, exactly if it heeds them all. -/
theorem reports_iff {log : Option (String → Bool)} {live : Live Value} {old new : ServerFile Value} :
    Reports log live old new ↔ Heeds log live old new := by
  have isStart : (live.apply log old new).2.start = live.start := rfl
  constructor
  · intro reports
    have unnamed : ∀ f : Field, f.name ∉ "log_level" :: (restartFields {} {}).map Prod.fst → f.Differs old new →
        f.InEffect (live.apply log old new).2 new :=
      fun f unknown differs => (reports f differs).resolve_right (not_mem_apply unknown)
    refine ⟨?_, ?_, ?_, ?_, ?_, apply_level.mp (reports .logLevel), ?_⟩
    · exact or_iff_not_imp_left.mpr fun differs => not_not.mp (unnamed .webServerPort (by decide) differs)
    · exact or_iff_not_imp_left.mpr fun differs => not_not.mp (unnamed .webServerUser (by decide) differs)
    · exact or_iff_not_imp_left.mpr fun differs => not_not.mp (unnamed .webServerPassword (by decide) differs)
    · exact or_iff_not_imp_left.mpr fun differs => not_not.mp (unnamed .allowInsecureDashboard (by decide) differs)
    · exact fun s => or_iff_not_imp_left.mpr fun differs => not_not.mp (unnamed (.unread s) (unread_unknown s) differs)
    · intro differ
      refine (@apply_auth _ log live _ _ differ).mp ?_
      rcases differ with user | pwd
      · exact unnamed .dashboardUser (by decide) user
      · exact unnamed .dashboardPwd (by decide) pwd
  · rintro ⟨port, user, password, insecure, unread, level, creds⟩ f differs
    cases f with
    | compared name => exact .inr (mem_apply.mpr (.inr differs))
    | logLevel => exact apply_level.mpr level differs
    | dashboardUser => exact .inl ((apply_auth (.inl differs)).mpr (creds (.inl differs)))
    | dashboardPwd => exact .inl ((apply_auth (.inr differs)).mpr (creds (.inr differs)))
    | webServerPort => exact .inl (not_not.mpr (port.resolve_left differs))
    | webServerUser => exact .inl (not_not.mpr (user.resolve_left differs))
    | webServerPassword => exact .inl (not_not.mpr (password.resolve_left differs))
    | allowInsecureDashboard => exact .inl (not_not.mpr (insecure.resolve_left differs))
    | unread s => exact .inl (not_not.mpr ((unread s).resolve_left differs))

/-- What the server runs with, and the file that the next one is compared with. -/
structure Watching (Value : Unread → Type) where
  live : Live Value
  current : ServerFile Value

def Watching.Refuses (w : Watching Value) : Except String (ServerFile Value) → Prop
  | .error _ => True
  | .ok new => dashboardExposedAfterReload w.current.config new.config

def Watching.reload (log : Option (String → Bool)) (w : Watching Value) : Except String (ServerFile Value) → Watching Value
  | .error _ => w
  | .ok new =>
    if dashboardExposedAfterReload w.current.config new.config then w
    else ⟨(w.live.apply log w.current new).2, new⟩

def Watching.Accepted (holds : Live Value → ServerFile Value → ServerFile Value → Prop) (w : Watching Value)
    (file : Except String (ServerFile Value)) : Prop :=
  ∀ new, file = .ok new → w.Refuses file ∨ holds w.live w.current new

def Watching.begin (start : ServerFile Value) : Watching Value :=
  ⟨⟨start, start.config.logLevel, startAuth start.config⟩, start⟩

theorem runMeets_congr {State Event : Type} {step : State → Event → State} {first second : State → Event → Prop}
    (same : ∀ state event, first state event ↔ second state event) (state : State) (events : List Event) :
    RunMeets step first state events ↔ RunMeets step second state events := by
  induction events generalizing state with
  | nil => exact Iff.rfl
  | cons event events ih => exact and_congr (same state event) (ih _)

/-- A reload reports every change exactly if it heeds them, in any state and so in every run of
the server; and one that is refused changes nothing. -/
theorem reload_reports_iff (log : Option (String → Bool)) :
    (∀ (live : Live Value) old new, Reports log live old new ↔ Heeds log live old new) ∧
    (∀ (start : ServerFile Value) files,
      RunMeets (Watching.reload log) (Watching.Accepted (Reports log)) (.begin start) files ↔
        RunMeets (Watching.reload log) (Watching.Accepted (Heeds log)) (.begin start) files) ∧
    ∀ (w : Watching Value) file, ¬(w.Refuses file ∧ w.reload log file ≠ w) := by
  refine ⟨fun live old new => reports_iff, fun start files => runMeets_congr ?_ _ _, ?_⟩
  · intro w file
    exact forall_congr' fun new => imp_congr_right fun _ => or_congr_right reports_iff
  · rintro w file ⟨refuses, differs⟩
    cases file with
    | error message => exact differs rfl
    | ok new => exact differs (if_pos refuses)

end

/-- A new list of who may connect is neither taken nor named. -/
theorem not_reported_acl :
    let start : ServerFile fun _ => List String := ⟨{}, fun _ => []⟩
    let new : ServerFile fun _ => List String := ⟨{}, fun s => if s = .acl then ["203.0.113.0/24"] else []⟩
    (Watching.begin start).live.apply none start new = ([], (Watching.begin start).live) ∧
      ¬Reports none (Watching.begin start).live start new := by
  refine ⟨rfl, fun reports => ?_⟩
  have differs : (Field.unread .acl).Differs (⟨{}, fun _ => []⟩ : ServerFile fun _ => List String)
      ⟨{}, fun s => if s = .acl then ["203.0.113.0/24"] else []⟩ := (List.cons_ne_nil _ _).symm
  rcases reports (.unread .acl) differs with inEffect | named
  · exact inEffect differs
  · exact not_mem_apply (unread_unknown .acl) named

end Nfrp.Reported
