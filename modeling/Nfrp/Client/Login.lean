import Nfrp.Lib.Runs
import Nfrp.Wire.ClientHandshake

/-!
# To retry or to give up

A client that has never been logged in gives up where the server refuses it, and tries
again whatever else goes wrong.  Which of the two it was, it sees from the error.
-/

namespace Nfrp.Client

open Lib Nfrp.Wire

structure LoginSettings where
  serverAddr : String := "127.0.0.1"
  serverPort : Nat := 7000
  wire : WireVersion
  loginFailExit : Bool := true
  reconnectInterval : Nat
  dialServerTimeout : Nat := 10
  /-- The extensions are enabled, and some of them are there. -/
  extended : Bool := false

/-- What a process keeps from one session to the next. -/
structure LoginState where
  loggedInOnce : Bool := false
  firstLoginFailures : Nat := 0
  /-- The server does not know the extensions. -/
  fallback : Bool := false
  deriving DecidableEq, Repr

/-- A handshake as it went: it was not over in time, did not come to a stream or a
credential, or was an exchange with the server. -/
inductive Call where
  | stuck
  | unreached (causes : List String)
  | exchange (x : Wire.Exchange)

inductive Dial where
  | timedOut
  | failed (causes : List String)
  | opened

/-- `first` is the handshake with a preamble, where there is one, and `second` the one
without it; a session that is logged in ends some time. -/
structure Attempt where
  dial : Dial
  first : Call
  second : Call
  ended : Except (List String) Unit

inductive MainLoop where
  | running (s : LoginState) (retryDelay : Nat)
  | exited (result : Except Failure Unit)

inductive Event where
  | session (a : Attempt)
  | stop

def MainLoop.start : MainLoop := .running {} 0

def MainLoop.Running : MainLoop → Prop
  | .running _ _ => True
  | .exited _ => False

def LoginState.wantPreamble (cfg : LoginSettings) (s : LoginState) : Bool :=
  cfg.extended && !s.fallback

def LoginSettings.loginStageTimeout (cfg : LoginSettings) : Nat :=
  if cfg.dialServerTimeout = 0 then 10 else cfg.dialServerTimeout

def startupRetryDelay (failures : Nat) : Nat :=
  let secs := match failures with
    | 0 | 1 => 1
    | n + 2 => 1 <<< min (n + 1) 4
  min secs 10

def reported (causes : List String) : Failure :=
  causes.map .text

section Loop

variable {Extension : Type} (codec : Codec LoginMessage Extension) (decodeServerHello : List UInt8 → Option ServerHello)
  (cfg : LoginSettings)

def handshakeOnce : Call → Progress Established
  | .stuck => .pending
  | .unreached causes => .failed (reported causes)
  | .exchange x => clientHandshakeWith codec decodeServerHello cfg.wire x

/-- A server that may not know the preamble is asked again without it. -/
def repeats (s : LoginState) (a : Attempt) : Bool :=
  match handshakeOnce codec decodeServerHello cfg a.first with
  | .failed _ => s.wantPreamble cfg
  | _ => false

def handshake (s : LoginState) (a : Attempt) : LoginState × Progress Established :=
  if repeats codec decodeServerHello cfg s a then
    ({ s with fallback := true }, handshakeOnce codec decodeServerHello cfg a.second)
  else (s, handshakeOnce codec decodeServerHello cfg a.first)

def runSession (s : LoginState) (a : Attempt) : LoginState × Except Failure Unit :=
  match a.dial with
  | .timedOut =>
    let secs := cfg.loginStageTimeout
    (s, .error (bail s!"连接服务端超时（{secs} 秒）：网络 / 代理 / KCP(UDP) 可能尚未就绪"))
  | .failed causes => (s, .error (reported causes))
  | .opened =>
    let (s, login) := handshake codec decodeServerHello cfg s a
    match login with
    | .pending =>
      let secs := cfg.loginStageTimeout
      (s, .error (bail s!"等待登录应答超时（{secs} 秒）：服务端未回 LoginResp"))
    | .failed e => (s, .error e)
    | .done established =>
      ({ s with loggedInOnce := true, fallback := s.fallback || (s.wantPreamble cfg && !established.nlink) },
        a.ended.mapError reported)

def settle (s : LoginState) : Except Failure Unit → MainLoop
  | .ok _ => .running s cfg.reconnectInterval
  | .error e =>
    if s.loggedInOnce then .running s cfg.reconnectInterval
    else if isLoginRejected e then
      if cfg.loginFailExit then
        let addr := cfg.serverAddr
        let port := cfg.serverPort
        .exited (.error (.text (s!"登录 {addr}:{port} 被服务端拒绝；已启用 loginFailExit（默认行为），不再重试。" ++
          "loginFailExit 只对“服务端明确拒绝”生效 —— 连不上（网络/代理/KCP 未就绪）会自动退避重试。") :: e))
      else .running s cfg.reconnectInterval
    else
      -- the count saturates
      let failures := min (s.firstLoginFailures + 1) (2 ^ 32 - 1)
      .running { s with firstLoginFailures := failures } (startupRetryDelay failures)

def step : MainLoop → Event → MainLoop
  | .running s _, .session a =>
    let (s, result) := runSession codec decodeServerHello cfg s a
    settle cfg s result
  | .running _ _, .stop => .exited (.ok ())
  | .exited result, _ => .exited result

def calls (s : LoginState) (a : Attempt) : List Call :=
  match a.dial with
  | .opened => if repeats codec decodeServerHello cfg s a then [a.first, a.second] else [a.first]
  | _ => []

def Call.Refused (call : Call) : Prop :=
  ∃ x, call = .exchange x ∧ Wire.Refused codec decodeServerHello cfg.wire x

def Call.RefusedLate (call : Call) : Prop :=
  ∃ x, call = .exchange x ∧ Wire.RefusedLate codec decodeServerHello cfg.wire x

/-- A refusal is recognised in each handshake, and the last one decides whether the
process goes on. -/
structure DecidesRightly (s : LoginState) (retryDelay : Nat) (a : Attempt) : Prop where
  recognised : ∀ call ∈ calls codec decodeServerHello cfg s a,
    (handshakeOnce codec decodeServerHello cfg call).Rejected ↔ call.Refused codec decodeServerHello cfg
  retries : (step codec decodeServerHello cfg (.running s retryDelay) (.session a)).Running ↔
    ¬(cfg.loginFailExit = true ∧
      ∃ call, (calls codec decodeServerHello cfg s a).getLast? = some call ∧ call.Refused codec decodeServerHello cfg)

/-- A property of the sessions of a client that has never been logged in. -/
def BeforeLogin (property : LoginState → Nat → Attempt → Prop) : MainLoop → Event → Prop
  | .running s retryDelay, .session a => s.loggedInOnce = false → property s retryDelay a
  | _, _ => True

def NoneLate (s : LoginState) (_ : Nat) (a : Attempt) : Prop :=
  ∀ call ∈ calls codec decodeServerHello cfg s a, ¬call.RefusedLate codec decodeServerHello cfg

end Loop

section Decisions

variable {Extension : Type} {codec : Codec LoginMessage Extension} {decodeServerHello : List UInt8 → Option ServerHello}
  {cfg : LoginSettings} {s : LoginState}

theorem isLoginRejected_reported (causes : List String) : isLoginRejected (reported causes) = false := by
  induction causes with
  | nil => rfl
  | cons cause causes ih => exact (isLoginRejected_context cause _).trans ih

theorem rejected_handshakeOnce_iff (call : Call) :
    (handshakeOnce codec decodeServerHello cfg call).Rejected ↔
      call.Refused codec decodeServerHello cfg ∧ ¬call.RefusedLate codec decodeServerHello cfg := by
  cases call with
  | stuck => simp [handshakeOnce, Call.Refused]
  | unreached causes => simp [handshakeOnce, Call.Refused, isLoginRejected_reported]
  | exchange x =>
    rw [handshakeOnce, rejected_iff]
    simp [Call.Refused, Call.RefusedLate]

theorem Call.RefusedLate.refused {call : Call} (late : call.RefusedLate codec decodeServerHello cfg) :
    call.Refused codec decodeServerHello cfg := by
  obtain ⟨x, isExchange, refused⟩ := late
  refine ⟨x, isExchange, ?_⟩
  cases isWire : cfg.wire with
  | v1 =>
    rw [isWire] at refused
    cases refused
  | v2 =>
    rw [isWire] at refused
    exact .late refused

theorem recognised_iff (call : Call) :
    ((handshakeOnce codec decodeServerHello cfg call).Rejected ↔ call.Refused codec decodeServerHello cfg) ↔
      ¬call.RefusedLate codec decodeServerHello cfg := by
  rw [rejected_handshakeOnce_iff]
  constructor
  · intro isExact late
    exact (isExact.mpr late.refused).2 late
  · intro notLate
    exact and_iff_left notLate

theorem running_settle_iff (never : s.loggedInOnce = false) (e : Failure) :
    (settle cfg s (.error e)).Running ↔ ¬(cfg.loginFailExit = true ∧ isLoginRejected e = true) := by
  rw [settle, never, if_neg Bool.false_ne_true]
  split_ifs with rejected exits <;> simp_all [MainLoop.Running]

theorem running_settle_loggedIn (loggedIn : s.loggedInOnce = true) (result : Except Failure Unit) :
    (settle cfg s result).Running := by
  cases result with
  | ok _ => exact trivial
  | error e =>
    rw [settle, if_pos loggedIn]
    exact trivial

theorem running_handshaken_iff (never : s.loggedInOnce = false) (retryDelay : Nat) {a : Attempt} (opened : a.dial = .opened)
    {fallback : Bool} {login : Progress Established}
    (isLogin : handshake codec decodeServerHello cfg s a = ({ s with fallback := fallback }, login)) :
    (step codec decodeServerHello cfg (.running s retryDelay) (.session a)).Running ↔
      ¬(cfg.loginFailExit = true ∧ login.Rejected) := by
  rw [step, runSession, opened]
  dsimp only
  rw [isLogin]
  have stillNever : { s with fallback := fallback }.loggedInOnce = false := never
  cases login with
  | pending =>
    refine (running_settle_iff stillNever _).trans ?_
    simp
  | failed e =>
    refine (running_settle_iff stillNever e).trans ?_
    simp
  | done established => exact iff_of_true (running_settle_loggedIn rfl _) (by simp)

theorem running_step_iff (never : s.loggedInOnce = false) (retryDelay : Nat) (a : Attempt) :
    (step codec decodeServerHello cfg (.running s retryDelay) (.session a)).Running ↔
      ¬(cfg.loginFailExit = true ∧
        ∃ call, (calls codec decodeServerHello cfg s a).getLast? = some call ∧
          (handshakeOnce codec decodeServerHello cfg call).Rejected) := by
  cases dialled : a.dial with
  | timedOut =>
    rw [step, runSession, dialled, calls, dialled]
    exact (running_settle_iff never _).trans (by simp)
  | failed causes =>
    rw [step, runSession, dialled, calls, dialled]
    exact (running_settle_iff never _).trans (by simp [isLoginRejected_reported])
  | opened =>
    rw [calls, dialled]
    dsimp only
    by_cases again : repeats codec decodeServerHello cfg s a
    · rw [running_handshaken_iff never retryDelay dialled ((if_pos again).trans rfl), if_pos again]
      simp
    · rw [running_handshaken_iff never retryDelay dialled ((if_neg again).trans rfl), if_neg again]
      simp

theorem decidesRightly_iff (never : s.loggedInOnce = false) (retryDelay : Nat) (a : Attempt) :
    DecidesRightly codec decodeServerHello cfg s retryDelay a ↔ NoneLate codec decodeServerHello cfg s retryDelay a := by
  constructor
  · intro decides call isCall
    exact (recognised_iff call).mp (decides.recognised call isCall)
  · intro noneLate
    have recognised : ∀ call ∈ calls codec decodeServerHello cfg s a,
        (handshakeOnce codec decodeServerHello cfg call).Rejected ↔ call.Refused codec decodeServerHello cfg :=
      fun call isCall => (recognised_iff call).mpr (noneLate call isCall)
    refine ⟨recognised, (running_step_iff never retryDelay a).trans (not_congr (and_congr_right fun _ => ?_))⟩
    refine exists_congr fun call => and_congr_right fun isLast => ?_
    exact recognised call (List.mem_of_getLast? isLast)

/-- Every session of the run is decided rightly just where no handshake is refused late. -/
theorem runMeets_decidesRightly_iff (events : List Event) :
    RunMeets (step codec decodeServerHello cfg) (BeforeLogin (DecidesRightly codec decodeServerHello cfg)) .start events ↔
      RunMeets (step codec decodeServerHello cfg) (BeforeLogin (NoneLate codec decodeServerHello cfg)) .start events := by
  refine @runMeets_congr _ _ _ _ _ (fun _ => True) (fun _ _ _ => trivial) ?_ _ trivial events
  intro p e _
  cases p with
  | exited result => exact Iff.rfl
  | running s retryDelay =>
    cases e with
    | stop => exact Iff.rfl
    | session a => exact forall_congr' fun never => decidesRightly_iff never retryDelay a

theorem first_mem_calls {a : Attempt} (opened : a.dial = .opened) : a.first ∈ calls codec decodeServerHello cfg s a := by
  rw [calls, opened]
  dsimp only
  split_ifs <;> exact List.mem_cons_self

end Decisions

def greeting : List UInt8 :=
  bytesOf "\x7b\"selected\":\x7b\"message\":\x7b\"codec\":\"json\"\x7d,\"crypto\":\x7b\"algorithm\":\"aes-256-gcm\"\x7d\x7d\x7d"

def refusal : List UInt8 := bytesOf "\x7b\"error\":\"token\"\x7d"

def officeCodec : Codec LoginMessage Unit where
  decode typeId body := if typeId = 2 ∧ body = refusal then some (.loginResp { error := "token" }) else none
  decodeUdpBinary _ := none
  decodeNLink _ := none

def officeHello (payload : List UInt8) : Option ServerHello :=
  if payload = greeting then
    some { selected := { message := { codec := messageCodecJson }, crypto := { algorithm := aeadAes256Gcm } } }
  else none

def officeLogin : Attempt where
  dial := .opened
  first := .exchange (.answered [⟨frameServerHello, greeting⟩, ⟨frameMessage, 0 :: 2 :: refusal⟩] .closed true)
  second := .stuck
  ended := .ok ()

def officeSettings : LoginSettings where
  wire := .v2
  reconnectInterval := 5

theorem not_decidesRightly_officeLogin :
    ¬RunMeets (step officeCodec officeHello officeSettings)
      (BeforeLogin (DecidesRightly officeCodec officeHello officeSettings)) .start [.session officeLogin] := by
  intro meets
  have responds : Responds officeCodec .v2 [⟨frameMessage, 0 :: 2 :: refusal⟩] { error := "token" } := by
    have isRead : officeCodec.decode 2 refusal = some (.loginResp { error := "token" }) := by simp [officeCodec]
    have isType : ofBeBytes [0, 2] = 2 := by decide
    refine .here ?_
    simp [eventOf, v2FrameType, frameMessage, isType, typeUdpPacketBinary, isRead]
  have refuses : LoginResp.Refuses { error := "token" } := .inl (by decide)
  have noneLate := (decidesRightly_iff rfl 0 officeLogin).mp (meets.1 rfl)
  exact noneLate _ (first_mem_calls rfl) ⟨_, rfl, .v2 rfl (if_pos rfl) rfl responds refuses⟩

end Nfrp.Client
