import Nfrp.Wire.Conn

/-!
# The login as the client sees it

The two versions ask in different ways, and each has its own ways out.  Of the errors
one says that the server has refused the client; it is recognised by its type, anywhere
in the chain of its causes.
-/

namespace Nfrp.Wire

inductive Cause where
  | loginRejected (message : String)
  | text (message : String)
  /-- What a socket or a decoder reports. -/
  | broken
  deriving DecidableEq, Repr

abbrev Failure := List Cause

def bail (message : String) : Failure := [.text message]

def loginRejected (message : String) : Failure := [.loginRejected message]

def isLoginRejected (e : Failure) : Bool :=
  e.any fun
    | .loginRejected _ => true
    | _ => false

@[simp]
theorem isLoginRejected_bail (message : String) : isLoginRejected (bail message) = false := rfl

@[simp]
theorem isLoginRejected_broken : isLoginRejected [.broken] = false := rfl

@[simp]
theorem isLoginRejected_loginRejected (message : String) : isLoginRejected (loginRejected message) = true := rfl

@[simp]
theorem isLoginRejected_context (message : String) (e : Failure) :
    isLoginRejected (.text message :: e) = isLoginRejected e := rfl

inductive Progress (Result : Type) where
  | pending
  | failed (e : Failure)
  | done (result : Result)

namespace Progress

variable {Result Next : Type}

def bind : Progress Result → (Result → Progress Next) → Progress Next
  | pending, _ => pending
  | failed e, _ => failed e
  | done result, rest => rest result

def Rejected (p : Progress Result) : Prop :=
  ∃ e, p = failed e ∧ isLoginRejected e = true

@[simp]
theorem not_rejected_pending : ¬(pending : Progress Result).Rejected := nofun

@[simp]
theorem not_rejected_done (result : Result) : ¬(done result).Rejected := nofun

@[simp]
theorem rejected_failed_iff (e : Failure) : (failed e : Progress Result).Rejected ↔ isLoginRejected e = true := by
  constructor
  · rintro ⟨other, same, rejected⟩
    cases same
    exact rejected
  · intro rejected
    exact ⟨e, rfl, rejected⟩

theorem rejected_bind_iff {first : Progress Result} {rest : Result → Progress Next} (never : ¬first.Rejected) :
    (first.bind rest).Rejected ↔ ∃ result, first = done result ∧ (rest result).Rejected := by
  cases first with
  | pending => simp [bind]
  | failed e => simpa [bind] using never
  | done result => simp [bind]

end Progress

structure MessageSelection where
  codec : String := ""
  udpPacketCodec : String := ""
  deriving DecidableEq, Repr

structure CryptoSelection where
  algorithm : String := ""
  deriving DecidableEq, Repr

structure ServerSelection where
  message : MessageSelection := {}
  crypto : CryptoSelection := {}
  deriving DecidableEq, Repr

structure ServerHello where
  selected : ServerSelection := {}
  error : String := ""
  deriving DecidableEq, Repr

structure LoginResp where
  runId : String := ""
  error : String := ""
  nfrp : Option NfrpCaps := none
  /-- The capabilities of the extensions that the server agrees to. -/
  nlink : Option UInt64 := none
  deriving DecidableEq

inductive LoginMessage where
  | loginResp (r : LoginResp)
  | other (name : String)
  deriving DecidableEq

inductive Ending where
  | closed
  | broken
  | silent
  deriving DecidableEq, Repr

/-- A login on a stream: what the client has to say does not go out, or the server
answers with frames. `upgraded` is whether the switch to the cipher succeeds. -/
inductive Exchange where
  | unsent
  | answered (frames : List Frame) (ending : Ending) (upgraded : Bool)

def frameServerHello : Nat := 2

def messageCodecJson : String := "json"

def udpPacketCodecBinary : String := "binary-v1"

def aeadAes256Gcm : String := "aes-256-gcm"

def aeadXChaCha20Poly1305 : String := "xchacha20-poly1305"

def clientAlgorithms : List String := [aeadAes256Gcm]

def validateServerHello (algorithms : List String) (hello : ServerHello) : Except Failure Unit :=
  let algorithm := hello.selected.crypto.algorithm
  if hello.selected.message.codec ≠ messageCodecJson then
    .error (bail ("unsupported selected message codec: " ++ hello.selected.message.codec))
  else if algorithm ≠ aeadAes256Gcm ∧ algorithm ≠ aeadXChaCha20Poly1305 then
    .error (bail ("unknown selected crypto algorithm: " ++ algorithm))
  else if algorithm ∉ algorithms then
    .error (bail ("selected crypto algorithm was not advertised by client: " ++ algorithm))
  else .ok ()

theorem not_isLoginRejected_of_validate {algorithms : List String} {hello : ServerHello} {e : Failure}
    (failed : validateServerHello algorithms hello = .error e) : isLoginRejected e = false := by
  rw [validateServerHello] at failed
  split_ifs at failed <;> cases failed <;> rfl

structure Established where
  runId : String
  udpBinary : Bool
  caps : NfrpCaps
  nlink : Bool

def allCaps : UInt64 := 2047

def LoginResp.echoesNLink (r : LoginResp) : Bool :=
  r.nlink.any fun caps => caps &&& allCaps ≠ 0

section Handshake

variable {Extension : Type} (codec : Codec LoginMessage Extension) (decodeServerHello : List UInt8 → Option ServerHello)

def readFrame : List Frame → Ending → Progress (Option (Frame × List Frame))
  | f :: rest, _ => .done (some (f, rest))
  | [], .closed => .done none
  | [], .broken => .failed [.broken]
  | [], .silent => .pending

def recvMsg (version : WireVersion) : List Frame → Ending → Progress (Option LoginMessage)
  | [], .closed => .done none
  | [], .broken => .failed [.broken]
  | [], .silent => .pending
  | f :: rest, ending =>
    match eventOf codec version {} f with
    | none => .failed [.broken]
    | some (some (.msg m)) => .done (some m)
    | some _ => recvMsg version rest ending

def expectLoginResp (version : WireVersion) (frames : List Frame) (ending : Ending) : Progress LoginResp :=
  (recvMsg codec version frames ending).bind fun
    | some (.loginResp r) => .done r
    | some (.other name) => .failed (bail ("期望 LoginResp，收到 " ++ name))
    | none => .failed (bail "服务端在 LoginResp 之前断开连接")

def clientHandshakeV1 (frames : List Frame) (ending : Ending) : Progress Established :=
  (expectLoginResp codec .v1 frames ending).bind fun resp =>
    if resp.error ≠ "" then .failed (loginRejected resp.error)
    else if resp.runId = "" then .failed (loginRejected "服务端未下发 run_id")
    else
      let accepted := resp.nfrp.getD {}
      .done { runId := resp.runId, udpBinary := accepted.udpBinary, caps := accepted, nlink := resp.echoesNLink }

/-- After a `ServerHello` that is accepted. -/
def loginV2 (hello : ServerHello) (upgraded : Bool) (resp : LoginResp) : Progress Established :=
  if resp.error ≠ "" then .failed (bail ("登录失败: " ++ resp.error))
  else if resp.runId = "" then .failed (bail "服务端未下发 run_id")
  else if upgraded then
    .done
      { runId := resp.runId
        udpBinary := hello.selected.message.udpPacketCodec = udpPacketCodecBinary
        caps := resp.nfrp.getD {}
        nlink := resp.echoesNLink }
  else .failed [.broken]

def greetedV2 (rest : List Frame) (ending : Ending) (upgraded : Bool) (hello : ServerHello) : Progress Established :=
  if hello.error ≠ "" then .failed (loginRejected ("ServerHello 返回错误: " ++ hello.error))
  else
    match validateServerHello clientAlgorithms hello with
    | .error e => .failed e
    | .ok _ => (expectLoginResp codec .v2 rest ending).bind (loginV2 hello upgraded)

def clientHandshakeV2 (frames : List Frame) (ending : Ending) (upgraded : Bool) : Progress Established :=
  (readFrame frames ending).bind fun
    | none => .failed (bail "服务端在 ServerHello 之前断开")
    | some (f, rest) =>
      if f.kind ≠ frameServerHello then .failed (bail s!"期望 ServerHello 帧，实际收到帧类型 {f.kind}")
      else
        match decodeServerHello f.payload with
        | none => .failed [.broken]
        | some hello => greetedV2 codec rest ending upgraded hello

def clientHandshakeWith : WireVersion → Exchange → Progress Established
  | _, .unsent => .failed [.broken]
  | .v1, .answered frames ending _ => clientHandshakeV1 codec frames ending
  | .v2, .answered frames ending upgraded => clientHandshakeV2 codec decodeServerHello frames ending upgraded

def LoginResp.Refuses (r : LoginResp) : Prop :=
  r.error ≠ "" ∨ r.runId = ""

inductive Responds (version : WireVersion) : List Frame → LoginResp → Prop
  | here {f rest r} (isEvent : eventOf codec version {} f = some (some (.msg (.loginResp r)))) :
      Responds version (f :: rest) r
  | later {f rest r} (isSkipped : eventOf codec version {} f = some none) (responds : Responds version rest r) :
      Responds version (f :: rest) r

/-- The server greets, and refuses with the response to the login. -/
inductive RefusedLate : WireVersion → Exchange → Prop
  | v2 {f rest ending upgraded hello r} (isHello : f.kind = frameServerHello)
      (decoded : decodeServerHello f.payload = some hello) (greets : hello.error = "")
      (responds : Responds codec .v2 rest r) (refuses : r.Refuses) :
      RefusedLate .v2 (.answered (f :: rest) ending upgraded)

inductive Refused : WireVersion → Exchange → Prop
  | v1 {frames ending upgraded r} (responds : Responds codec .v1 frames r) (refuses : r.Refuses) :
      Refused .v1 (.answered frames ending upgraded)
  | hello {f rest ending upgraded hello} (isHello : f.kind = frameServerHello)
      (decoded : decodeServerHello f.payload = some hello) (refuses : hello.error ≠ "") :
      Refused .v2 (.answered (f :: rest) ending upgraded)
  | late {x} (refused : RefusedLate codec decodeServerHello .v2 x) : Refused .v2 x

end Handshake

section Exits

variable {Extension : Type} {codec : Codec LoginMessage Extension} {decodeServerHello : List UInt8 → Option ServerHello}
  {version : WireVersion} {frames : List Frame} {ending : Ending} {upgraded : Bool}

theorem eventOf_ne_nlink (f : Frame) (extension : Extension) : eventOf codec version {} f ≠ some (some (.nlink extension)) := by
  intro isEvent
  cases version with
  | v1 =>
    simp only [eventOf, nlinkEvent, Bool.false_eq_true, if_false] at isEvent
    split_ifs at isEvent
    all_goals simp [Option.bind_eq_some_iff, Option.map_eq_some_iff] at isEvent
  | v2 =>
    simp only [eventOf, nlinkEvent, Bool.false_eq_true, if_false] at isEvent
    split_ifs at isEvent
    all_goals simp [Option.map_eq_some_iff] at isEvent

theorem not_rejected_recvMsg : ¬(recvMsg codec version frames ending).Rejected := by
  induction frames with
  | nil => cases ending <;> simp [recvMsg]
  | cons f rest ih =>
    rw [recvMsg]
    split
    · simp
    · simp
    · exact ih

theorem recvMsg_loginResp_iff {r : LoginResp} :
    recvMsg codec version frames ending = .done (some (.loginResp r)) ↔ Responds codec version frames r := by
  induction frames with
  | nil => cases ending <;> exact ⟨nofun, nofun⟩
  | cons f rest ih =>
    rw [recvMsg]
    split
    next isBroken =>
      refine ⟨nofun, ?_⟩
      rintro (isEvent | ⟨isSkipped, -⟩) <;> simp_all
    next m isMessage =>
      constructor
      · intro same
        cases same
        exact .here isMessage
      · rintro (isEvent | ⟨isSkipped, -⟩) <;> simp_all
    next event notMessage isEvent =>
      cases event with
      | none =>
        refine ih.trans ⟨.later isEvent, ?_⟩
        rintro (isOther | ⟨-, responds⟩)
        · simp_all
        · exact responds
      | some event =>
        cases event with
        | msg m => exact absurd rfl (notMessage m)
        | nlink extension => exact absurd isEvent (eventOf_ne_nlink f extension)

theorem not_rejected_expectLoginResp : ¬(expectLoginResp codec version frames ending).Rejected := by
  rw [expectLoginResp, Progress.rejected_bind_iff not_rejected_recvMsg]
  rintro ⟨answer, -, rejected⟩
  match answer with
  | some (.loginResp r) => simp at rejected
  | some (.other name) => simp at rejected
  | none => simp at rejected

theorem expectLoginResp_eq_done_iff {r : LoginResp} :
    expectLoginResp codec version frames ending = .done r ↔ Responds codec version frames r := by
  rw [← @recvMsg_loginResp_iff _ _ _ _ ending, expectLoginResp]
  cases recvMsg codec version frames ending with
  | pending => exact ⟨nofun, nofun⟩
  | failed e => exact ⟨nofun, nofun⟩
  | done answer =>
    match answer with
    | some (.loginResp other) => simp [Progress.bind]
    | some (.other name) => simp [Progress.bind]
    | none => simp [Progress.bind]

theorem rejected_v1_iff :
    (clientHandshakeV1 codec frames ending).Rejected ↔ ∃ r, Responds codec .v1 frames r ∧ r.Refuses := by
  rw [clientHandshakeV1, Progress.rejected_bind_iff not_rejected_expectLoginResp]
  refine exists_congr fun r => and_congr expectLoginResp_eq_done_iff ?_
  rw [LoginResp.Refuses]
  split_ifs <;> simp_all

theorem not_rejected_loginV2 (hello : ServerHello) (resp : LoginResp) : ¬(loginV2 hello upgraded resp).Rejected := by
  rw [loginV2]
  split_ifs <;> simp

theorem rejected_greetedV2_iff (hello : ServerHello) :
    (greetedV2 codec frames ending upgraded hello).Rejected ↔ hello.error ≠ "" := by
  rw [greetedV2]
  split_ifs with refuses
  · simp [refuses]
  · split
    next failed => simp [refuses, not_isLoginRejected_of_validate failed]
    next =>
      rw [Progress.rejected_bind_iff not_rejected_expectLoginResp]
      refine iff_of_false ?_ refuses
      rintro ⟨resp, -, rejected⟩
      exact not_rejected_loginV2 hello resp rejected

theorem rejected_v2_iff :
    (clientHandshakeV2 codec decodeServerHello frames ending upgraded).Rejected ↔
      ∃ f rest hello, frames = f :: rest ∧ f.kind = frameServerHello ∧ decodeServerHello f.payload = some hello ∧
        hello.error ≠ "" := by
  cases frames with
  | nil => cases ending <;> simp [clientHandshakeV2, readFrame, Progress.bind]
  | cons f rest =>
    rw [clientHandshakeV2, readFrame, Progress.bind]
    dsimp only
    split_ifs with isOther
    · simp [isOther]
    · split
      next undecoded => simp [undecoded]
      next hello decoded =>
        rw [rejected_greetedV2_iff]
        constructor
        · intro refuses
          exact ⟨f, rest, hello, rfl, not_not.mp isOther, decoded, refuses⟩
        · rintro ⟨_, _, other, ⟨⟩, -, same, refuses⟩
          cases decoded.symm.trans same
          exact refuses

/-- The versions reject what is refused, but for the response on the second. -/
theorem rejected_iff (version : WireVersion) (x : Exchange) :
    (clientHandshakeWith codec decodeServerHello version x).Rejected ↔
      Refused codec decodeServerHello version x ∧ ¬RefusedLate codec decodeServerHello version x := by
  cases x with
  | unsent =>
    have notRefused : ¬Refused codec decodeServerHello version .unsent := by
      rintro (_ | _ | ⟨⟨⟩⟩)
    cases version <;> simp [clientHandshakeWith, notRefused]
  | answered frames ending upgraded =>
    cases version with
    | v1 =>
      refine rejected_v1_iff.trans ⟨?_, ?_⟩
      · rintro ⟨r, responds, refuses⟩
        exact ⟨.v1 responds refuses, nofun⟩
      · rintro ⟨⟨responds, refuses⟩, -⟩
        exact ⟨_, responds, refuses⟩
    | v2 =>
      refine rejected_v2_iff.trans ⟨?_, ?_⟩
      · rintro ⟨f, rest, hello, rfl, isHello, decoded, refuses⟩
        refine ⟨.hello isHello decoded refuses, ?_⟩
        rintro ⟨-, other, greets, -, -⟩
        cases decoded.symm.trans other
        exact refuses greets
      · rintro ⟨_ | ⟨isHello, decoded, refuses⟩ | late, notLate⟩
        · exact ⟨_, _, _, rfl, isHello, decoded, refuses⟩
        · exact absurd late notLate

end Exits

end Nfrp.Wire
