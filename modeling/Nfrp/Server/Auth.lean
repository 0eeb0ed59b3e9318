import Nfrp.Lib.Ip
import Nfrp.Lib.Secret
import Nfrp.Lib.Checked

/-!
# How the server knows who sends a message

The shared token, the tokens of an identity provider, and the identity tokens the
server signs itself.  Digests, signatures and the decoding of a token come from
libraries; they are what `Primitives` holds.
-/

namespace Nfrp

open Lib

inductive Json where
  | null
  | bool (b : Bool)
  | integer (n : Int)
  | float (text : String)
  | string (s : String)
  | array (items : List Json)
  | object (members : List (String × Json))

namespace Json

def get : Json → String → Option Json
  | object members, key => members.lookup key
  | _, _ => none

def asStr : Json → Option String
  | string s => some s
  | _ => none

def asI64 : Json → Option Int
  | integer n => if -2 ^ 63 ≤ n ∧ n < 2 ^ 63 then some n else none
  | _ => none

def typeName : Json → String
  | null => "null"
  | bool _ => "bool"
  | integer _ | float _ => "number"
  | string _ => "string"
  | array _ => "array"
  | object _ => "object"

end Json

structure JwtHeader where
  alg : String
  kid : Option String

structure Jwk where
  kty : String := ""
  kid : String := ""
  alg : String := ""
  n : String := ""
  e : String := ""
  crv : String := ""
  x : String := ""
  y : String := ""

structure Primitives where
  md5 : List UInt8 → Vector UInt8 16
  sha256 : List UInt8 → Vector UInt8 32
  hmacSha256 : List UInt8 → List UInt8 → Vector UInt8 32
  b64url : List Char → Except String (List UInt8)
  jwtHeader : List UInt8 → Except String JwtHeader
  json : List UInt8 → Except String Json
  verifySignature : Jwk → String → List UInt8 → List UInt8 → Except String Bool

def authKey (prims : Primitives) (token : String) (timestamp : Int) : String :=
  String.ofList (hex (prims.md5 (bytesOf token ++ bytesOf (toString timestamp))).toList)

def asI64 (n : Nat) : Int := (BitVec.ofNat 64 n).toInt

def saturating (n : Int) : Int := max (-2 ^ 63) (min (2 ^ 63 - 1) n)

def checkFreshness (now : Nat) (ts : Int) (skew : Nat) (what : String) : Except String Unit :=
  if skew = 0 then .ok ()
  else
    let now := asI64 now
    let diff := saturating |saturating (now - ts)|
    if asI64 skew < diff then
      .error s!"{what}超出允许偏差（ts={ts}，现在={now}，偏差 {diff} 秒 > {skew} 秒） —— 请校准两端时钟，或调大 maxClockSkewSecs"
    else .ok ()

theorem authKey_ne_empty (prims : Primitives) (token : String) (timestamp : Int) :
    authKey prims token timestamp ≠ "" := by
  intro empty
  have noDigit : hex (prims.md5 (bytesOf token ++ bytesOf (toString timestamp))).toList = [] := by
    rw [← String.toList_ofList (l := hex _)]
    exact congrArg String.toList empty
  refine hex_ne_nil (fun noByte => ?_) noDigit
  cases (Vector.length_toList ..).symm.trans (congrArg List.length noByte)

structure ServerOidcConfig where
  issuer : String := ""
  audience : String := ""
  skipExpiryCheck : Bool := false
  skipIssuerCheck : Bool := false

structure ParsedJwt where
  header : JwtHeader
  headerB64 : List Char
  payloadB64 : List Char
  payload : Json
  signature : List UInt8

def parseJwt (prims : Primitives) (token : String) : Except String ParsedJwt :=
  let bare := trimmed token.toList
  let token := if "Bearer ".toList.isPrefixOf bare then bare.drop 7 else bare
  match token.splitOn '.' with
  | [headerB64, payloadB64, signatureB64] => do
      let headerBytes ← (prims.b64url headerB64).mapError (s!"JWT header 不是合法 base64url: {·}")
      let payloadBytes ← (prims.b64url payloadB64).mapError (s!"JWT payload 不是合法 base64url: {·}")
      let signature ← (prims.b64url signatureB64).mapError (s!"JWT 签名不是合法 base64url: {·}")
      let header ← (prims.jwtHeader headerBytes).mapError (s!"JWT header 不是合法 JSON: {·}")
      let payload ← (prims.json payloadBytes).mapError (s!"JWT payload 不是合法 JSON: {·}")
      return { header, headerB64, payloadB64, payload, signature }
  | parts => .error s!"不是合法的 JWT（应当有 3 段，实际 {parts.length} 段）"

def supportedAlgs : List String :=
  ["RS256", "RS384", "RS512", "PS256", "PS384", "PS512", "ES256", "ES384"]

def eqIgnoreAsciiCase (a b : String) : Bool :=
  a.toList.map Char.toLower = b.toList.map Char.toLower

structure OidcVerifier where
  cfg : ServerOidcConfig
  jwks : Option (List Jwk) := none
  subjects : List (String × String) := []

namespace OidcVerifier

def checkIssuer (cfg : ServerOidcConfig) (payload : Json) : Except String Unit :=
  if cfg.skipIssuerCheck then .ok ()
  else
    match (payload.get "iss").bind Json.asStr with
    | none => .error "token 里没有 iss"
    | some iss =>
      let bare (s : String) := s.toList.rdropWhile (· = '/')
      if bare iss = bare cfg.issuer then .ok ()
      else .error s!"token 的 iss={iss} 与配置的 issuer={cfg.issuer} 不符"

def checkAudience (cfg : ServerOidcConfig) (payload : Json) : Except String Unit :=
  let audOk : Bool :=
    match payload.get "aud" with
    | some (.string s) => s = cfg.audience
    | some (.array items) => items.any (·.asStr = some cfg.audience)
    | _ => false
  if cfg.audience = "" ∨ audOk then .ok ()
  else .error s!"token 的 aud 不匹配（期望 {cfg.audience.quote}）"

/-- The expiry has to be there and to be a number; the start may be missing. -/
def checkExpiry (cfg : ServerOidcConfig) (now : Int) (payload : Json) : Except String Unit :=
  if cfg.skipExpiryCheck then .ok ()
  else
    match payload.get "exp" with
    | none => .error "token 里没有 exp —— 无法判断有效期，拒绝（会永不过期）"
    | some v =>
      match v.asI64 with
      | none => .error s!"token 的 exp 不是数值（实际是 {v.typeName}）—— 无法判断有效期，拒绝"
      | some exp =>
        if exp < now then .error s!"token 已过期（exp={exp}，现在 {now}）"
        else
          match payload.get "nbf" with
          | none => .ok ()
          | some v =>
            match v.asI64 with
            | none => .error s!"token 的 nbf 不是数值（实际是 {v.typeName}）—— 拒绝"
            | some nbf =>
              if now + 60 < nbf then .error s!"token 还没生效（nbf={nbf}，现在 {now}）"
              else .ok ()

def checkClaims (cfg : ServerOidcConfig) (now : Int) (payload : Json) : Except String Unit := do
  checkIssuer cfg payload
  checkAudience cfg payload
  checkExpiry cfg now payload

/-- The keys are tried in turn; a key for another algorithm is passed over. -/
def tryKeys (prims : Primitives) (v : OidcVerifier) (now : Nat) (jwt : ParsedJwt) :
    List Jwk → String → Except String Json
  | [], lastErr => .error lastErr
  | k :: keys, lastErr =>
    if k.alg ≠ "" ∧ ¬eqIgnoreAsciiCase k.alg jwt.header.alg then tryKeys prims v now jwt keys lastErr
    else
      let signed := bytesOf (String.ofList (jwt.headerB64 ++ '.' :: jwt.payloadB64))
      match prims.verifySignature k jwt.header.alg signed jwt.signature with
      | .ok true => (checkClaims v.cfg (asI64 now) jwt.payload).map fun _ => jwt.payload
      | .ok false => tryKeys prims v now jwt keys "签名不匹配"
      | .error e => tryKeys prims v now jwt keys e

def verifyToken (prims : Primitives) (v : OidcVerifier) (now : Nat) (token : String) : Except String Json := do
  let jwt ← parseJwt prims token
  if eqIgnoreAsciiCase jwt.header.alg "none" then throw "拒绝 alg=none 的 token"
  if jwt.header.alg ∉ supportedAlgs then throw s!"不支持的 JWT 签名算法 {jwt.header.alg}（支持 {supportedAlgs}）"
  match v.jwks with
  | none => throw "JWKS 尚未加载成功，无法校验 token（检查服务端到 IdP 的网络）"
  | some keys =>
    let candidates := keys.filter fun k => jwt.header.kid.all (· = k.kid)
    if candidates.isEmpty then
      throw s!"JWKS 里没有 kid={jwt.header.kid} 对应的密钥（IdP 可能刚轮换过密钥，重启服务端或等下一次刷新）"
    tryKeys prims v now jwt candidates "没有可用于校验的密钥"

def subjectOf (prims : Primitives) (v : OidcVerifier) (now : Nat) (token : String) : Except String String := do
  let payload ← verifyToken prims v now token
  match (payload.get "sub").bind Json.asStr with
  | none => throw "token 里没有 sub"
  | some sub => return sub

def rememberSubject (prims : Primitives) (v : OidcVerifier) (now : Nat) (token runId : String) :
    Except String (String × OidcVerifier) := do
  let sub ← subjectOf prims v now token
  if runId = "" then return (sub, v)
  else return (sub, { v with subjects := (runId, sub) :: v.subjects })

def forgetSession (v : OidcVerifier) (runId : String) : OidcVerifier :=
  { v with subjects := v.subjects.filter (·.1 ≠ runId) }

/-- Without a session to compare with, anyone who is logged in passes. -/
def verifyPostLogin (prims : Primitives) (v : OidcVerifier) (now : Nat) (token what runId : String) :
    Except String String := do
  let sub ← subjectOf prims v now token
  if runId = "" then
    if v.subjects.any (·.2 = sub) then return sub
    else throw s!"{what} 的 token subject [{sub}] 与登录时的不一致"
  else
    match v.subjects.lookup runId with
    | some bound =>
      if bound = sub then return sub
      else throw s!"{what} 的 token subject [{sub}] 与本会话登录时的 [{bound}] 不一致：同一个连接上的后续消息必须用同一身份的 token"
    | none => throw s!"{what} 的 token subject [{sub}] 没有对应的已登录会话 [{runId}]：不能用一个独立登录过的身份来给你自己的连接背书"

theorem parseJwt_empty (prims : Primitives) : parseJwt prims "" = .error "不是合法的 JWT（应当有 3 段，实际 1 段）" :=
  rfl

theorem subjectOf_empty (prims : Primitives) (v : OidcVerifier) (now : Nat) (sub : String) :
    subjectOf prims v now "" ≠ .ok sub := by
  have refused : verifyToken prims v now "" = .error "不是合法的 JWT（应当有 3 段，实际 1 段）" := by
    rw [verifyToken, parseJwt_empty]
    rfl
  rw [subjectOf, refused]
  exact nofun

theorem lookup_of_verifyPostLogin {prims : Primitives} {v : OidcVerifier} {now : Nat} {token what runId sub : String}
    (named : runId ≠ "") (verified : verifyPostLogin prims v now token what runId = .ok sub) :
    subjectOf prims v now token = .ok sub ∧ v.subjects.lookup runId = some sub := by
  rw [verifyPostLogin] at verified
  obtain ⟨owner, ofToken, verified⟩ := bind_eq_ok_iff.mp verified
  rw [if_neg named] at verified
  cases bound : v.subjects.lookup runId with
  | none =>
    rw [bound] at verified
    cases verified
  | some other =>
    simp only [bound] at verified
    split at verified
    next same =>
      obtain rfl : owner = sub := Except.ok.inj verified
      exact ⟨ofToken, congrArg some same⟩
    next => cases verified

end OidcVerifier

inductive AuthMethod where
  | token
  | oidc
  deriving DecidableEq, Repr

structure ServerAuthConfig where
  method : AuthMethod := .token
  token : String := ""
  additionalScopes : List String := ["HeartBeats", "NewWorkConns"]
  oidc : ServerOidcConfig := {}

namespace ServerAuthConfig

def checkNewWorkConns (cfg : ServerAuthConfig) : Bool :=
  cfg.method == .oidc && cfg.additionalScopes.any (· == "NewWorkConns")

end ServerAuthConfig

/-- Until the keys of the identity provider are fetched nobody is let in. -/
inductive AuthProvider where
  | token (secret : String)
  | oidc (v : OidcVerifier)
  | oidcUnavailable (e : String)

namespace AuthProvider

def method : AuthProvider → AuthMethod
  | token _ => .token
  | oidc _ | oidcUnavailable _ => .oidc

def secret : AuthProvider → String
  | token t => t
  | _ => ""

def verifyLogin (prims : Primitives) (auth : AuthProvider) (now : Nat) (cred : String) (ts : Int) (runId : String)
    (skew : Nat) : Except String (String × AuthProvider) := do
  checkFreshness now ts skew "登录时间戳"
  match auth with
  | token secret =>
    if secret = "" then return ("", auth)
    if constantTimeEq (bytesOf (authKey prims secret ts)) (bytesOf cred) then return ("", auth)
    else throw "token in login doesn't match token from configuration"
  | oidc v => (v.rememberSubject prims now cred runId).map fun (sub, v) => (sub, oidc v)
  | oidcUnavailable e => throw s!"OIDC 认证不可用（{e}），拒绝本次登录"

def verifyFollowup (prims : Primitives) (auth : AuthProvider) (now : Nat) (cred what runId : String) :
    Except String Unit :=
  match auth with
  | token _ => .ok ()
  | oidc v => (v.verifyPostLogin prims now cred what runId).map fun _ => ()
  | oidcUnavailable e => .error s!"OIDC 认证不可用（{e}），拒绝{what}"

def Follows (cfg : ServerAuthConfig) : AuthProvider → Prop
  | token secret => cfg.method = .token ∧ secret = cfg.token
  | oidc v => cfg.method = .oidc ∧ v.cfg = cfg.oidc
  | oidcUnavailable _ => cfg.method = .oidc

theorem Follows.method_eq {cfg : ServerAuthConfig} {auth : AuthProvider} (follows : auth.Follows cfg) :
    auth.method = cfg.method := by
  cases auth with
  | token secret => exact follows.1.symm
  | oidc v => exact follows.1.symm
  | oidcUnavailable e => exact Eq.symm follows

theorem Follows.secret_eq {cfg : ServerAuthConfig} {auth : AuthProvider} (follows : auth.Follows cfg)
    (byToken : cfg.method = .token) : auth = token cfg.token := by
  cases auth with
  | token secret => rw [follows.2]
  | oidc v => cases follows.1.symm.trans byToken
  | oidcUnavailable e => cases Eq.trans (Eq.symm follows) byToken

theorem verifyLogin_token {prims : Primitives} {now skew : Nat} {secret cred runId : String} {ts : Int}
    {seen : String × AuthProvider} (given : secret ≠ "")
    (verified : verifyLogin prims (token secret) now cred ts runId skew = .ok seen) :
    checkFreshness now ts skew "登录时间戳" = .ok () ∧ cred = authKey prims secret ts := by
  rw [verifyLogin] at verified
  obtain ⟨_, fresh, verified⟩ := bind_eq_ok_iff.mp verified
  rw [if_neg given] at verified
  split at verified
  next same => exact ⟨fresh, (bytesOf_inj.mp (constantTimeEq_iff.mp same)).symm⟩
  next => cases verified

end AuthProvider

def identityKey (prims : Primitives) (secret : String) : List UInt8 :=
  (prims.sha256 (bytesOf "nlink-identity|" ++ bytesOf secret)).toList

def identityMessage (runId user : String) (exp : Nat) : List UInt8 :=
  bytesOf "nlink-identity-v1" ++ 0 :: bytesOf runId ++ 0 :: bytesOf user ++ 0 :: beBytes 8 exp

/-- A token is good for its session and its user, and half a minute past its time. -/
def verifyIdentity (prims : Primitives) (key : List UInt8) (token runId user : String) (now : Nat) :
    Except String Unit :=
  match token.toList.splitOn '.' with
  | [version, exp, sig] =>
    if version ≠ "v1".toList then .error "身份令牌格式不对"
    else
      match parseUnsigned (2 ^ 64 - 1) exp with
      | none => .error "身份令牌过期时间不是数字"
      | some exp =>
        if (exp + 30) % 2 ^ 64 < now then .error "身份令牌已过期"
        else
          let want := (prims.hmacSha256 key (identityMessage runId user exp)).toList
          match unhex sig with
          | none => .error "身份令牌签名不是十六进制"
          | some got =>
            if got.length ≠ want.length then .error "身份令牌签名长度不对"
            else if constantTimeEq got want then .ok ()
            else .error "身份令牌签名不匹配"
  | _ => .error "身份令牌格式不对"

theorem verifyIdentity_empty (prims : Primitives) (key : List UInt8) (runId user : String) (now : Nat) :
    verifyIdentity prims key "" runId user now = .error "身份令牌格式不对" :=
  rfl

end Nfrp
