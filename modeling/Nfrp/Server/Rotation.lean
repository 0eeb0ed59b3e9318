import Nfrp.Lib.Runs
import Nfrp.Server.Work

/-!
# The keys of the identity provider

The server fetches the keys of the identity provider when it starts, and again
when a login fails while it has none.  A key that the provider publishes later is
never fetched.
-/

namespace Nfrp

open Lib

namespace OidcVerifier

/-- What of a token is checked without the keys. -/
structure InOrder (prims : Primitives) (cfg : ServerOidcConfig) (now : Nat) (token : String) (jwt : ParsedJwt) :
    Prop where
  parsed : parseJwt prims token = .ok jwt
  isSigned : eqIgnoreAsciiCase jwt.header.alg "none" = false
  supported : jwt.header.alg ∈ supportedAlgs
  claims : checkClaims cfg (asI64 now) jwt.payload = .ok ()

/-- A key that a token may be checked with, and that signed it. -/
structure Signs (prims : Primitives) (jwt : ParsedJwt) (k : Jwk) : Prop where
  named : jwt.header.kid.all (· = k.kid) = true
  alg : k.alg = "" ∨ eqIgnoreAsciiCase k.alg jwt.header.alg = true
  signed : prims.verifySignature k jwt.header.alg
    (bytesOf (String.ofList (jwt.headerB64 ++ '.' :: jwt.payloadB64))) jwt.signature = .ok true

variable {prims : Primitives} {v : OidcVerifier} {now : Nat} {token : String} {jwt : ParsedJwt}

/-- A key that signed the token is found, whatever comes before it. -/
theorem tryKeys_eq_ok_iff {keys : List Jwk} (named : ∀ k ∈ keys, jwt.header.kid.all (· = k.kid) = true)
    (lastErr : String) (payload : Json) :
    tryKeys prims v now jwt keys lastErr = .ok payload ↔
      (∃ k ∈ keys, Signs prims jwt k) ∧ checkClaims v.cfg (asI64 now) jwt.payload = .ok () ∧ jwt.payload = payload := by
  induction keys generalizing lastErr with
  | nil => exact ⟨fun same => (nomatch same), fun both => (nomatch both.1)⟩
  | cons k keys ih =>
    have later := fun e => ih (fun k member => named k (List.mem_cons_of_mem _ member)) e
    have skipped : ¬ Signs prims jwt k → ∀ e, tryKeys prims v now jwt keys e = .ok payload ↔
        (∃ k' ∈ k :: keys, Signs prims jwt k') ∧ checkClaims v.cfg (asI64 now) jwt.payload = .ok () ∧
          jwt.payload = payload := by
      intro notThis e
      rw [later e]
      simp only [List.mem_cons, exists_eq_or_imp, notThis, false_or]
    rw [tryKeys]
    split
    next otherAlg =>
      refine skipped (fun signs => ?_) lastErr
      rcases signs.alg with empty | same
      · exact otherAlg.1 empty
      · exact otherAlg.2 same
    next thisAlg =>
      dsimp only
      cases outcome : prims.verifySignature k jwt.header.alg
          (bytesOf (String.ofList (jwt.headerB64 ++ '.' :: jwt.payloadB64))) jwt.signature with
      | error e => exact skipped (fun signs => (nomatch outcome.symm.trans signs.signed)) e
      | ok isSigner =>
        cases isSigner with
        | false => exact skipped (fun signs => (nomatch outcome.symm.trans signs.signed)) _
        | true =>
          have fits : k.alg = "" ∨ eqIgnoreAsciiCase k.alg jwt.header.alg = true := by
            by_cases empty : k.alg = ""
            · exact .inl empty
            · exact .inr (by simpa [empty] using thisAlg)
          have signs : ∃ k' ∈ k :: keys, Signs prims jwt k' :=
            ⟨k, List.mem_cons_self, named k List.mem_cons_self, fits, outcome⟩
          rw [map_eq_ok_iff]
          exact ⟨fun ⟨_, claims, isPayload⟩ => ⟨signs, claims, isPayload⟩,
            fun ⟨_, claims, isPayload⟩ => ⟨(), claims, isPayload⟩⟩

theorem verifyToken_eq_ok_iff (payload : Json) :
    verifyToken prims v now token = .ok payload ↔
      ∃ jwt, InOrder prims v.cfg now token jwt ∧ jwt.payload = payload ∧
        ∃ keys, v.jwks = some keys ∧ ∃ k ∈ keys, Signs prims jwt k := by
  have tried : ∀ jwt (keys : List Jwk) lastErr,
      tryKeys prims v now jwt (keys.filter fun k => jwt.header.kid.all (· = k.kid)) lastErr = .ok payload ↔
        (∃ k ∈ keys, Signs prims jwt k) ∧ checkClaims v.cfg (asI64 now) jwt.payload = .ok () ∧
          jwt.payload = payload := by
    intro jwt keys lastErr
    rw [tryKeys_eq_ok_iff (fun k member => (List.mem_filter.mp member).2)]
    refine and_congr_left fun _ => exists_congr fun k => ?_
    rw [List.mem_filter]
    exact ⟨fun both => ⟨both.1.1, both.2⟩, fun both => ⟨⟨both.1, both.2.named⟩, both.2⟩⟩
  cases parsed : parseJwt prims token with
  | error e =>
    rw [verifyToken, parsed]
    refine ⟨by rintro ⟨⟩, ?_⟩
    rintro ⟨jwt, inOrder, -⟩
    cases parsed.symm.trans inOrder.parsed
  | ok jwt =>
    rw [verifyToken, parsed]
    simp only [bind, Except.bind, throw, throwThe, MonadExceptOf.throw]
    constructor
    · intro verified
      split at verified
      · cases verified
      next isSigned =>
        split at verified
        · cases verified
        next supported =>
          split at verified
          · cases verified
          next keys fetched =>
            split at verified
            · cases verified
            · obtain ⟨signs, claims, isPayload⟩ := (tried jwt keys _).mp verified
              exact ⟨jwt, ⟨parsed, by simpa using isSigned, not_not.mp supported, claims⟩, isPayload, keys, fetched, signs⟩
    · rintro ⟨other, inOrder, isPayload, keys, fetched, signs⟩
      obtain rfl := Except.ok.inj (parsed.symm.trans inOrder.parsed)
      rw [if_neg (by simp [inOrder.isSigned]), if_neg (not_not.mpr inOrder.supported), fetched]
      dsimp only
      rw [if_neg ?_]
      · exact (tried jwt keys _).mpr ⟨signs, inOrder.claims, isPayload⟩
      · obtain ⟨k, member, signer⟩ := signs
        rw [List.isEmpty_iff]
        exact List.ne_nil_of_mem (List.mem_filter.mpr ⟨member, signer.named⟩)

theorem subjectOf_eq_ok_iff (sub : String) :
    subjectOf prims v now token = .ok sub ↔
      ∃ jwt, InOrder prims v.cfg now token jwt ∧ (jwt.payload.get "sub").bind Json.asStr = some sub ∧
        ∃ keys, v.jwks = some keys ∧ ∃ k ∈ keys, Signs prims jwt k := by
  rw [subjectOf, bind_eq_ok_iff]
  constructor
  · rintro ⟨payload, verified, found⟩
    obtain ⟨jwt, inOrder, rfl, signed⟩ := (verifyToken_eq_ok_iff payload).mp verified
    refine ⟨jwt, inOrder, ?_, signed⟩
    split at found
    · cases found
    next other isSub => rw [isSub, Except.ok.inj found]
  · rintro ⟨jwt, inOrder, isSub, signed⟩
    refine ⟨jwt.payload, (verifyToken_eq_ok_iff _).mpr ⟨jwt, inOrder, rfl, signed⟩, ?_⟩
    rw [isSub]
    rfl

def Valid (prims : Primitives) (cfg : ServerOidcConfig) (now : Nat) (token : String) : Prop :=
  ∃ jwt, InOrder prims cfg now token jwt ∧ ((jwt.payload.get "sub").bind Json.asStr).isSome

def SignedBy (prims : Primitives) (keys : List Jwk) (token : String) : Prop :=
  ∃ jwt, parseJwt prims token = .ok jwt ∧ ∃ k ∈ keys, Signs prims jwt k

theorem exists_subjectOf_iff :
    (∃ sub, subjectOf prims v now token = .ok sub) ↔
      Valid prims v.cfg now token ∧ ∃ keys, v.jwks = some keys ∧ SignedBy prims keys token := by
  simp only [subjectOf_eq_ok_iff]
  constructor
  · rintro ⟨sub, jwt, inOrder, isSub, keys, fetched, signs⟩
    exact ⟨⟨jwt, inOrder, isSub ▸ rfl⟩, keys, fetched, jwt, inOrder.parsed, signs⟩
  · rintro ⟨⟨jwt, inOrder, hasSub⟩, keys, fetched, other, parsed, signs⟩
    obtain rfl := Except.ok.inj (inOrder.parsed.symm.trans parsed)
    obtain ⟨sub, isSub⟩ := Option.isSome_iff_exists.mp hasSub
    exact ⟨sub, jwt, inOrder, isSub, keys, fetched, signs⟩

end OidcVerifier

/-- What the identity provider publishes at the address its discovery names. -/
structure IdentityProvider where
  jwksUri : String
  keys : List Jwk

def OidcVerifier.refresh (v : OidcVerifier) (idp : IdentityProvider) : Except String OidcVerifier :=
  if idp.keys.isEmpty then .error s!"JWKS {idp.jwksUri} 里没有任何密钥" else .ok { v with jwks := some idp.keys }

/-- A server that takes the tokens of an identity provider, which can be reached. -/
structure OidcService where
  cfg : ServerOidcConfig
  maxClockSkewSecs : Nat
  auth : AuthProvider
  idp : IdentityProvider

namespace OidcService

open OidcVerifier

structure Login where
  now : Nat
  privilegeKey : String
  timestamp : Int
  runId : String

/-- A connection goes by the verifier there was when it arrived: `early` is one that
arrived when there was none. -/
inductive Event where
  | rotate (keys : List Jwk)
  | login (l : Login) (early : Bool)
  | refused
  | ended (runId : String)

def notFetched : AuthProvider :=
  .oidcUnavailable "JWKS 尚未拉取"

variable (prims : Primitives) (s : OidcService)

/-- A verifier that is there stays. -/
def refreshOidc : OidcService :=
  match s.auth with
  | .oidcUnavailable _ =>
    match OidcVerifier.refresh { cfg := s.cfg } s.idp with
    | .ok v => { s with auth := .oidc v }
    | .error _ => s
  | _ => s

/-- Whether the provider could be reached at the start is left open. -/
def start (cfg : ServerOidcConfig) (maxClockSkewSecs : Nat) (idp : IdentityProvider) (reached : Bool) : OidcService :=
  let s : OidcService := { cfg, maxClockSkewSecs, auth := notFetched, idp }
  if reached then s.refreshOidc else s

def verifyLogin (auth : AuthProvider) (l : Login) : Except String (String × AuthProvider) :=
  auth.verifyLogin prims l.now l.privilegeKey l.timestamp l.runId s.maxClockSkewSecs

def snapshot (early : Bool) : AuthProvider :=
  if early then notFetched else s.auth

def step : Event → OidcService
  | .rotate keys => { s with idp := { s.idp with keys } }
  | .login l early =>
    match s.verifyLogin prims (s.snapshot early) l with
    | .ok (_, auth) => { s with auth }
    | .error _ => s.refreshOidc
  | .refused => s.refreshOidc
  | .ended runId =>
    match s.auth with
    | .oidc v => { s with auth := .oidc (v.forgetSession runId) }
    | _ => s

def cached : Option (List Jwk) :=
  match s.auth with
  | .oidc v => v.jwks
  | _ => none

def Accepts (auth : AuthProvider) (l : Login) : Prop :=
  ∃ seen, s.verifyLogin prims auth l = .ok seen

def Fresh (l : Login) : Prop :=
  checkFreshness l.now l.timestamp s.maxClockSkewSecs "登录时间戳" = .ok ()

/-- A login that only lacks its key is followed by one that is let in, whenever the
same token is tried again, and no login is let in by a key the server does not have. -/
def Heals (s : OidcService) (event : Event) : Prop :=
  ∀ l early, event = .login l early →
    (s.Fresh l → Valid prims s.cfg l.now l.privilegeKey → SignedBy prims s.idp.keys l.privilegeKey →
      ¬ s.Accepts prims (s.snapshot early) l → ∀ (between : List Event) (again : Login),
        again.privilegeKey = l.privilegeKey → s.Fresh again → Valid prims s.cfg again.now again.privilegeKey →
          let later := run (step prims) (step prims s event) between
          later.Accepts prims later.auth again) ∧
    (s.Accepts prims (s.snapshot early) l → ∃ keys, s.cached = some keys ∧ SignedBy prims keys l.privilegeKey)

/-- Where a published key signed the token, the server has no keys yet, or has one
that did. -/
def Covered (s : OidcService) (event : Event) : Prop :=
  ∀ l early, event = .login l early → s.Fresh l → Valid prims s.cfg l.now l.privilegeKey →
    SignedBy prims s.idp.keys l.privilegeKey →
      s.cached = none ∨ ∃ keys, s.cached = some keys ∧ SignedBy prims keys l.privilegeKey

/-- A verifier has keys, and is the one of the configuration. -/
def Prepared : Prop :=
  match s.auth with
  | .oidc v => v.cfg = s.cfg ∧ v.jwks.isSome
  | .oidcUnavailable _ => True
  | .token _ => False

variable {prims s}

theorem not_accepts_unavailable (e : String) (l : Login) : ¬ s.Accepts prims (.oidcUnavailable e) l := by
  rintro ⟨seen, accepted⟩
  rw [verifyLogin, AuthProvider.verifyLogin] at accepted
  obtain ⟨_, -, accepted⟩ := bind_eq_ok_iff.mp accepted
  cases accepted

theorem verifyLogin_oidc_eq_ok {v : OidcVerifier} {l : Login} {seen : String × AuthProvider}
    (accepted : s.verifyLogin prims (.oidc v) l = .ok seen) :
    s.Fresh l ∧ (∃ sub, subjectOf prims v l.now l.privilegeKey = .ok sub) ∧
      ∃ subjects, seen.2 = .oidc { v with subjects } := by
  rw [verifyLogin, AuthProvider.verifyLogin] at accepted
  obtain ⟨_, fresh, accepted⟩ := bind_eq_ok_iff.mp accepted
  refine ⟨fresh, ?_⟩
  obtain ⟨⟨sub, after⟩, remembered, rfl⟩ := map_eq_ok_iff.mp accepted
  rw [rememberSubject] at remembered
  obtain ⟨owner, isSub, remembered⟩ := bind_eq_ok_iff.mp remembered
  refine ⟨⟨owner, isSub⟩, ?_⟩
  split at remembered
  · obtain ⟨-, rfl⟩ := Prod.mk.inj (Except.ok.inj remembered)
    exact ⟨v.subjects, rfl⟩
  · obtain ⟨-, rfl⟩ := Prod.mk.inj (Except.ok.inj remembered)
    exact ⟨_, rfl⟩

theorem accepts_oidc_iff {v : OidcVerifier} {l : Login} :
    s.Accepts prims (.oidc v) l ↔ s.Fresh l ∧ Valid prims v.cfg l.now l.privilegeKey ∧
      ∃ keys, v.jwks = some keys ∧ SignedBy prims keys l.privilegeKey := by
  rw [← exists_subjectOf_iff]
  constructor
  · rintro ⟨seen, accepted⟩
    exact ⟨(verifyLogin_oidc_eq_ok accepted).1, (verifyLogin_oidc_eq_ok accepted).2.1⟩
  · rintro ⟨fresh, sub, isSub⟩
    rw [Fresh] at fresh
    rw [Accepts, verifyLogin, AuthProvider.verifyLogin, fresh]
    simp only [rememberSubject, isSub, bind, Except.bind]
    split
    · exact ⟨(sub, .oidc v), rfl⟩
    · exact ⟨_, rfl⟩

theorem accepts_iff (prepared : s.Prepared) {l : Login} :
    s.Accepts prims s.auth l ↔ s.Fresh l ∧ Valid prims s.cfg l.now l.privilegeKey ∧
      ∃ keys, s.cached = some keys ∧ SignedBy prims keys l.privilegeKey := by
  rw [Prepared] at prepared
  rw [cached]
  cases auth : s.auth with
  | token secret => simp only [auth] at prepared
  | oidc v =>
    simp only [auth] at prepared
    rw [accepts_oidc_iff, prepared.1]
  | oidcUnavailable e =>
    exact ⟨fun accepted => absurd accepted (not_accepts_unavailable e l), fun ⟨_, _, _, same, _⟩ => (nomatch same)⟩

/-- Whatever a connection went by, it was not let in by a key that is not there. -/
theorem accepts_of_snapshot {early : Bool} {l : Login} (accepted : s.Accepts prims (s.snapshot early) l) :
    s.Accepts prims s.auth l := by
  cases early with
  | false => exact accepted
  | true => exact absurd accepted (not_accepts_unavailable _ l)

/-- What an event leaves alone, but for a fetch of the keys. -/
structure Kept (before after : OidcService) : Prop where
  cfg : after.cfg = before.cfg
  skew : after.maxClockSkewSecs = before.maxClockSkewSecs
  prepared : after.Prepared
  cached : ∀ keys, before.cached = some keys → after.cached = some keys

theorem Kept.refl (prepared : s.Prepared) : Kept s s :=
  ⟨rfl, rfl, prepared, fun _ there => there⟩

theorem Kept.trans {before between after : OidcService} (first : Kept before between) (second : Kept between after) :
    Kept before after :=
  ⟨second.cfg.trans first.cfg, second.skew.trans first.skew, second.prepared,
    fun keys there => second.cached keys (first.cached keys there)⟩

theorem refreshOidc_kept (prepared : s.Prepared) : Kept s s.refreshOidc := by
  rw [refreshOidc]
  split
  next e auth =>
    rw [OidcVerifier.refresh]
    split
    next fetch =>
      split at fetch
      · cases fetch
      · obtain rfl := Except.ok.inj fetch
        refine ⟨rfl, rfl, ⟨rfl, rfl⟩, fun keys there => ?_⟩
        rw [cached, auth] at there
        cases there
    · exact .refl prepared
  · exact .refl prepared

theorem cached_refreshOidc (prepared : s.Prepared) (notYet : s.cached = none) (some : s.idp.keys ≠ []) :
    s.refreshOidc.cached = .some s.idp.keys := by
  rw [Prepared] at prepared
  rw [cached] at notYet
  cases auth : s.auth with
  | token secret => simp only [auth] at prepared
  | oidc v =>
    simp only [auth] at prepared notYet
    rw [notYet] at prepared
    cases prepared.2
  | oidcUnavailable e =>
    simp only [refreshOidc, auth, OidcVerifier.refresh, List.isEmpty_iff, some, if_false, cached]

theorem step_kept (prepared : s.Prepared) (event : Event) : Kept s (step prims s event) := by
  cases event with
  | rotate keys => exact ⟨rfl, rfl, prepared, fun _ there => there⟩
  | refused => exact refreshOidc_kept prepared
  | ended runId =>
    rw [step]
    split
    next v auth =>
      simp only [Prepared, auth] at prepared
      refine ⟨rfl, rfl, prepared, fun keys there => ?_⟩
      rw [cached, auth] at there
      exact there
    · exact .refl prepared
  | login l early =>
    rw [step]
    split
    next sub after accepted =>
      cases early with
      | true => exact absurd ⟨_, accepted⟩ (not_accepts_unavailable _ l)
      | false =>
        rw [snapshot, if_neg Bool.false_ne_true] at accepted
        cases auth : s.auth with
        | token secret => simp only [Prepared, auth] at prepared
        | oidcUnavailable e =>
          rw [auth] at accepted
          exact absurd ⟨_, accepted⟩ (not_accepts_unavailable e l)
        | oidc v =>
          rw [auth] at accepted
          simp only [Prepared, auth] at prepared
          obtain ⟨subjects, isAfter⟩ := (verifyLogin_oidc_eq_ok accepted).2.2
          obtain rfl : after = .oidc { v with subjects } := isAfter
          refine ⟨rfl, rfl, prepared, fun keys there => ?_⟩
          rw [cached, auth] at there
          exact there
    · exact refreshOidc_kept prepared

theorem run_kept (prepared : s.Prepared) (events : List Event) : Kept s (run (step prims) s events) := by
  have preserved : ∀ (now : OidcService) (event : Event), Kept s now → Kept s (step prims now event) :=
    fun now event earlier => earlier.trans (step_kept earlier.prepared event)
  exact run_invariant preserved (.refl prepared) events

theorem prepared_start (cfg : ServerOidcConfig) (skew : Nat) (idp : IdentityProvider) (reached : Bool) :
    (start cfg skew idp reached).Prepared := by
  rw [start]
  cases reached with
  | false => exact trivial
  | true => exact (refreshOidc_kept (s := ⟨cfg, skew, notFetched, idp⟩) trivial).prepared

theorem step_login_of_refused {l : Login} {early : Bool} (refused : ¬ s.Accepts prims (s.snapshot early) l) :
    step prims s (.login l early) = s.refreshOidc := by
  rw [step]
  split
  next sub after accepted => exact absurd ⟨_, accepted⟩ refused
  · rfl

theorem refreshOidc_of_cached {keys : List Jwk} (there : s.cached = some keys) : s.refreshOidc = s := by
  rw [cached] at there
  rw [refreshOidc]
  split
  next auth =>
    rw [auth] at there
    cases there
  · rfl

/-- A step heals if and only if the key is there, or none is. -/
theorem heals_iff_covered (prepared : s.Prepared) (event : Event) : Heals prims s event ↔ Covered prims s event := by
  constructor
  · rintro heals l early rfl fresh valid signed
    cases there : s.cached with
    | none => exact .inl rfl
    | some keys =>
      refine .inr ⟨keys, rfl, ?_⟩
      have signedBy : ∀ early, s.Accepts prims (s.snapshot early) l → SignedBy prims keys l.privilegeKey := by
        intro early accepted
        obtain ⟨-, -, others, same, signs⟩ := (accepts_iff prepared).mp (accepts_of_snapshot accepted)
        obtain rfl := Option.some.inj (there.symm.trans same)
        exact signs
      by_cases accepted : s.Accepts prims (s.snapshot early) l
      · exact signedBy early accepted
      · have healed := (heals l early rfl).1 fresh valid signed accepted [] l rfl fresh valid
        simp only [run] at healed
        rw [step_login_of_refused accepted, refreshOidc_of_cached there] at healed
        exact signedBy false healed
  · rintro covered l early rfl
    refine ⟨fun fresh valid signed refused between again sameToken freshAgain validAgain => ?_, fun accepted => ?_⟩
    · have next : ∃ keys, (step prims s (.login l early)).cached = some keys ∧ SignedBy prims keys l.privilegeKey := by
        rw [step_login_of_refused refused]
        rcases covered l early rfl fresh valid signed with notYet | ⟨keys, there, signs⟩
        · refine ⟨s.idp.keys, cached_refreshOidc prepared notYet ?_, signed⟩
          obtain ⟨jwt, -, k, member, -⟩ := signed
          exact List.ne_nil_of_mem member
        · rw [refreshOidc_of_cached there]
          exact ⟨keys, there, signs⟩
      obtain ⟨keys, there, signs⟩ := next
      have kept : Kept s (step prims s (.login l early)) := step_kept prepared _
      have later : Kept _ (run (step prims) (step prims s (.login l early)) between) := run_kept kept.prepared between
      dsimp only
      rw [accepts_iff later.prepared]
      have total := kept.trans later
      rw [Fresh, total.skew, total.cfg]
      exact ⟨freshAgain, validAgain, keys, later.cached keys there, sameToken ▸ signs⟩
    · exact ((accepts_iff prepared).mp (accepts_of_snapshot accepted)).2.2

/-- In the runs in which every token with a published key finds that key with the
server, or finds it without keys, and in no others, the rotation of the keys heals
itself. -/
theorem heals_throughout_iff (prims : Primitives) (cfg : ServerOidcConfig) (skew : Nat) (idp : IdentityProvider)
    (reached : Bool) (events : List Event) :
    RunMeets (step prims) (Heals prims) (start cfg skew idp reached) events ↔
      RunMeets (step prims) (Covered prims) (start cfg skew idp reached) events := by
  have preserved : ∀ (s : OidcService) (event : Event), s.Prepared → (step prims s event).Prepared :=
    fun s event prepared => (step_kept prepared event).prepared
  exact runMeets_congr preserved (fun s event prepared => heals_iff_covered prepared event)
    (prepared_start cfg skew idp reached) events

def signedByNew : Primitives where
  md5 _ := .replicate 16 0
  sha256 _ := .replicate 32 0
  hmacSha256 _ _ := .replicate 32 0
  b64url text := .ok (bytesOf (String.ofList text))
  jwtHeader _ := .ok { alg := "RS256", kid := some "2026-02" }
  json _ := .ok (.object [("iss", .string "https://idp.example.com"), ("exp", .integer 1700003600), ("sub", .string "alice")])
  verifySignature k _ _ _ := .ok (k.kid == "2026-02")

def monthly : IdentityProvider where
  jwksUri := "https://idp.example.com/jwks"
  keys := [{ kty := "RSA", kid := "2026-01" }]

def newKeys : List Jwk := [{ kty := "RSA", kid := "2026-02" }]

def alice : Login where
  now := 1700000000
  privilegeKey := "header.payload.signature"
  timestamp := 1700000000
  runId := "6f1d2c0a9b8e47d3"

def aliceToken : ParsedJwt where
  header := { alg := "RS256", kid := some "2026-02" }
  headerB64 := "header".toList
  payloadB64 := "payload".toList
  payload :=
    .object [("iss", .string "https://idp.example.com"), ("exp", .integer 1700003600), ("sub", .string "alice")]
  signature := bytesOf "signature"

theorem not_heals_rotated :
    let s := run (step signedByNew) (start { issuer := "https://idp.example.com" } 300 monthly true) [.rotate newKeys]
    SignedBy signedByNew s.idp.keys alice.privilegeKey ∧ ¬ Heals signedByNew s (.login alice false) := by
  intro s
  have parsed : parseJwt signedByNew alice.privilegeKey = .ok aliceToken := by rfl
  have inOrder : InOrder signedByNew s.cfg alice.now alice.privilegeKey aliceToken :=
    ⟨parsed, by decide +kernel, by decide +kernel, by decide +kernel⟩
  have valid : Valid signedByNew s.cfg alice.now alice.privilegeKey := ⟨aliceToken, inOrder, rfl⟩
  have signed : SignedBy signedByNew s.idp.keys alice.privilegeKey :=
    ⟨aliceToken, parsed, _, List.mem_cons_self, ⟨by decide +kernel, .inl rfl, rfl⟩⟩
  have fresh : s.Fresh alice := by
    rw [Fresh]
    decide +kernel
  have notThere : ¬ s.Accepts signedByNew s.auth alice := by
    have prepared : s.Prepared := (run_kept (prepared_start ..) _).prepared
    rw [accepts_iff prepared]
    rintro ⟨-, -, keys, there, jwt, isToken, k, member, signs⟩
    obtain rfl := Option.some.inj there
    obtain rfl := List.mem_singleton.mp member
    cases signs.signed
  refine ⟨signed, fun heals => notThere ?_⟩
  have healed := (heals alice false rfl).1 fresh valid signed notThere [] alice rfl fresh valid
  simp only [run] at healed
  rw [step_login_of_refused notThere] at healed
  exact healed

end OidcService

end Nfrp
