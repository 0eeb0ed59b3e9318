import Nfrp.Lib.Numerals
import Nfrp.Lib.Utf8
import Nfrp.Server.Auth

/-!
# Tokens a peer presents

A token is split at its dots, its time is compared, and its hexadecimal parts are read
two bytes at a time, all before the signature is known to be right.  Where that cuts a
character in two, or the time overflows, there is no verdict.
-/

namespace Nfrp.Nlink

open Lib

abbrev ConnectionId := Vector UInt8 16

def parseTraceId (s : String) : Option (Option (List UInt8)) :=
  let clean := s.toList.filter (· ≠ '-')
  if utf8Length clean ≠ 32 then some none else unhexPairs clean 16 0

def checkSignature (what : String) (want : List UInt8) : Option (List UInt8) → Except String Unit
  | none => .error (what ++ "签名不是十六进制")
  | some got =>
    if got.length ≠ want.length then .error (what ++ "签名长度不对")
    else if constantTimeEq got want then .ok ()
    else .error (what ++ "签名不匹配")

/-- `verifyIdentity` with the sum and the slices it makes. -/
def verifyIdentityChecked (prims : Primitives) (key : List UInt8) (token runId user : String) (now : Nat) :
    Option (Except String Unit) :=
  match token.toList.splitOn '.' with
  | [version, exp, sig] =>
    if version ≠ "v1".toList then some (.error "身份令牌格式不对")
    else
      match parseUnsigned (2 ^ 64 - 1) exp with
      | none => some (.error "身份令牌过期时间不是数字")
      | some exp =>
        (checkedAdd 64 exp 30).bind fun limit =>
          if limit < now then some (.error "身份令牌已过期")
          else
            let want := (prims.hmacSha256 key (identityMessage runId user exp)).toList
            (unhexChecked sig).map (checkSignature "身份令牌" want)
  | _ => some (.error "身份令牌格式不对")

def resumeMessage (session : ConnectionId) (user clientId : String) (exp : Nat) (nonce : List UInt8) : List UInt8 :=
  bytesOf "nlink-resume-v1" ++ 0 :: session.toList ++ beBytes 8 exp ++ nonce ++ 0 :: bytesOf user ++ 0 :: bytesOf clientId

/-- The signature and the time of a token; that it is still to be used is not checked here. -/
def verifyResume (prims : Primitives) (key : List UInt8) (token : String) (session : ConnectionId)
    (user clientId : String) (now : Nat) : Option (Except String Unit) :=
  match token.toList.splitOn '.' with
  | [version, exp, nonceHex, sig] =>
    if version ≠ "r1".toList then some (.error "续传令牌格式不对")
    else
      match parseUnsigned (2 ^ 64 - 1) exp with
      | none => some (.error "续传令牌过期时间不是数字")
      | some exp =>
        (checkedAdd 64 exp 30).bind fun limit =>
          if limit < now then some (.error "续传令牌已过期")
          else
            (unhexChecked nonceHex).bind fun
              | none => some (.error "续传令牌 nonce 不是十六进制")
              | some nonce =>
                if nonce.length ≠ 16 then some (.error "续传令牌 nonce 长度不对")
                else
                  let want := (prims.hmacSha256 key (resumeMessage session user clientId exp nonce)).toList
                  (unhexChecked sig).map (checkSignature "续传令牌" want)
  | _ => some (.error "续传令牌格式不对")

/-- A token that can be used once; the nonce tells it from every other. -/
def issueResume (prims : Primitives) (key : List UInt8) (session : ConnectionId) (user clientId : String)
    (ttl now : Nat) (nonce : Vector UInt8 16) : Option String :=
  (checkedAdd 64 now (max ttl 1)).map fun exp =>
    let sig := prims.hmacSha256 key (resumeMessage session user clientId exp nonce.toList)
    String.ofList (['.'].intercalate ["r1".toList, Nat.toDigits 10 exp, hex nonce.toList, hex sig.toList])

/-- No pair of bytes of a text of whole pairs is half of a character. -/
def CutsWell (text : List Char) : Prop :=
  utf8Length text % 2 = 0 → ¬Straddled text

theorem isSome_unhexChecked (text : List Char) : (unhexChecked text).isSome ↔ CutsWell text := by
  rw [unhexChecked_eq, CutsWell]
  by_cases straddled : utf8Length text % 2 = 0 ∧ Straddled text
  · rw [if_pos straddled]
    simp [straddled.1, straddled.2]
  · rw [if_neg straddled]
    simpa using straddled

theorem unhexChecked_of_cutsWell {text : List Char} (cutsWell : CutsWell text) :
    unhexChecked text = some (unhex text) := by
  rw [unhexChecked_eq, if_neg fun straddled => cutsWell straddled.1 straddled.2]

def TraceIdSafe (s : String) : Prop :=
  utf8Length (s.toList.filter (· ≠ '-')) = 32 → ¬Straddled (s.toList.filter (· ≠ '-'))

def IdentitySafe (token : String) (now : Nat) : Prop :=
  match token.toList.splitOn '.' with
  | [version, exp, sig] =>
    version = "v1".toList → ∀ time ∈ parseUnsigned (2 ^ 64 - 1) exp,
      time + 30 < 2 ^ 64 ∧ (now ≤ time + 30 → CutsWell sig)
  | _ => True

def ResumeSafe (token : String) (now : Nat) : Prop :=
  match token.toList.splitOn '.' with
  | [version, exp, nonce, sig] =>
    version = "r1".toList → ∀ time ∈ parseUnsigned (2 ^ 64 - 1) exp,
      time + 30 < 2 ^ 64 ∧
        (now ≤ time + 30 → CutsWell nonce ∧ ∀ bytes ∈ unhex nonce, bytes.length = 16 → CutsWell sig)
  | _ => True

theorem isSome_parseTraceId (s : String) : (parseTraceId s).isSome ↔ TraceIdSafe s := by
  rw [parseTraceId, TraceIdSafe]
  generalize s.toList.filter (· ≠ '-') = clean
  by_cases whole : utf8Length clean = 32
  · rw [if_neg (not_not.mpr whole), unhexPairs_start, hexPairs_eq whole]
    by_cases straddled : Straddled clean
    · rw [if_pos straddled]
      simp [whole, straddled]
    · rw [if_neg straddled]
      simp [straddled]
  · rw [if_pos whole]
    simp [whole]

theorem unhexChecked_of_not_cutsWell {text : List Char} (cutsBadly : ¬CutsWell text) : unhexChecked text = none := by
  rw [← isSome_unhexChecked] at cutsBadly
  simpa using cutsBadly

theorem checkedAdd_of_not_lt {width first second : Nat} (overflows : ¬first + second < 2 ^ width) :
    checkedAdd width first second = none :=
  if_neg overflows

theorem checkSignature_identity (want : List UInt8) (read : Option (List UInt8)) :
    checkSignature "身份令牌" want read =
      match read with
      | none => .error "身份令牌签名不是十六进制"
      | some got =>
        if got.length ≠ want.length then .error "身份令牌签名长度不对"
        else if constantTimeEq got want then .ok ()
        else .error "身份令牌签名不匹配" := by
  cases read <;> rfl

theorem verifyIdentityChecked_eq (prims : Primitives) (key : List UInt8) (token runId user : String) (now : Nat) :
    verifyIdentityChecked prims key token runId user now = none ∧ ¬IdentitySafe token now ∨
      verifyIdentityChecked prims key token runId user now = some (verifyIdentity prims key token runId user now) ∧
        IdentitySafe token now := by
  rw [verifyIdentityChecked, verifyIdentity, IdentitySafe]
  generalize token.toList.splitOn '.' = parts
  rcases parts with _ | ⟨version, _ | ⟨exp, _ | ⟨sig, _ | ⟨more, parts⟩⟩⟩⟩
  · exact .inr ⟨rfl, trivial⟩
  · exact .inr ⟨rfl, trivial⟩
  · exact .inr ⟨rfl, trivial⟩
  · dsimp only
    by_cases other : version ≠ "v1".toList
    · rw [if_pos other, if_pos other]
      exact .inr ⟨rfl, fun same => absurd same other⟩
    rw [if_neg other, if_neg other]
    cases parsed : parseUnsigned (2 ^ 64 - 1) exp with
    | none => exact .inr ⟨rfl, fun _ => nofun⟩
    | some time =>
      simp only [not_not.mp other, Option.mem_some_iff, forall_eq', true_implies]
      by_cases overflows : ¬time + 30 < 2 ^ 64
      · rw [checkedAdd_of_not_lt overflows]
        exact .inl ⟨rfl, fun safe => overflows safe.1⟩
      have fits := not_not.mp overflows
      rw [checkedAdd_of_lt fits, Option.bind_some, Nat.mod_eq_of_lt fits]
      by_cases expired : time + 30 < now
      · rw [if_pos expired, if_pos expired]
        exact .inr ⟨rfl, fits, fun inTime => absurd expired (Nat.not_lt_of_le inTime)⟩
      rw [if_neg expired, if_neg expired]
      by_cases cutsWell : CutsWell sig
      · rw [unhexChecked_of_cutsWell cutsWell, Option.map_some, checkSignature_identity]
        exact .inr ⟨rfl, fits, fun _ => cutsWell⟩
      · rw [unhexChecked_of_not_cutsWell cutsWell]
        exact .inl ⟨rfl, fun safe => cutsWell (safe.2 (Nat.le_of_not_lt expired))⟩
  · exact .inr ⟨rfl, trivial⟩

theorem isSome_verifyIdentityChecked (prims : Primitives) (key : List UInt8) (token runId user : String) (now : Nat) :
    (verifyIdentityChecked prims key token runId user now).isSome ↔ IdentitySafe token now := by
  rcases verifyIdentityChecked_eq prims key token runId user now with ⟨noVerdict, notSafe⟩ | ⟨verdict, isSafe⟩
  · rw [noVerdict]
    exact ⟨nofun, fun safe => absurd safe notSafe⟩
  · rw [verdict]
    exact ⟨fun _ => isSafe, fun _ => rfl⟩

theorem isSome_verifyResume (prims : Primitives) (key : List UInt8) (token : String) (session : ConnectionId)
    (user clientId : String) (now : Nat) :
    (verifyResume prims key token session user clientId now).isSome ↔ ResumeSafe token now := by
  rw [verifyResume, ResumeSafe]
  generalize token.toList.splitOn '.' = parts
  rcases parts with _ | ⟨version, _ | ⟨exp, _ | ⟨nonceHex, _ | ⟨sig, _ | ⟨more, parts⟩⟩⟩⟩⟩
  · exact ⟨fun _ => trivial, fun _ => rfl⟩
  · exact ⟨fun _ => trivial, fun _ => rfl⟩
  · exact ⟨fun _ => trivial, fun _ => rfl⟩
  · exact ⟨fun _ => trivial, fun _ => rfl⟩
  · dsimp only
    by_cases other : version ≠ "r1".toList
    · rw [if_pos other]
      exact ⟨fun _ same => absurd same other, fun _ => rfl⟩
    rw [if_neg other]
    cases parsed : parseUnsigned (2 ^ 64 - 1) exp with
    | none => exact ⟨fun _ _ => nofun, fun _ => rfl⟩
    | some time =>
      simp only [not_not.mp other, Option.mem_some_iff, forall_eq', true_implies]
      by_cases overflows : ¬time + 30 < 2 ^ 64
      · rw [checkedAdd_of_not_lt overflows]
        exact ⟨nofun, fun safe => absurd safe.1 overflows⟩
      have fits := not_not.mp overflows
      rw [checkedAdd_of_lt fits, Option.bind_some]
      by_cases expired : time + 30 < now
      · rw [if_pos expired]
        exact ⟨fun _ => ⟨fits, fun inTime => absurd expired (Nat.not_lt_of_le inTime)⟩, fun _ => rfl⟩
      have inTime := Nat.le_of_not_lt expired
      rw [if_neg expired]
      by_cases cutsBadly : ¬CutsWell nonceHex
      · rw [unhexChecked_of_not_cutsWell cutsBadly]
        exact ⟨nofun, fun safe => absurd (safe.2 inTime).1 cutsBadly⟩
      have cutsWell := not_not.mp cutsBadly
      rw [unhexChecked_of_cutsWell cutsWell, Option.bind_some]
      cases unhex nonceHex with
      | none => exact ⟨fun _ => ⟨fits, fun _ => ⟨cutsWell, nofun⟩⟩, fun _ => rfl⟩
      | some nonce =>
        simp only [Option.mem_some_iff, forall_eq']
        by_cases otherLength : nonce.length ≠ 16
        · rw [if_pos otherLength]
          exact ⟨fun _ => ⟨fits, fun _ => ⟨cutsWell, fun same => absurd same otherLength⟩⟩, fun _ => rfl⟩
        rw [if_neg otherLength, Option.isSome_map, isSome_unhexChecked]
        exact ⟨fun sigWell => ⟨fits, fun _ => ⟨cutsWell, fun _ => sigWell⟩⟩,
          fun safe => (safe.2 inTime).2 (not_not.mp otherLength)⟩
  · exact ⟨fun _ => trivial, fun _ => rfl⟩

theorem isDigit_of_mem_hex {octets : List UInt8} {c : Char} (member : c ∈ hex octets) : ∃ n < 16, c = hexDigit n := by
  obtain ⟨octet, -, isOne⟩ := List.mem_flatMap.mp member
  have below := octet.toNat_lt
  rcases List.mem_cons.mp isOne with isHigh | isLow
  · exact ⟨octet.toNat / 16, by omega, isHigh⟩
  · exact ⟨octet.toNat % 16, by omega, List.mem_singleton.mp isLow⟩

theorem hexDigit_ne_dot {n : Nat} (digit : n < 16) : hexDigit n ≠ '.' := by
  revert n
  decide

theorem utf8Size_hexDigit {n : Nat} (digit : n < 16) : (hexDigit n).utf8Size = 1 :=
  utf8Size_of_hexValue (hexValue_hexDigit digit)

theorem noDot_hex (octets : List UInt8) : '.' ∉ hex octets := by
  intro member
  obtain ⟨n, digit, isDigit⟩ := isDigit_of_mem_hex member
  exact hexDigit_ne_dot digit isDigit.symm

theorem not_straddled_of_singles {text : List Char} (singles : ∀ c ∈ text, c.utf8Size = 1) : ¬Straddled text := by
  induction text using Straddled.induct with
  | case1 => exact id
  | case2 c =>
    rw [Straddled, singles c List.mem_cons_self]
    decide
  | case3 high low rest ih =>
    have isHigh := singles high List.mem_cons_self
    have isLow := singles low (List.mem_cons_of_mem _ List.mem_cons_self)
    have behind := ih fun c member => singles c (List.mem_cons_of_mem _ (List.mem_cons_of_mem _ member))
    rw [Straddled, isHigh, isLow]
    rintro (wide | half | later)
    · exact absurd wide (by decide)
    · exact absurd half.2 (by decide)
    · exact behind later.2

theorem unhexChecked_hex (octets : List UInt8) : unhexChecked (hex octets) = some (some octets) := by
  have singles : ∀ c ∈ hex octets, c.utf8Size = 1 := by
    intro c member
    obtain ⟨n, digit, isDigit⟩ := isDigit_of_mem_hex member
    exact isDigit ▸ utf8Size_hexDigit digit
  rw [unhexChecked_of_cutsWell fun _ => not_straddled_of_singles singles, unhex_hex]

theorem splitOn_issueResume {prims : Primitives} {key : List UInt8} {session : ConnectionId} {user clientId : String}
    {ttl now : Nat} {nonce : Vector UInt8 16} {token : String}
    (issued : issueResume prims key session user clientId ttl now nonce = some token) :
    ∃ exp sig, exp = now + max ttl 1 ∧ exp < 2 ^ 64 ∧
      sig = prims.hmacSha256 key (resumeMessage session user clientId exp nonce.toList) ∧
        token.toList.splitOn '.' = ["r1".toList, Nat.toDigits 10 exp, hex nonce.toList, hex sig.toList] := by
  obtain ⟨exp, sum, isToken⟩ := Option.map_eq_some_iff.mp issued
  rw [checkedAdd] at sum
  split at sum
  next fits =>
    obtain rfl := Option.some.inj sum
    refine ⟨_, _, rfl, fits, rfl, ?_⟩
    rw [← isToken, String.toList_ofList]
    refine List.splitOn_intercalate '.' ?_ (List.cons_ne_nil _ _)
    intro part isPart
    simp only [List.mem_cons, List.not_mem_nil, or_false] at isPart
    rcases isPart with rfl | rfl | rfl | rfl
    · decide
    · intro member
      exact absurd (isDigit_of_mem_toDigits (by decide) (by decide) _ '.' member) (by decide)
    · exact noDot_hex _
    · exact noDot_hex _
  · cases sum

/-- What was issued is good for whom it was issued to, up to half a minute past its time. -/
theorem verifyResume_issueResume {prims : Primitives} {key : List UInt8} {session : ConnectionId}
    {user clientId : String} {ttl now later : Nat} {nonce : Vector UInt8 16} {token : String}
    (issued : issueResume prims key session user clientId ttl now nonce = some token)
    (fits : now + max ttl 1 + 30 < 2 ^ 64) (inTime : later ≤ now + max ttl 1 + 30) :
    verifyResume prims key token session user clientId later = some (.ok ()) := by
  obtain ⟨exp, sig, rfl, small, isSig, parts⟩ := splitOn_issueResume issued
  have sameLength : nonce.toList.length = 16 := nonce.length_toList
  have below : now + max ttl 1 ≤ 2 ^ 64 - 1 := Nat.le_pred_of_lt small
  rw [verifyResume, parts]
  dsimp only
  rw [if_neg (not_not.mpr rfl), parseUnsigned_toDigits below]
  dsimp only
  rw [checkedAdd_of_lt fits, Option.bind_some, if_neg (Nat.not_lt_of_le inTime), unhexChecked_hex, Option.bind_some]
  dsimp only
  rw [if_neg (not_not.mpr sameLength), unhexChecked_hex, Option.map_some, ← isSig, checkSignature,
    if_neg (not_not.mpr rfl), if_pos (constantTimeEq_iff.mpr rfl)]

theorem verifyResume_issueResume_iff {prims : Primitives} {key : List UInt8} {session : ConnectionId}
    {user clientId : String} {ttl now later : Nat} {nonce : Vector UInt8 16} {token : String}
    (issued : issueResume prims key session user clientId ttl now nonce = some token) :
    verifyResume prims key token session user clientId later = some (.ok ()) ↔
      now + max ttl 1 + 30 < 2 ^ 64 ∧ later ≤ now + max ttl 1 + 30 := by
  constructor
  · intro verified
    obtain ⟨exp, sig, rfl, small, isSig, parts⟩ := splitOn_issueResume issued
    have below : now + max ttl 1 ≤ 2 ^ 64 - 1 := Nat.le_pred_of_lt small
    rw [verifyResume, parts] at verified
    dsimp only at verified
    rw [if_neg (not_not.mpr rfl), parseUnsigned_toDigits below] at verified
    dsimp only at verified
    obtain ⟨limit, sum, verified⟩ := Option.bind_eq_some_iff.mp verified
    rw [checkedAdd] at sum
    split at sum
    next fits =>
      obtain rfl := Option.some.inj sum
      split at verified
      · cases verified
      next inTime => exact ⟨fits, Nat.le_of_not_lt inTime⟩
    · cases sum
  · rintro ⟨fits, inTime⟩
    exact verifyResume_issueResume issued fits inTime

theorem nonce_of_issueResume {prims : Primitives} {key : List UInt8} {session other : ConnectionId}
    {user otherUser clientId otherId : String} {ttl now otherTtl later : Nat} {nonce otherNonce : Vector UInt8 16}
    {token : String} (issued : issueResume prims key session user clientId ttl now nonce = some token)
    (again : issueResume prims key other otherUser otherId otherTtl later otherNonce = some token) :
    nonce = otherNonce := by
  obtain ⟨exp, sig, -, -, -, parts⟩ := splitOn_issueResume issued
  obtain ⟨otherExp, otherSig, -, -, -, otherParts⟩ := splitOn_issueResume again
  have sameParts := parts.symm.trans otherParts
  simp only [List.cons.injEq, true_and, and_true] at sameParts
  have sameNonce := congrArg unhex sameParts.2.1
  rw [unhex_hex, unhex_hex, Option.some.injEq] at sameNonce
  exact Vector.toList_inj.mp sameNonce

/-- Each check comes to a verdict exactly where no pair of bytes it reads is half of a
character and the time it compares is a machine word. -/
theorem total_iff (prims : Primitives) (key : List UInt8) (s token runId user clientId : String)
    (session : ConnectionId) (now : Nat) :
    ((parseTraceId s).isSome ↔ TraceIdSafe s) ∧
      ((verifyIdentityChecked prims key token runId user now).isSome ↔ IdentitySafe token now) ∧
      ((verifyResume prims key token session user clientId now).isSome ↔ ResumeSafe token now) :=
  ⟨isSome_parseTraceId s, isSome_verifyIdentityChecked prims key token runId user now,
    isSome_verifyResume prims key token session user clientId now⟩

theorem not_total :
    parseTraceId "€€€€€€€€€€ab" = none ∧
      (∀ prims key runId user, verifyIdentityChecked prims key "v1.60.a€" runId user 0 = none) ∧
      (∀ prims key runId user, verifyIdentityChecked prims key "v1.18446744073709551615." runId user 0 = none) ∧
      ∀ prims key session user clientId, verifyResume prims key "r1.60.a€." session user clientId 0 = none := by
  refine ⟨by decide, ?_, ?_, ?_⟩
  · intro prims key runId user
    rfl
  · intro prims key runId user
    rfl
  · intro prims key session user clientId
    rfl

end Nfrp.Nlink
