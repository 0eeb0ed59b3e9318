import Nfrp.Lib.Tags
import Nfrp.Nlink.Tokens

/-!
# Which tokens are accepted

A token is made of a time, of a nonce where it is for one use, and of a code over these
and over whom it is for.  Who has no key has no codes but those of tokens that were
issued, so what is accepted is told by how many ways there are to sign the same message
and to write the same token.
-/

namespace Nfrp.Nlink

open Lib

def issueIdentity (prims : Primitives) (key : List UInt8) (runId user : String) (ttl now : Nat) : Option String :=
  (checkedAdd 64 now (max ttl 1)).map fun exp =>
    let mac := prims.hmacSha256 key (identityMessage runId user exp)
    String.ofList (['.'].intercalate ["v1".toList, Nat.toDigits 10 exp, hex mac.toList])

/-- The time as a number without a sign and the code in small letters. -/
def identityText (exp : Nat) (sig : List UInt8) : String :=
  String.ofList (['.'].intercalate ["v1".toList, Nat.toDigits 10 exp, hex sig])

def resumeText (exp : Nat) (nonce sig : List UInt8) : String :=
  String.ofList (['.'].intercalate ["r1".toList, Nat.toDigits 10 exp, hex nonce, hex sig])

def expiryOf (token : String) : Option Nat :=
  match token.toList.splitOn '.' with
  | _ :: exp :: _ => parseUnsigned (2 ^ 64 - 1) exp
  | _ => none

def signatureOf (token : String) : Option (List UInt8) :=
  (token.toList.splitOn '.').getLast?.bind unhex

theorem noDot_toDigits (n : Nat) : '.' ∉ Nat.toDigits 10 n := fun member =>
  absurd (isDigit_of_mem_toDigits (by decide) (by decide) n '.' member) (by decide)

theorem splitOn_identityText (exp : Nat) (sig : List UInt8) :
    (identityText exp sig).toList.splitOn '.' = ["v1".toList, Nat.toDigits 10 exp, hex sig] := by
  rw [identityText, String.toList_ofList]
  refine List.splitOn_intercalate '.' ?_ (List.cons_ne_nil _ _)
  intro part isPart
  simp only [List.mem_cons, List.not_mem_nil, or_false] at isPart
  rcases isPart with rfl | rfl | rfl
  · decide
  · exact noDot_toDigits exp
  · exact noDot_hex sig

theorem splitOn_resumeText (exp : Nat) (nonce sig : List UInt8) :
    (resumeText exp nonce sig).toList.splitOn '.' = ["r1".toList, Nat.toDigits 10 exp, hex nonce, hex sig] := by
  rw [resumeText, String.toList_ofList]
  refine List.splitOn_intercalate '.' ?_ (List.cons_ne_nil _ _)
  intro part isPart
  simp only [List.mem_cons, List.not_mem_nil, or_false] at isPart
  rcases isPart with rfl | rfl | rfl | rfl
  · decide
  · exact noDot_toDigits exp
  · exact noDot_hex nonce
  · exact noDot_hex sig

theorem checkSignature_eq_ok_iff {what : String} {want : List UInt8} {read : Option (List UInt8)} :
    checkSignature what want read = .ok () ↔ read = some want := by
  cases read with
  | none => exact ⟨by rintro ⟨⟩, by rintro ⟨⟩⟩
  | some got =>
    rw [checkSignature]
    split
    next other => exact ⟨by rintro ⟨⟩, fun same => absurd (congrArg List.length (Option.some.inj same)) other⟩
    split
    next equal => exact iff_of_true rfl (congrArg some (constantTimeEq_iff.mp equal))
    next differs => exact ⟨by rintro ⟨⟩, fun same => absurd (constantTimeEq_iff.mpr (Option.some.inj same)) differs⟩

theorem unhex_of_unhexChecked {text : List Char} {octets : List UInt8} (read : unhexChecked text = some (some octets)) :
    unhex text = some octets := by
  rw [unhexChecked_eq] at read
  split at read
  · cases read
  · exact Option.some.inj read

theorem checkSignature_unhexChecked {what : String} {want : List UInt8} {sig : List Char}
    (isOk : (unhexChecked sig).map (checkSignature what want) = some (.ok ())) : unhex sig = some want := by
  obtain ⟨read, isRead, isOk⟩ := Option.map_eq_some_iff.mp isOk
  obtain rfl := checkSignature_eq_ok_iff.mp isOk
  exact unhex_of_unhexChecked isRead

theorem exists_of_verifyIdentityChecked {prims : Primitives} {key : List UInt8} {token runId user : String} {now : Nat}
    (verified : verifyIdentityChecked prims key token runId user now = some (.ok ())) :
    ∃ exp, expiryOf token = some exp ∧ exp < 2 ^ 64 ∧
      signatureOf token = some (prims.hmacSha256 key (identityMessage runId user exp)).toList := by
  rw [verifyIdentityChecked] at verified
  rw [expiryOf, signatureOf]
  split at verified
  next version text sig isSplit =>
    rw [isSplit]
    split at verified
    · cases verified
    split at verified
    · cases verified
    next exp isExp =>
      obtain ⟨limit, sum, verified⟩ := Option.bind_eq_some_iff.mp verified
      rw [checkedAdd] at sum
      split at sum
      next fits =>
        split at verified
        · cases verified
        · exact ⟨exp, isExp, by omega, checkSignature_unhexChecked verified⟩
      · cases sum
  · cases verified

/-- The time, the nonce and the code that an accepted token is read as. -/
theorem exists_of_verifyResume {prims : Primitives} {key : List UInt8} {token : String} {session : ConnectionId}
    {user clientId : String} {now : Nat}
    (verified : verifyResume prims key token session user clientId now = some (.ok ())) :
    ∃ exp, ∃ nonce : Vector UInt8 16, expiryOf token = some exp ∧ exp < 2 ^ 64 ∧
      signatureOf token = some (prims.hmacSha256 key (resumeMessage session user clientId exp nonce.toList)).toList ∧
      ∀ plainExp plainNonce plainSig, token = resumeText plainExp plainNonce plainSig → plainNonce = nonce.toList := by
  rw [verifyResume] at verified
  rw [expiryOf, signatureOf]
  split at verified
  next version text nonceHex sig isSplit =>
    rw [isSplit]
    split at verified
    · cases verified
    split at verified
    · cases verified
    next exp isExp =>
      obtain ⟨limit, sum, verified⟩ := Option.bind_eq_some_iff.mp verified
      rw [checkedAdd] at sum
      split at sum
      next fits =>
        split at verified
        · cases verified
        obtain ⟨read, isRead, verified⟩ := Option.bind_eq_some_iff.mp verified
        split at verified
        · cases verified
        next nonce =>
          split at verified
          · cases verified
          next isLong =>
            have isVector : (⟨nonce.toArray, by simpa using isLong⟩ : Vector UInt8 16).toList = nonce := rfl
            refine ⟨exp, ⟨nonce.toArray, by simpa using isLong⟩, isExp, by omega, ?_, ?_⟩
            · rw [isVector]
              exact checkSignature_unhexChecked verified
            · intro plainExp plainNonce plainSig isText
              rw [isText, splitOn_resumeText] at isSplit
              obtain ⟨-, -, isNonce, -⟩ := by simpa only [List.cons.injEq] using isSplit
              have read := unhex_of_unhexChecked isRead
              rw [← isNonce, unhex_hex] at read
              rw [isVector]
              exact Option.some.inj read
      · cases sum
  · cases verified

structure IdentityCall where
  runId : String
  user : String
  ttl : Nat
  now : Nat
  fits : now + max ttl 1 < 2 ^ 64

structure ResumeCall where
  session : ConnectionId
  user : String
  clientId : String
  ttl : Nat
  now : Nat
  nonce : Vector UInt8 16
  fits : now + max ttl 1 < 2 ^ 64

def IdentityCall.exp (call : IdentityCall) : Nat := call.now + max call.ttl 1

def ResumeCall.exp (call : ResumeCall) : Nat := call.now + max call.ttl 1

def IdentityCall.message (call : IdentityCall) : List UInt8 :=
  identityMessage call.runId call.user call.exp

def ResumeCall.message (call : ResumeCall) : List UInt8 :=
  resumeMessage call.session call.user call.clientId call.exp call.nonce.toList

theorem IdentityCall.exp_ne_zero (call : IdentityCall) : call.exp ≠ 0 := by
  have atLeast := le_max_right call.ttl 1
  rw [IdentityCall.exp]
  omega

theorem ResumeCall.exp_ne_zero (call : ResumeCall) : call.exp ≠ 0 := by
  have atLeast := le_max_right call.ttl 1
  rw [ResumeCall.exp]
  omega

def IdentityCall.Returned (prims : Primitives) (key : List UInt8) (call : IdentityCall) (token : String) : Prop :=
  issueIdentity prims key call.runId call.user call.ttl call.now = some token

def ResumeCall.Returned (prims : Primitives) (key : List UInt8) (call : ResumeCall) (token : String) : Prop :=
  issueResume prims key call.session call.user call.clientId call.ttl call.now call.nonce = some token

theorem IdentityCall.returns_iff {prims : Primitives} {key : List UInt8} {call : IdentityCall} {token : String} :
    call.Returned prims key token ↔ token = identityText call.exp (prims.hmacSha256 key call.message).toList := by
  rw [Returned, issueIdentity, checkedAdd_of_lt call.fits, Option.map_some, Option.some_inj]
  exact eq_comm

theorem ResumeCall.returns_iff {prims : Primitives} {key : List UInt8} {call : ResumeCall} {token : String} :
    call.Returned prims key token ↔
      token = resumeText call.exp call.nonce.toList (prims.hmacSha256 key call.message).toList := by
  rw [Returned, issueResume, checkedAdd_of_lt call.fits, Option.map_some, Option.some_inj]
  exact eq_comm

theorem beBytes_inj {first second : Nat} (isShort : first < 2 ^ 64) (alsoShort : second < 2 ^ 64)
    (same : beBytes 8 first = beBytes 8 second) : first = second := by
  have numbers := congrArg ofBeBytes same
  rwa [ofBeBytes_beBytes_of_lt isShort, ofBeBytes_beBytes_of_lt alsoShort] at numbers

theorem identityMessage_eq (runId user : String) (exp : Nat) :
    identityMessage runId user exp =
      (bytesOf "nlink-identity-v1" ++ [0]) ++ ((bytesOf runId ++ 0 :: bytesOf user) ++ 0 :: beBytes 8 exp) := by
  simp only [identityMessage, List.append_assoc, List.cons_append, List.nil_append]

theorem identityMessage_inj {runId user otherRunId otherUser : String} {exp other : Nat} (isShort : exp < 2 ^ 64)
    (alsoShort : other < 2 ^ 64) (same : identityMessage otherRunId otherUser other = identityMessage runId user exp) :
    other = exp ∧ bytesOf otherRunId ++ 0 :: bytesOf otherUser = bytesOf runId ++ 0 :: bytesOf user := by
  rw [identityMessage_eq, identityMessage_eq] at same
  obtain ⟨texts, times⟩ := List.append_inj' (List.append_cancel_left same)
    (by rw [List.length_cons, List.length_cons, length_beBytes, length_beBytes])
  exact ⟨beBytes_inj alsoShort isShort (List.cons.inj times).2, texts⟩

theorem identityMessage_congr {runId user otherRunId otherUser : String} (exp : Nat)
    (same : bytesOf otherRunId ++ 0 :: bytesOf otherUser = bytesOf runId ++ 0 :: bytesOf user) :
    identityMessage otherRunId otherUser exp = identityMessage runId user exp := by
  rw [identityMessage_eq, identityMessage_eq, same]

theorem resumeMessage_eq (session : ConnectionId) (user clientId : String) (exp : Nat) (nonce : List UInt8) :
    resumeMessage session user clientId exp nonce =
      (bytesOf "nlink-resume-v1" ++ [0]) ++ (session.toList ++ (beBytes 8 exp ++ (nonce ++
        (0 :: (bytesOf user ++ 0 :: bytesOf clientId))))) := by
  simp only [resumeMessage, List.append_assoc, List.cons_append, List.nil_append]

theorem resumeMessage_inj {session otherSession : ConnectionId} {user clientId otherUser otherId : String} {exp other : Nat}
    {nonce otherNonce : Vector UInt8 16} (isShort : exp < 2 ^ 64) (alsoShort : other < 2 ^ 64)
    (same : resumeMessage otherSession otherUser otherId other otherNonce.toList =
      resumeMessage session user clientId exp nonce.toList) :
    otherSession = session ∧ other = exp ∧ otherNonce = nonce ∧
      bytesOf otherUser ++ 0 :: bytesOf otherId = bytesOf user ++ 0 :: bytesOf clientId := by
  rw [resumeMessage_eq, resumeMessage_eq] at same
  obtain ⟨sessions, rest⟩ := List.append_inj (List.append_cancel_left same) (by rw [Vector.length_toList, Vector.length_toList])
  obtain ⟨times, rest⟩ := List.append_inj rest (by rw [length_beBytes, length_beBytes])
  obtain ⟨nonces, rest⟩ := List.append_inj rest (by rw [Vector.length_toList, Vector.length_toList])
  exact ⟨Vector.toList_inj.mp sessions, beBytes_inj alsoShort isShort times, Vector.toList_inj.mp nonces,
    (List.cons.inj rest).2⟩

theorem resumeMessage_congr {user clientId otherUser otherId : String} (session : ConnectionId) (exp : Nat)
    (nonce : List UInt8) (same : bytesOf otherUser ++ 0 :: bytesOf otherId = bytesOf user ++ 0 :: bytesOf clientId) :
    resumeMessage session otherUser otherId exp nonce = resumeMessage session user clientId exp nonce := by
  rw [resumeMessage_eq, resumeMessage_eq, same]

/-- Whatever tokens were issued, what is accepted for a session and a user is one of them, for
this session and this user and before its time is over. -/
def IdentityGenuine (prims : Primitives) (key : List UInt8) (token runId user : String) (now : Nat) : Prop :=
  verifyIdentityChecked prims key token runId user now = some (.ok ()) →
    ∀ calls : List IdentityCall, (∀ sig ∈ signatureOf token,
        Unforged (fun message => (prims.hmacSha256 key message).toList) (calls.map IdentityCall.message) sig) →
      ∃ call ∈ calls, call.runId = runId ∧ call.user = user ∧ call.Returned prims key token ∧ now ≤ call.exp

def ResumeGenuine (prims : Primitives) (key : List UInt8) (token : String) (session : ConnectionId)
    (user clientId : String) (now : Nat) : Prop :=
  verifyResume prims key token session user clientId now = some (.ok ()) →
    ∀ calls : List ResumeCall, (∀ sig ∈ signatureOf token,
        Unforged (fun message => (prims.hmacSha256 key message).toList) (calls.map ResumeCall.message) sig) →
      ∃ call ∈ calls, call.session = session ∧ call.user = user ∧ call.clientId = clientId ∧
        call.Returned prims key token ∧ now ≤ call.exp

/-- The token is written as tokens are issued, its time is not over, and whom it is for has no zero in a name. -/
def IdentityStrict (token runId user : String) (now : Nat) : Prop :=
  ∀ exp ∈ expiryOf token, exp ≠ 0 → now ≤ exp ∧ Separable runId user ∧ ∃ sig, token = identityText exp sig

def ResumeStrict (token user clientId : String) (now : Nat) : Prop :=
  ∀ exp ∈ expiryOf token, exp ≠ 0 → now ≤ exp ∧ Separable user clientId ∧ ∃ nonce sig, token = resumeText exp nonce sig

theorem signatureOf_identityText (exp : Nat) (sig : List UInt8) : signatureOf (identityText exp sig) = some sig := by
  rw [signatureOf, splitOn_identityText]
  exact unhex_hex sig

theorem signatureOf_resumeText (exp : Nat) (nonce sig : List UInt8) :
    signatureOf (resumeText exp nonce sig) = some sig := by
  rw [signatureOf, splitOn_resumeText]
  exact unhex_hex sig

/-- A token that is issued at the beginning of time is good until the end of its life. -/
theorem zero_add_max_one {exp : Nat} (positive : exp ≠ 0) : 0 + max exp 1 = exp := by
  rw [Nat.zero_add]
  exact max_eq_left (Nat.pos_of_ne_zero positive)

theorem identityGenuine_iff {prims : Primitives} {key : List UInt8} {runId user : String}
    (sole : ∀ exp, Sole (fun message => (prims.hmacSha256 key message).toList) (identityMessage runId user exp))
    (token : String) (now : Nat) :
    IdentityGenuine prims key token runId user now ↔
      (verifyIdentityChecked prims key token runId user now = some (.ok ()) → IdentityStrict token runId user now) := by
  refine forall_congr' fun verified => ?_
  obtain ⟨exp, isExp, isShort, isSig⟩ := exists_of_verifyIdentityChecked verified
  rw [IdentityStrict, isExp, isSig]
  simp only [Option.mem_some_iff, forall_eq']
  rw [forall_unforged_iff (sole exp)]
  constructor
  · intro allGood positive
    have isExp := zero_add_max_one positive
    have fits : 0 + max exp 1 < 2 ^ 64 := isExp.symm ▸ isShort
    have signs : ∀ c d : String, bytesOf c ++ 0 :: bytesOf d = bytesOf runId ++ 0 :: bytesOf user →
        IdentityCall.message ⟨c, d, exp, 0, fits⟩ = identityMessage runId user exp := by
      intro c d same
      rw [IdentityCall.message, IdentityCall.exp, isExp]
      exact identityMessage_congr exp same
    obtain ⟨-, -, returned, inTime⟩ := allGood ⟨runId, user, exp, 0, fits⟩ (signs runId user rfl)
    rw [IdentityCall.returns_iff] at returned
    rw [IdentityCall.exp, isExp] at returned inTime
    refine ⟨inTime, (separable_iff runId user).mpr fun c d same => ?_, _, returned⟩
    obtain ⟨sameRunId, sameUser, -⟩ := allGood ⟨c, d, exp, 0, fits⟩ (signs c d same)
    exact ⟨sameRunId, sameUser⟩
  · intro strict call signs
    obtain ⟨sameExp, sameBytes⟩ := identityMessage_inj isShort call.fits signs
    have callExp : call.exp = exp := sameExp
    obtain ⟨inTime, separable, sig, isText⟩ := strict (callExp ▸ call.exp_ne_zero)
    obtain ⟨sameRunId, sameUser⟩ := (separable_iff runId user).mp separable _ _ sameBytes
    refine ⟨sameRunId, sameUser, IdentityCall.returns_iff.mpr ?_, callExp ▸ inTime⟩
    rw [isText, signatureOf_identityText] at isSig
    rw [isText, Option.some.inj isSig, callExp, signs]

theorem resumeGenuine_iff {prims : Primitives} {key : List UInt8} {session : ConnectionId} {user clientId : String}
    (sole : ∀ exp, ∀ nonce : Vector UInt8 16, Sole (fun message => (prims.hmacSha256 key message).toList)
      (resumeMessage session user clientId exp nonce.toList))
    (token : String) (now : Nat) :
    ResumeGenuine prims key token session user clientId now ↔
      (verifyResume prims key token session user clientId now = some (.ok ()) →
        ResumeStrict token user clientId now) := by
  refine forall_congr' fun verified => ?_
  obtain ⟨exp, nonce, isExp, isShort, isSig, isNonce⟩ := exists_of_verifyResume verified
  rw [ResumeStrict, isExp, isSig]
  simp only [Option.mem_some_iff, forall_eq']
  rw [forall_unforged_iff (sole exp nonce)]
  constructor
  · intro allGood positive
    have isExp := zero_add_max_one positive
    have fits : 0 + max exp 1 < 2 ^ 64 := isExp.symm ▸ isShort
    have signs : ∀ c d : String, bytesOf c ++ 0 :: bytesOf d = bytesOf user ++ 0 :: bytesOf clientId →
        ResumeCall.message ⟨session, c, d, exp, 0, nonce, fits⟩ =
          resumeMessage session user clientId exp nonce.toList := by
      intro c d same
      rw [ResumeCall.message, ResumeCall.exp, isExp]
      exact resumeMessage_congr session exp nonce.toList same
    obtain ⟨-, -, -, returned, inTime⟩ :=
      allGood ⟨session, user, clientId, exp, 0, nonce, fits⟩ (signs user clientId rfl)
    rw [ResumeCall.returns_iff] at returned
    rw [ResumeCall.exp, isExp] at returned inTime
    refine ⟨inTime, (separable_iff user clientId).mpr fun c d same => ?_, _, _, returned⟩
    obtain ⟨-, sameUser, sameId, -⟩ := allGood ⟨session, c, d, exp, 0, nonce, fits⟩ (signs c d same)
    exact ⟨sameUser, sameId⟩
  · intro strict call signs
    obtain ⟨sameSession, sameExp, sameNonce, sameBytes⟩ := resumeMessage_inj isShort call.fits signs
    have callExp : call.exp = exp := sameExp
    obtain ⟨inTime, separable, plainNonce, sig, isText⟩ := strict (callExp ▸ call.exp_ne_zero)
    obtain ⟨sameUser, sameId⟩ := (separable_iff user clientId).mp separable _ _ sameBytes
    refine ⟨sameSession, sameUser, sameId, ResumeCall.returns_iff.mpr ?_, callExp ▸ inTime⟩
    have isPlain := isNonce _ _ _ isText
    rw [isText, signatureOf_resumeText] at isSig
    rw [isText, Option.some.inj isSig, callExp, signs, isPlain, sameNonce]

/-- Where no other message has the code of one for this session and user, tokens are genuine
exactly where every token that is accepted is written as tokens are issued, its time is not over
and the names have no zero in them. -/
theorem genuine (prims : Primitives) (key : List UInt8) :
    (∀ runId user : String,
        (∀ exp, Sole (fun message => (prims.hmacSha256 key message).toList) (identityMessage runId user exp)) →
      ∀ token now, IdentityGenuine prims key token runId user now ↔
        (verifyIdentityChecked prims key token runId user now = some (.ok ()) →
          IdentityStrict token runId user now)) ∧
      ∀ (session : ConnectionId) (user clientId : String),
        (∀ exp, ∀ nonce : Vector UInt8 16, Sole (fun message => (prims.hmacSha256 key message).toList)
          (resumeMessage session user clientId exp nonce.toList)) →
        ∀ token now, ResumeGenuine prims key token session user clientId now ↔
          (verifyResume prims key token session user clientId now = some (.ok ()) →
            ResumeStrict token user clientId now) :=
  ⟨fun _ _ => identityGenuine_iff, fun _ _ _ => resumeGenuine_iff⟩

/-- A code that is what a message has between a front and a back, and nothing for other messages. -/
def spanCode (front back : List UInt8) (width : Nat) (message : List UInt8) : Vector UInt8 32 :=
  let span := (message.drop front.length).take width
  if message = front ++ (span ++ back) ∧ span.length = width then
    .ofFn fun i => if i.val = 0 then 1 else span[i.val - 1]?.getD 0
  else .replicate 32 0

theorem spanCode_of_span {front back span : List UInt8} :
    spanCode front back span.length (front ++ (span ++ back)) =
      .ofFn fun i => if i.val = 0 then 1 else span[i.val - 1]?.getD 0 := by
  have isSpan : ((front ++ (span ++ back)).drop front.length).take span.length = span := by
    rw [List.drop_left, List.take_left]
  rw [spanCode, isSpan, if_pos ⟨rfl, rfl⟩]

theorem sole_spanCode {front back span : List UInt8} (short : span.length ≤ 31) :
    Sole (fun message => (spanCode front back span.length message).toList) (front ++ (span ++ back)) := by
  intro other same
  have sameCode := Vector.toList_inj.mp same
  rw [spanCode_of_span, spanCode] at sameCode
  split at sameCode
  next whole =>
    obtain ⟨isOther, isWide⟩ := whole
    generalize (other.drop front.length).take span.length = found at isOther isWide sameCode
    have sameSpan : found = span := by
      refine List.ext_getElem isWide fun i below alsoBelow => ?_
      have entry := congrArg (fun code => code[i + 1]?.getD 0) sameCode
      have room : i + 1 < 32 := by omega
      simp only [Vector.getElem?_eq_getElem room, Option.getD_some, Vector.getElem_ofFn, Nat.add_sub_cancel,
        List.getElem?_eq_getElem below, List.getElem?_eq_getElem alsoBelow] at entry
      simpa using entry
    rw [isOther, sameSpan]
  next =>
    have first := congrArg (fun code => code[0]?.getD 0) sameCode
    simp at first

def spanPrimitives (front back : List UInt8) (width : Nat) : Primitives where
  md5 _ := .replicate 16 0
  sha256 _ := .replicate 32 0
  hmacSha256 _ := spanCode front back width
  b64url _ := .error "不是 base64url"
  jwtHeader _ := .error "不是 JWT"
  json _ := .error "不是 JSON"
  verifySignature _ _ _ _ := .ok false

def identityCodes (runId user : String) : Primitives :=
  spanPrimitives (bytesOf "nlink-identity-v1" ++ [0] ++ (bytesOf runId ++ 0 :: bytesOf user) ++ [0]) [] 8

theorem sole_identityCodes (key : List UInt8) (runId user : String) (exp : Nat) :
    Sole (fun message => ((identityCodes runId user).hmacSha256 key message).toList) (identityMessage runId user exp) := by
  have isMessage : identityMessage runId user exp =
      (bytesOf "nlink-identity-v1" ++ [0] ++ (bytesOf runId ++ 0 :: bytesOf user) ++ [0]) ++ (beBytes 8 exp ++ []) := by
    simp only [identityMessage, List.append_assoc, List.cons_append, List.nil_append, List.append_nil]
  have isWide : (beBytes 8 exp).length = 8 := length_beBytes 8 exp
  have sole := @sole_spanCode (bytesOf "nlink-identity-v1" ++ [0] ++ (bytesOf runId ++ 0 :: bytesOf user) ++ [0]) []
    (beBytes 8 exp) (by rw [isWide]; decide)
  rw [isWide, ← isMessage] at sole
  exact sole

def resumeCodes (session : ConnectionId) (user clientId : String) : Primitives :=
  spanPrimitives (bytesOf "nlink-resume-v1" ++ [0] ++ session.toList) (0 :: (bytesOf user ++ 0 :: bytesOf clientId)) 24

theorem sole_resumeCodes (key : List UInt8) (session : ConnectionId) (user clientId : String) (exp : Nat)
    (nonce : Vector UInt8 16) :
    Sole (fun message => ((resumeCodes session user clientId).hmacSha256 key message).toList)
      (resumeMessage session user clientId exp nonce.toList) := by
  have isMessage : resumeMessage session user clientId exp nonce.toList =
      (bytesOf "nlink-resume-v1" ++ [0] ++ session.toList) ++ ((beBytes 8 exp ++ nonce.toList) ++
        (0 :: (bytesOf user ++ 0 :: bytesOf clientId))) := by
    simp only [resumeMessage, List.append_assoc, List.cons_append, List.nil_append]
  have isWide : (beBytes 8 exp ++ nonce.toList).length = 24 := by
    rw [List.length_append, length_beBytes, Vector.length_toList]
  have sole := @sole_spanCode (bytesOf "nlink-resume-v1" ++ [0] ++ session.toList)
    (0 :: (bytesOf user ++ 0 :: bytesOf clientId)) (beBytes 8 exp ++ nonce.toList) (by rw [isWide]; decide)
  rw [isWide, ← isMessage] at sole
  exact sole

/-- A token with the code of its message and a time that is written in any way. -/
def spelt (prims : Primitives) (key : List UInt8) (runId user : String) (exp : Nat) (text : List Char) : String :=
  String.ofList (['.'].intercalate ["v1".toList, text, hex (prims.hmacSha256 key (identityMessage runId user exp)).toList])

variable {prims : Primitives} {key : List UInt8} {runId user : String} {exp now : Nat} {text : List Char}

theorem splitOn_spelt (noDot : '.' ∉ text) : (spelt prims key runId user exp text).toList.splitOn '.' =
    ["v1".toList, text, hex (prims.hmacSha256 key (identityMessage runId user exp)).toList] := by
  rw [spelt, String.toList_ofList]
  refine List.splitOn_intercalate '.' ?_ (List.cons_ne_nil _ _)
  intro part isPart
  simp only [List.mem_cons, List.not_mem_nil, or_false] at isPart
  rcases isPart with rfl | rfl | rfl
  · decide
  · exact noDot
  · exact noDot_hex _

theorem verifyIdentityChecked_spelt (noDot : '.' ∉ text) (isTime : parseUnsigned (2 ^ 64 - 1) text = some exp)
    (fits : exp + 30 < 2 ^ 64) (inTime : now ≤ exp + 30) :
    verifyIdentityChecked prims key (spelt prims key runId user exp text) runId user now = some (.ok ()) := by
  rw [verifyIdentityChecked, splitOn_spelt noDot]
  dsimp only
  rw [if_neg (not_not.mpr rfl), isTime]
  dsimp only
  rw [checkedAdd_of_lt fits, Option.bind_some, if_neg (Nat.not_lt_of_le inTime), unhexChecked_hex, Option.map_some,
    checkSignature_eq_ok_iff.mpr rfl]

theorem expiryOf_spelt (noDot : '.' ∉ text) (isTime : parseUnsigned (2 ^ 64 - 1) text = some exp) :
    expiryOf (spelt prims key runId user exp text) = some exp := by
  rw [expiryOf, splitOn_spelt noDot]
  exact isTime

def branchSession : ConnectionId := .replicate 16 7

theorem genuine_office :
    IdentityGenuine (identityCodes "run" "alice") [] (spelt (identityCodes "run" "alice") [] "run" "alice" 60 "60".toList)
        "run" "alice" 60 ∧
      ResumeGenuine (resumeCodes branchSession "alice" "laptop") [] (resumeText 60 (List.replicate 16 0)
          ((resumeCodes branchSession "alice" "laptop").hmacSha256 []
            (resumeMessage branchSession "alice" "laptop" 60 (List.replicate 16 0))).toList)
        branchSession "alice" "laptop" 60 := by
  refine ⟨((genuine _ []).1 "run" "alice" (sole_identityCodes [] "run" "alice") _ 60).mpr fun _ time isTime _ => ?_,
    ((genuine _ []).2 branchSession "alice" "laptop" (sole_resumeCodes [] branchSession "alice" "laptop") _ 60).mpr
      fun _ time isTime _ => ?_⟩
  · rw [expiryOf_spelt (by decide) rfl] at isTime
    obtain rfl := Option.some.inj isTime
    exact ⟨Nat.le_refl _, by decide, _, rfl⟩
  · rw [expiryOf, splitOn_resumeText] at isTime
    obtain rfl : 60 = time := Option.some.inj ((parseUnsigned_toDigits (show 60 ≤ 2 ^ 64 - 1 by decide)).symm.trans isTime)
    exact ⟨Nat.le_refl _, by decide, _, _, rfl⟩

/-- Half a minute late; with a sign before the time; and with a zero in a name. -/
theorem not_genuine_spelt :
    ¬IdentityGenuine (identityCodes "run" "alice") [] (spelt (identityCodes "run" "alice") [] "run" "alice" 60 "60".toList)
        "run" "alice" 90 ∧
      ¬IdentityGenuine (identityCodes "run" "alice") []
        (spelt (identityCodes "run" "alice") [] "run" "alice" 60 "+60".toList) "run" "alice" 0 ∧
      ¬IdentityGenuine (identityCodes "run" (String.ofList ['a', nul, 'b'])) []
        (spelt (identityCodes "run" (String.ofList ['a', nul, 'b'])) [] "run" (String.ofList ['a', nul, 'b']) 60 "60".toList)
        "run" (String.ofList ['a', nul, 'b']) 0 := by
  rw [identityGenuine_iff (sole_identityCodes [] "run" "alice"), identityGenuine_iff (sole_identityCodes [] "run" "alice"),
    identityGenuine_iff (sole_identityCodes [] "run" (String.ofList ['a', nul, 'b']))]
  refine ⟨fun strict => ?_, fun strict => ?_, fun strict => ?_⟩
  · have late := (strict (verifyIdentityChecked_spelt (by decide) rfl (by decide) (by decide)) 60
      (expiryOf_spelt (by decide) rfl) (by decide)).1
    exact absurd late (by decide)
  · obtain ⟨-, -, sig, isText⟩ := strict (verifyIdentityChecked_spelt (by decide) rfl (by decide) (by decide)) 60
      (expiryOf_spelt (by decide) rfl) (by decide)
    have parts := congrArg (fun token => token.toList.splitOn '.') isText
    rw [splitOn_spelt (by decide), splitOn_identityText] at parts
    exact absurd (List.cons.inj (List.cons.inj parts).2).1 (by decide)
  · have separable := (strict (verifyIdentityChecked_spelt (by decide) rfl (by decide) (by decide)) 60
      (expiryOf_spelt (by decide) rfl) (by decide)).2.1
    exact absurd separable (by decide)

end Nfrp.Nlink
