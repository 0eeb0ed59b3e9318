import Nfrp.Server.HttpFields

/-!
# Answers as they are relayed

One answer of the service behind the work connection goes to the visitor.  Its framing is
checked on the head as it came; the body is taken by the fields that are left, the route's
among them.  The visitor's connection stays open for more where the code takes the end of
the body for known, which need not be where the visitor finds it.
-/

namespace Nfrp

open Lib HeadParts

/-- An answer as it is relayed: the head that came and what stood behind it, what goes out, and whether the
connection stays open. -/
structure Relayed where
  resp : HeadParts
  behind : List UInt8
  head : HeadParts
  body : List UInt8
  keepAlive : Bool

namespace HttpResponse

variable (tooLong : Nat → Bool) (method : List Char) (respHeaders : List (List Char × List Char))

def statusCode (resp : HeadParts) : Option Nat :=
  (resp.startToken 1).map fun start => (fromStrRadix 10 (2 ^ 32 - 1) start).getD 200

def noBody (code : Nat) : Bool :=
  (100 ≤ code && code < 200) || code == 204 || code == 304 || method == "HEAD".toList

def framed (bodiless : Bool) (resp : HeadParts) : Bool :=
  if bodiless then true
  else if (resp.get "transfer-encoding".toList).isSome then resp.isChunked
  else (resp.get "content-length".toList).isSome

/-- The fields of the route; none of them is taken out. -/
def answered (resp : HeadParts) : HeadParts :=
  (respHeaders.filter fun field => field.2 ≠ []).foldl (fun head field => head.set field.1 field.2) resp

def lengthOf (value : List Char) : Nat :=
  (fromStrRadix 10 (2 ^ 64 - 1) (trimmed value)).getD 0

/-- The body, and whether it ends before the connection does. -/
def relayLength (head : HeadParts) (up : List UInt8) : Option (List UInt8 × Bool) :=
  match head.get "content-length".toList with
  | some value => (HttpIo.relayFixed (lengthOf value) up).map fun taken => (taken.1, true)
  | none => some (up, false)

def relayBody (chunked : Bool) (head : HeadParts) (up : List UInt8) : Option (List UInt8 × Bool) :=
  if (head.get "transfer-encoding".toList).isSome then
    if chunked then (HttpIo.readChunked tooLong up).map fun taken => (taken.1, true)
    else relayLength head up
  else relayLength head up

def relayResponse (visitorKeepAlive : Bool) (up : List UInt8) : Option Relayed :=
  (HttpIo.readHead up).bind fun (lines, behind) =>
    (HeadParts.parse lines).bind fun resp =>
      match resp.validateResponseFraming with
      | .error _ => none
      | .ok () =>
        let stripped := resp.stripHopByHop
        (statusCode stripped).bind fun code =>
          let chunked := stripped.isChunked
          let keepAlive := visitorKeepAlive && framed (noBody method code) stripped
          let connection := if keepAlive then "keep-alive".toList else "close".toList
          let head := answered respHeaders (stripped.set "connection".toList connection)
          if noBody method code then some { resp, behind, head, body := [], keepAlive }
          else
            (relayBody tooLong chunked head behind).map fun (body, ends) =>
              { resp, behind, head, body, keepAlive := keepAlive && ends }

end HttpResponse

namespace Relayed

open HttpResponse

variable (method : List Char) (respHeaders : List (List Char × List Char)) (expected : Bool) (r : Relayed)

def isToHead : Bool := method == "HEAD".toList

/-- What was written is the answers to the request, and nothing else. -/
def InSync : Prop :=
  AreResponses (isToHead method) ((if expected then continueAnswer else []) ++ (r.head.toBytes ++ r.body))

/-- The fields left standing say of the body what it was taken by, to a client that finds the status. -/
def FramedAlike (status : Nat) : Prop :=
  let stripped := r.resp.stripHopByHop
  let left := answered respHeaders stripped
  let codings := sentValues "transfer-encoding".toList left.headers
  let lengths := sentValues "content-length".toList left.headers
  if (statusCode stripped).any (noBody method) then
    ¬isInterim status ∧ (isBodiless (isToHead method) status ∨ codings = [] ∧
      ∃ value, lengths = [value] ∧ value ≠ [] ∧ value.all (isDigit 10) ∧ ofDigits 10 value = 0)
  else if (left.get "transfer-encoding".toList).isSome ∧ stripped.isChunked then
    ¬isBodiless (isToHead method) status ∧ lengths = [] ∧ (codingsOf codings).getLast? = some "chunked".toList ∧
      ∃ content left, bodyOf .chunked r.behind = some (content, left)
  else
    let taken := lengthOf ((left.get "content-length".toList).getD [])
    if isInterim status then AreResponses (isToHead method) (r.behind.take taken)
    else if isBodiless (isToHead method) status then taken = 0
    else codings = [] ∧ ∃ value, lengths = [value] ∧ value ≠ [] ∧ value.all (isDigit 10) ∧ ofDigits 10 value = taken

/-- The answer can be read at all, and the body where it stands. -/
def Whole : Prop :=
  ∃ status, statusOf (stripCrlf r.resp.startLine) = some status ∧
    (∀ field ∈ r.resp.headers, IsName (sentName field.1) ∨ r.resp.drops field.1) ∧
      (∀ field ∈ respHeaders, field.2 ≠ [] → IsName (sentName field.1)) ∧ r.FramedAlike method respHeaders status

end Relayed

namespace HttpResponse

variable {tooLong : Nat → Bool} {method : List Char} {respHeaders : List (List Char × List Char)} {resp head : HeadParts}
  {up body : List UInt8}

theorem relayLength_eq_some (isBody : relayLength head up = some (body, true)) :
    ∃ value, head.get "content-length".toList = some value ∧ body = up.take (lengthOf value) ∧
      body.length = lengthOf value := by
  rw [relayLength] at isBody
  split at isBody
  next value found =>
    obtain ⟨⟨taken, rest⟩, isTaken, same⟩ := Option.map_eq_some_iff.mp isBody
    obtain ⟨rfl, -⟩ := Prod.mk.inj same
    rw [HttpIo.relayFixed] at isTaken
    split at isTaken
    next => cases isTaken
    next fits =>
      obtain ⟨rfl, -⟩ := Prod.mk.inj (Option.some.inj isTaken)
      exact ⟨value, found, rfl, List.length_take_of_le (not_lt.mp fits)⟩
  next =>
    cases (Prod.mk.inj (Option.some.inj isBody)).2

theorem relayBody_eq_some {chunked : Bool} (isBody : relayBody tooLong chunked head up = some (body, true)) :
    if (head.get "transfer-encoding".toList).isSome ∧ chunked then
      ∃ rest, HttpIo.readChunked tooLong up = some (body, rest)
    else ∃ value, head.get "content-length".toList = some value ∧ body = up.take (lengthOf value) ∧
      body.length = lengthOf value := by
  rw [relayBody] at isBody
  split at isBody
  next coded =>
    split at isBody
    next isChunked =>
      rw [if_pos ⟨coded, isChunked⟩]
      obtain ⟨⟨taken, rest⟩, isTaken, same⟩ := Option.map_eq_some_iff.mp isBody
      obtain ⟨rfl, -⟩ := Prod.mk.inj same
      exact ⟨rest, isTaken⟩
    next notChunked =>
      rw [if_neg fun both => notChunked both.2]
      exact relayLength_eq_some isBody
  next plain =>
    rw [if_neg fun both => plain both.1]
    exact relayLength_eq_some isBody

variable {visitorKeepAlive : Bool} {r : Relayed}

theorem relayResponse_eq_some (relayed : relayResponse tooLong method respHeaders visitorKeepAlive up = some r)
    (kept : r.keepAlive) :
    r.head = answered respHeaders (r.resp.stripHopByHop.set "connection".toList "keep-alive".toList) ∧
      if (statusCode r.resp.stripHopByHop).any (noBody method) then r.body = []
      else relayBody tooLong r.resp.stripHopByHop.isChunked r.head r.behind = some (r.body, true) := by
  rw [relayResponse] at relayed
  obtain ⟨⟨lines, behind⟩, -, relayed⟩ := Option.bind_eq_some_iff.mp relayed
  obtain ⟨resp, -, relayed⟩ := Option.bind_eq_some_iff.mp relayed
  dsimp only at relayed
  split at relayed
  next => cases relayed
  next =>
    obtain ⟨code, isCode, relayed⟩ := Option.bind_eq_some_iff.mp relayed
    split at relayed
    next bodiless =>
      obtain rfl := Option.some.inj relayed
      rw [if_pos (show visitorKeepAlive && framed (noBody method code) resp.stripHopByHop from kept)]
      dsimp only
      rw [isCode, Option.any_some, if_pos bodiless]
      exact ⟨rfl, rfl⟩
    next hasBody =>
      obtain ⟨⟨body, ends⟩, isBody, same⟩ := Option.map_eq_some_iff.mp relayed
      subst same
      obtain ⟨stays, rfl⟩ := Bool.and_eq_true_iff.mp kept
      rw [if_pos stays] at isBody ⊢
      dsimp only
      rw [isCode, Option.any_some, if_neg hasBody]
      exact ⟨rfl, isBody⟩

theorem sameNames_own (own name other : List Char) (same : sameIgnoringCase name other) :
    sameIgnoringCase name own = sameIgnoringCase other own := by
  rw [sameIgnoringCase, beq_iff_eq] at same
  rw [sameIgnoringCase, sameIgnoringCase, same]

theorem apart_answered (value : List Char) :
    (answered respHeaders (head.set "connection".toList value)).apart (sameIgnoringCase · "connection".toList) =
      (answered respHeaders head).apart (sameIgnoringCase · "connection".toList) := by
  apply apart_foldl_set (sameNames_own _)
  rw [apart_set (sameNames_own _), if_pos (by decide)]

theorem sentValues_answered {key : List Char} (other : namesField key "connection".toList = false) (value : List Char) :
    sentValues key (answered respHeaders (head.set "connection".toList value)).headers =
      sentValues key (answered respHeaders head).headers := by
  refine sentValues_congr (fun name named => ?_) (apart_answered value)
  by_contra same
  rw [Bool.not_eq_false] at same
  rw [namesField_congr same, other] at named
  exact Bool.false_ne_true named

theorem get_answered {key : List Char} (other : sameIgnoringCase key "connection".toList = false) (value : List Char) :
    (answered respHeaders (head.set "connection".toList value)).get key = (answered respHeaders head).get key :=
  get_congr (sameNames_own _) other (apart_answered value)

theorem startLine_answered : (answered respHeaders head).startLine = head.startLine := by
  rw [answered]
  induction respHeaders.filter (fun field => field.2 ≠ []) generalizing head with
  | nil => rfl
  | cons field fields ih => exact ih

theorem forall_answered : (∀ field ∈ (answered respHeaders head).headers, IsName (sentName field.1)) ↔
    (∀ field ∈ respHeaders, field.2 ≠ [] → IsName (sentName field.1)) ∧
      ∀ field ∈ head.headers, IsName (sentName field.1) := by
  have isName : Caseless fun name => IsName (sentName name) := fun name other same => isName_congr same
  rw [answered, forall_foldl_set isName]
  simp only [sentName_stripCrlf, List.mem_filter, decide_eq_true_eq, and_imp]

/-- What the visitor makes of the body, by the status that the visitor finds. -/
theorem framedAlike_iff (relayed : relayResponse tooLong method respHeaders visitorKeepAlive up = some r)
    (kept : r.keepAlive) (status : Nat) :
    (if isInterim status then AreResponses (Relayed.isToHead method) r.body
      else ∃ length content, (if isBodiless (Relayed.isToHead method) status then some (.bytes 0)
        else (framing (sentValues "transfer-encoding".toList r.head.headers)
          (sentValues "content-length".toList r.head.headers)).bind Framing.ofResponse) = some length ∧
            bodyOf length r.body = some (content, [])) ↔ r.FramedAlike method respHeaders status := by
  obtain ⟨isHead, isBody⟩ := relayResponse_eq_some relayed kept
  have someCodings := @sentValues_ne_nil "transfer-encoding".toList r.head (by decide)
  have someLengths := @sentValues_ne_nil "content-length".toList r.head (by decide)
  rw [Relayed.FramedAlike]
  dsimp only
  have otherCoding : namesField "transfer-encoding".toList "connection".toList = false := by decide
  have otherLength : namesField "content-length".toList "connection".toList = false := by decide
  have noCoding : sameIgnoringCase "transfer-encoding".toList "connection".toList = false := by decide
  have noLength : sameIgnoringCase "content-length".toList "connection".toList = false := by decide
  simp only [← sentValues_answered otherCoding "keep-alive".toList, ← sentValues_answered otherLength "keep-alive".toList,
    ← get_answered noCoding "keep-alive".toList, ← get_answered noLength "keep-alive".toList, ← isHead]
  generalize sentValues "transfer-encoding".toList r.head.headers = codings at *
  generalize sentValues "content-length".toList r.head.headers = lengths at *
  split at isBody
  next bodiless =>
    rw [if_pos bodiless, isBody]
    split
    next interim => exact iff_of_false (not_areResponses_nil _) fun holds => holds.1 interim
    next last =>
      rw [and_iff_right last, exists_bodyOf_bytes fun _ => rfl, List.length_nil, framing_eq_bytes]
      split
      next none => exact iff_of_true rfl (.inl none)
      next some => exact (or_iff_right some).symm
  next hasBody =>
    rw [if_neg hasBody]
    have taken := relayBody_eq_some isBody
    split at taken
    next chunked =>
      obtain ⟨rest, isTaken⟩ := taken
      rw [if_pos chunked]
      split
      next interim =>
        exact iff_of_false (not_areResponses_of_readChunked isTaken _) fun holds => holds.1 (isBodiless_of_isInterim interim)
      next =>
        have noLength : ∀ n, framing codings lengths ≠ some (.bytes n) :=
          fun n isBytes => someCodings chunked.1 (framing_eq_bytes.mp isBytes).1
        rw [exists_bodyOf_chunked (ne_nil_of_readChunked isTaken) noLength, framing_eq_chunked,
          HttpIo.readChunked_eq_some isTaken, and_assoc]
    next plain =>
      obtain ⟨value, found, isTaken, whole⟩ := taken
      have notChunked : framing codings lengths ≠ some .chunked :=
        fun isChunked => someLengths (found ▸ rfl) (framing_eq_chunked.mp isChunked).1
      rw [if_neg plain, found, Option.getD_some, exists_bodyOf_bytes fun isChunked => absurd isChunked notChunked, whole,
        framing_eq_bytes, isTaken]

/-- Where the visitor's connection stays open, what was written to it is the answers to the request exactly when the
answer can be read at all and the fields that are left standing say of the body what it was taken by. -/
theorem relayed_inSync_iff (relayed : relayResponse tooLong method respHeaders visitorKeepAlive up = some r)
    (kept : r.keepAlive) (expected : Bool) : r.InSync method expected ↔ r.Whole method respHeaders := by
  have written : r.InSync method expected ↔ AreResponses (Relayed.isToHead method) (r.head.toBytes ++ r.body) := by
    rw [Relayed.InSync]
    cases expected with
    | true => exact areResponses_continueAnswer
    | false => exact Iff.rfl
  obtain ⟨isHead, -⟩ := relayResponse_eq_some relayed kept
  have isName : Caseless fun name => IsName (sentName name) := fun name other same => isName_congr same
  have names : (∀ field ∈ r.head.headers, IsName (sentName field.1)) ↔
      (∀ field ∈ r.resp.headers, IsName (sentName field.1) ∨ r.resp.drops field.1) ∧
        ∀ field ∈ respHeaders, field.2 ≠ [] → IsName (sentName field.1) := by
    have ownName : IsName (sentName (stripCrlf "connection".toList)) := by decide
    rw [isHead, forall_answered, forall_set isName, and_iff_right ownName, headers_stripHopByHop]
    exact and_comm.trans (and_congr_left' (@forall_filter (fun name => IsName (sentName name)) _ _))
  have sameLine : r.head.startLine = r.resp.startLine := by
    rw [isHead, startLine_answered, startLine_set, startLine_stripHopByHop]
  rw [written, areResponses_toBytes, Relayed.Whole, sameLine, names]
  refine exists_congr fun status => and_congr_right fun _ => ?_
  rw [and_assoc, framedAlike_iff relayed kept]

/-- A number that is one is read alike. -/
theorem relayed_inSync_iff_ordinary :
    ∃ r, relayResponse (fun _ => false) "GET".toList [] true
        (bytesOf "HTTP/1.1 200 OK\r\nContent-Length: 2\r\n\r\nhi") = some r ∧
      (r.InSync "GET".toList true ↔ r.Whole "GET".toList []) ∧ r.InSync "GET".toList true := by
  have isRelayed : (relayResponse (fun _ => false) "GET".toList [] true
      (bytesOf "HTTP/1.1 200 OK\r\nContent-Length: 2\r\n\r\nhi")).map
      (fun r => (r.keepAlive, (responses false 2 (continueAnswer ++ (r.head.toBytes ++ r.body))).map Prod.snd)) =
        some (true, some []) := by
    decide +kernel
  obtain ⟨r, relayed, same⟩ := Option.map_eq_some_iff.mp isRelayed
  obtain ⟨kept, isWhole⟩ := Prod.mk.inj same
  obtain ⟨⟨found, left⟩, areFound, rfl⟩ := Option.map_eq_some_iff.mp isWhole
  exact ⟨r, relayed, relayed_inSync_iff relayed kept true, 2, found, areFound⟩

/-- A length that is no number is taken for none, and goes on. -/
theorem not_inSync_garbledLength :
    ∃ r, relayResponse (fun _ => false) "GET".toList [] true
        (bytesOf "HTTP/1.1 200 OK\r\nContent-Length: abc\r\n\r\n") = some r ∧
      r.keepAlive ∧ ¬r.InSync "GET".toList false := by
  have isRelayed : (relayResponse (fun _ => false) "GET".toList [] true
      (bytesOf "HTTP/1.1 200 OK\r\nContent-Length: abc\r\n\r\n")).map
      (fun r => (r.keepAlive, (responseMessage false (r.head.toBytes ++ r.body)).isNone)) = some (true, true) := by
    decide +kernel
  obtain ⟨r, relayed, same⟩ := Option.map_eq_some_iff.mp isRelayed
  obtain ⟨kept, isNone⟩ := Prod.mk.inj same
  refine ⟨r, relayed, kept, fun inSync => ?_⟩
  obtain ⟨status, message, left, isMessage, -⟩ := areResponses_iff.mp inSync
  cases (Option.isNone_iff_eq_none.mp isNone).symm.trans isMessage

end HttpResponse

end Nfrp
