import Nfrp.Server.HttpFields

/-!
# HTTP bridges

A plugin reads a request, writes it anew, and sends it to the local service over a
connection of its own; it passes the answer on and may then go on to the next request.
What goes out in front of a body is not the head that came in front of it, and the body is
taken by the head that goes out.
-/

namespace Nfrp

open Lib HeadParts

structure Bridge where
  inTls : Bool
  outTls : Bool
  setXForwarded : Bool
  hostRewrite : List Char
  extraHeaders : List (List Char × List Char)

/-- A request as it is forwarded, without an expectation that was answered at once. -/
structure BridgedRequest where
  req : HeadParts
  expected : Bool
  upgrading : Bool
  clientKeep : Bool
  behind : List UInt8
  head : HeadParts
  body : List UInt8
  left : List UInt8

structure BridgedAnswer where
  resp : HeadParts
  behind : List UInt8
  head : HeadParts
  body : List UInt8
  goesOn : Bool

structure Exchange where
  asked : BridgedRequest
  answer : Option BridgedAnswer

namespace Bridge

def plain (hostRewrite : List Char) (extraHeaders : List (List Char × List Char)) (xForwarded outTls : Bool) : Bridge :=
  { inTls := false, outTls, setXForwarded := xForwarded, hostRewrite, extraHeaders }

def http2http (hostRewrite : List Char) (extraHeaders : List (List Char × List Char)) : Bridge :=
  plain hostRewrite extraHeaders false false

def http2https (hostRewrite : List Char) (extraHeaders : List (List Char × List Char)) : Bridge :=
  plain hostRewrite extraHeaders false true

def https2http (hostRewrite : List Char) (extraHeaders : List (List Char × List Char)) : Bridge :=
  { plain hostRewrite extraHeaders true false with inTls := true }

def https2https (hostRewrite : List Char) (extraHeaders : List (List Char × List Char)) : Bridge :=
  { plain hostRewrite extraHeaders true true with inTls := true }

def originForm (target : List Char) : Option (List Char) :=
  let rest :=
    if "http://".toList.isPrefixOf target then some (target.drop 7)
    else if "https://".toList.isPrefixOf target then some (target.drop 8)
    else none
  rest.map fun rest => if '/' ∈ rest then rest.dropWhile (· ≠ '/') else ['/']

def originLine (req : HeadParts) : List Char :=
  match (req.startToken 1).bind originForm with
  | some path =>
    (req.startToken 0).getD "GET".toList ++ ' ' :: (path ++ ' ' :: (req.startToken 2).getD "HTTP/1.1".toList)
  | none => req.startLine

variable (bridge : Bridge) (src : Option (List Char)) (upgrading : Bool)

def withForwarded (req : HeadParts) : HeadParts :=
  if bridge.setXForwarded then
    let prior := ((req.get "x-forwarded-for".toList).map fun value => (value.splitOn ',').map trimmed).getD []
    let req :=
      match src with
      | some ip => req.set "X-Forwarded-For".toList (", ".toList.intercalate (prior ++ [ip]))
      | none => req.remove "x-forwarded-for".toList
    let inboundHost := (req.get "host".toList).getD []
    (req.set "X-Forwarded-Host".toList inboundHost).set "X-Forwarded-Proto".toList "https".toList
  else if bridge.inTls then req.set "X-Forwarded-Proto".toList "https".toList
  else if bridge.outTls then req
  else
    (((req.remove "forwarded".toList).remove "x-forwarded-for".toList).remove "x-forwarded-host".toList).remove
      "x-forwarded-proto".toList

/-- The fields that are not for this hop, or all of them. -/
def passing (req : HeadParts) : HeadParts :=
  if upgrading then req else { req with headers := req.headers.filter fun field => !req.drops field.1 }

def extended (req : HeadParts) : HeadParts :=
  bridge.extraHeaders.foldl (fun head field => head.set field.1 field.2) req

def rewriteRequest (req : HeadParts) : HeadParts :=
  let req := passing upgrading (bridge.withForwarded src { req with startLine := originLine req })
  let req := if upgrading then req else req.set "Connection".toList "close".toList
  let req := if trimmed bridge.hostRewrite = [] then req else req.set "Host".toList (trimmed bridge.hostRewrite)
  bridge.extended req

variable (tooLong : Nat → Bool)

/-- The body, and what is left; a request does not go on to the end of the connection. -/
def relayRequestBody (head : HeadParts) (io : List UInt8) : Option (List UInt8 × List UInt8) :=
  if head.isChunked then HttpIo.readChunked tooLong io
  else
    match head.bodyLength with
    | some n => if 0 < n then HttpIo.relayFixed n io else some ([], io)
    | none => some ([], io)

def relayBody (head : HeadParts) (up : List UInt8) : Option (List UInt8) :=
  if head.hasNoBody then some []
  else if head.isChunked then (HttpIo.readChunked tooLong up).map Prod.fst
  else
    match head.bodyLength with
    | some n => if 0 < n then (HttpIo.relayFixed n up).map Prod.fst else some []
    | none => some up

def forwardRequest (io : List UInt8) : Option BridgedRequest :=
  (HttpIo.readHead io).bind fun (lines, behind) =>
    (HeadParts.parse lines).bind fun asked =>
      match asked.validateRequestFraming with
      | .error _ => none
      | .ok () =>
        let upgrading := asked.wantsUpgrade
        let expected := (asked.get "expect".toList).any (sameIgnoringCase · "100-continue".toList)
        let req := if expected then asked.remove "expect".toList else asked
        let head := bridge.rewriteRequest src upgrading req
        (relayRequestBody tooLong head behind).map fun (body, left) =>
          { req, expected, upgrading, clientKeep := asked.wantsKeepAlive, behind, head, body, left }

/-- The answer of the service, if it comes; behind a change of protocol there are no more requests. -/
def relayAnswer (asked : BridgedRequest) (up : List UInt8) : Option BridgedAnswer :=
  (HttpIo.readHead up).bind fun (lines, behind) =>
    (HeadParts.parse lines).bind fun resp =>
      let switched := asked.upgrading && resp.startToken 1 == some "101".toList
      let framed := resp.hasNoBody || resp.isChunked || resp.bodyLength.isSome || switched
      let keep := asked.clientKeep && resp.wantsKeepAlive && framed
      let stripped := resp.stripHopByHop
      let head := if keep then stripped else stripped.set "Connection".toList "close".toList
      if switched then some { resp, behind, head, body := behind, goesOn := false }
      else (relayBody tooLong head behind).map fun body => { resp, behind, head, body, goesOn := keep }

/-- Request by request, each with what the service says on the connection that was made for it. -/
def serveHttp : (ups : List (List UInt8)) → (io : List UInt8) → List Exchange
  | [], _ => []
  | up :: ups, io =>
    match bridge.forwardRequest src tooLong io with
    | none => []
    | some asked =>
      let answer := relayAnswer tooLong asked up
      { asked, answer } :: if answer.any (·.goesOn) then serveHttp ups asked.left else []

end Bridge

namespace BridgedRequest

def lengthAsked (r : BridgedRequest) : Option BodyLength :=
  (framing (r.req.getAll "transfer-encoding".toList) (r.req.getAll "content-length".toList)).bind Framing.ofRequest

/-- The service reads one request, with the body that the visitor sent and no more was taken for it. -/
def InSync (r : BridgedRequest) : Prop :=
  ∃ length content, r.lengthAsked = some length ∧ bodyOf length r.behind = some (content, r.left) ∧
    ∃ start, requestMessage (r.head.toBytes ++ r.body) = some (⟨start, length, content⟩, [])

/-- The head that came, with the fields that go on and those of the configuration. -/
def standing (bridge : Bridge) (r : BridgedRequest) : HeadParts :=
  bridge.extended (Bridge.passing r.upgrading { r.req with startLine := Bridge.originLine r.req })

end BridgedRequest

def HeadParts.lengthTaken (head : HeadParts) : BodyLength :=
  if head.isChunked then .chunked else .bytes (head.bodyLength.getD 0)

def HeadParts.framingSent (head : HeadParts) : Option Framing :=
  framing (sentValues "transfer-encoding".toList head.headers) (sentValues "content-length".toList head.headers)

/-- The request can be read at all, and the fields that stand say of the body what the head as it came does. -/
structure BridgedRequest.Whole (bridge : Bridge) (r : BridgedRequest) : Prop where
  startLine : (requestLine (stripCrlf (Bridge.originLine r.req))).isSome
  names : ∀ field ∈ (r.standing bridge).headers, IsName (sentName field.1)
  asked : r.lengthAsked = some (r.standing bridge).lengthTaken
  sent : (r.standing bridge).framingSent.bind Framing.ofRequest = some (r.standing bridge).lengthTaken
  chunks : (r.standing bridge).lengthTaken = .chunked → ∃ content left, bodyOf .chunked r.behind = some (content, left)

/-- The visitor finds a status that is final, and where the body ends. -/
def BridgedAnswer.Whole (toHead : Bool) (a : BridgedAnswer) : Prop :=
  let stripped := a.resp.stripHopByHop
  ∃ status, statusOf (stripCrlf a.resp.startLine) = some status ∧ ¬isInterim status ∧
    (∀ field ∈ a.resp.headers, IsName (sentName field.1) ∨ a.resp.drops field.1) ∧
      if stripped.hasNoBody then isBodiless toHead status ∨ stripped.framingSent = some (.bytes 0)
      else if stripped.isChunked then
        ¬isBodiless toHead status ∧ stripped.framingSent = some .chunked ∧
          ∃ content left, bodyOf .chunked a.behind = some (content, left)
      else
        ∃ n, stripped.bodyLength = some n ∧ if isBodiless toHead status then n = 0 else stripped.framingSent = some (.bytes n)

namespace Exchange

def toHead (e : Exchange) : Bool := (e.asked.req.startToken 0).getD [] == "HEAD".toList

def goesOn (e : Exchange) : Bool := e.answer.any (·.goesOn)

def written (e : Exchange) : List UInt8 :=
  (if e.asked.expected then HttpResponse.continueAnswer else []) ++
    (e.answer.map fun answer => answer.head.toBytes ++ answer.body).getD []

structure Whole (bridge : Bridge) (e : Exchange) : Prop where
  asked : e.asked.Whole bridge
  answer : ∀ answer, e.answer = some answer → answer.goesOn → answer.Whole e.toHead

end Exchange

namespace Bridge

def forwardedNames : List (List Char) :=
  ["x-forwarded-for".toList, "x-forwarded-host".toList, "x-forwarded-proto".toList, "forwarded".toList]

/-- The names of the fields that the plugin writes or takes out itself. -/
def ownNames : List (List Char) := ["connection".toList, "host".toList] ++ forwardedNames

def isOwn (name : List Char) : Bool := ownNames.any (sameIgnoringCase name ·)

section Rewritten

variable {bridge : Bridge} {src : Option (List Char)} {upgrading : Bool} {req : HeadParts}

theorem sameNames_any (names : List (List Char)) (name other : List Char) (same : sameIgnoringCase name other) :
    names.any (sameIgnoringCase name ·) = names.any (sameIgnoringCase other ·) := by
  rw [sameIgnoringCase, beq_iff_eq] at same
  simp only [sameIgnoringCase, same]

theorem apart_remove {dropped : List Char → Bool}
    (sameNames : ∀ name other, sameIgnoringCase name other → dropped name = dropped other) {name : List Char}
    (isDropped : dropped name) (head : HeadParts) : (head.remove name).apart dropped = head.apart dropped := by
  rw [apart, apart, remove, List.filter_filter]
  congr 1
  refine List.filter_congr fun field _ => ?_
  cases same : sameIgnoringCase field.1 name with
  | false => rw [Bool.not_false, Bool.and_true]
  | true => rw [sameNames _ _ same, isDropped]; rfl

theorem apart_set_of_dropped {dropped : List Char → Bool}
    (sameNames : ∀ name other, sameIgnoringCase name other → dropped name = dropped other) {name : List Char}
    (isDropped : dropped (stripCrlf name)) (value : List Char) (head : HeadParts) :
    (head.set name value).apart dropped = head.apart dropped := by
  rw [apart_set sameNames, if_pos isDropped]

theorem apart_withForwarded {dropped : List Char → Bool}
    (sameNames : ∀ name other, sameIgnoringCase name other → dropped name = dropped other)
    (own : ∀ name ∈ forwardedNames, dropped name) : (bridge.withForwarded src req).apart dropped = req.apart dropped := by
  have written : ∀ {name : List Char}, (∃ small ∈ forwardedNames, sameIgnoringCase (stripCrlf name) small) →
      dropped (stripCrlf name) := by
    rintro name ⟨small, member, same⟩
    rw [sameNames _ _ same]
    exact own small member
  rw [withForwarded]
  split
  next =>
    rw [apart_set_of_dropped sameNames (written (by decide)), apart_set_of_dropped sameNames (written (by decide))]
    split
    next => exact apart_set_of_dropped sameNames (written (by decide)) _ _
    next => exact apart_remove sameNames (own _ (by decide)) _
  next =>
    split
    next => exact apart_set_of_dropped sameNames (written (by decide)) _ _
    next =>
      split
      next => rfl
      next =>
        rw [apart_remove sameNames (own _ (by decide)), apart_remove sameNames (own _ (by decide)),
          apart_remove sameNames (own _ (by decide)), apart_remove sameNames (own _ (by decide))]

theorem apart_apart (dropped other : List Char → Bool) (head : HeadParts) :
    (head.apart dropped).apart other = (head.apart other).apart dropped := by
  rw [apart, apart, apart, apart, List.filter_comm]

theorem apart_passing : (passing upgrading (bridge.withForwarded src req)).apart isOwn = (passing upgrading req).apart isOwn := by
  have sameOwn := @apart_withForwarded bridge src req _ (sameNames_any ownNames)
    fun name member => List.any_eq_true.mpr ⟨name, List.mem_append_right _ member, beq_self_eq_true _⟩
  have sameForwarded := @apart_withForwarded bridge src req _ (sameNames_any forwardedNames)
    fun name member => List.any_eq_true.mpr ⟨name, member, beq_self_eq_true _⟩
  have sameDrops : (bridge.withForwarded src req).drops = req.drops := by
    funext name
    rw [drops, drops, connectionTokens, connectionTokens,
      get_congr (sameNames_any forwardedNames) (by decide) sameForwarded]
  rw [passing, passing]
  split
  next => exact sameOwn
  next =>
    rw [sameDrops]
    exact (apart_apart req.drops isOwn _).trans ((congrArg (apart req.drops) sameOwn).trans (apart_apart isOwn req.drops _))

theorem apart_rewriteRequest : (bridge.rewriteRequest src upgrading req).apart isOwn =
    (bridge.extended (passing upgrading { req with startLine := originLine req })).apart isOwn := by
  rw [rewriteRequest, extended, extended]
  apply apart_foldl_set (sameNames_any ownNames)
  have written : ∀ {head : HeadParts}, (if upgrading then head else head.set "Connection".toList "close".toList).apart isOwn =
      head.apart isOwn := by
    intro head
    split
    next => rfl
    next => exact apart_set_of_dropped (sameNames_any ownNames) (by decide) _ _
  split
  next => exact written.trans apart_passing
  next =>
    refine (apart_set_of_dropped (sameNames_any ownNames) ?_ _ _).trans (written.trans apart_passing)
    decide

theorem startLine_extended (head : HeadParts) : (bridge.extended head).startLine = head.startLine := by
  rw [extended]
  induction bridge.extraHeaders generalizing head with
  | nil => rfl
  | cons field fields ih => exact ih _

/-- Reading and counting the fields of framing comes out alike. -/
theorem framing_rewriteRequest :
    let sent := bridge.rewriteRequest src upgrading req
    let standing := bridge.extended (passing upgrading { req with startLine := originLine req })
    sent.framingSent = standing.framingSent ∧ sent.isChunked = standing.isChunked ∧ sent.bodyLength = standing.bodyLength := by
  have same := @apart_rewriteRequest bridge src upgrading req
  have values : ∀ key, (∀ name ∈ ownNames, namesField key name = false) →
      sentValues key (bridge.rewriteRequest src upgrading req).headers =
        sentValues key (bridge.extended (passing upgrading { req with startLine := originLine req })).headers := by
    intro key others
    refine sentValues_congr (fun name named => ?_) same
    by_contra own
    rw [Bool.not_eq_false, isOwn, List.any_eq_true] at own
    obtain ⟨small, member, sameName⟩ := own
    rw [namesField_congr sameName, others small member] at named
    exact Bool.false_ne_true named
  refine ⟨?_, ?_, ?_⟩
  · rw [framingSent, framingSent, values _ (by decide), values _ (by decide)]
  · rw [isChunked, isChunked, transferEncodingTokens, transferEncodingTokens,
      get_congr (sameNames_any ownNames) (by decide) same]
  · rw [HeadParts.bodyLength, HeadParts.bodyLength, get_congr (sameNames_any ownNames) (by decide) same]

theorem forall_rewriteRequest
    (names : ∀ field ∈ (bridge.extended (passing upgrading { req with startLine := originLine req })).headers,
      IsName (sentName field.1)) :
    ∀ field ∈ (bridge.rewriteRequest src upgrading req).headers, IsName (sentName field.1) := by
  intro field member
  by_cases own : isOwn field.1
  · obtain ⟨small, isSmall, same⟩ := List.any_eq_true.mp own
    have ownNamesAre : ∀ name ∈ ownNames, IsName (sentName name) := by decide
    exact (isName_congr same).mpr (ownNamesAre small isSmall)
  · have others : ∀ head : HeadParts, field ∈ head.headers ↔ field ∈ (head.apart isOwn).headers := by
      intro head
      rw [apart, List.mem_filter, Bool.eq_false_iff.mpr own]
      exact (and_iff_left rfl).symm
    rw [others, apart_rewriteRequest, ← others] at member
    exact names field member

theorem startLine_rewriteRequest : (bridge.rewriteRequest src upgrading req).startLine = originLine req := by
  have same := congrArg HeadParts.startLine (@apart_rewriteRequest bridge src upgrading req)
  have kept : ∀ head : HeadParts, (head.apart isOwn).startLine = head.startLine := fun _ => rfl
  rw [kept, kept, startLine_extended] at same
  rw [same, passing]
  split
  next => rfl
  next => rfl

end Rewritten

variable {bridge : Bridge} {src : Option (List Char)} {tooLong : Nat → Bool} {head : HeadParts}
  {io up body left : List UInt8} {r : BridgedRequest} {a : BridgedAnswer}

theorem relayFixed_eq_some {n : Nat} (isTaken : HttpIo.relayFixed n io = some (body, left)) :
    bodyOf (.bytes n) io = some (body, left) ∧ bodyOf (.bytes n) body = some (body, []) ∧ body.length = n := by
  rw [HttpIo.relayFixed] at isTaken
  split at isTaken
  next => cases isTaken
  next fits =>
    obtain ⟨rfl, rfl⟩ := Prod.mk.inj (Option.some.inj isTaken)
    have whole : (io.take n).length = n := List.length_take_of_le (not_lt.mp fits)
    refine ⟨?_, ?_, whole⟩
    · rw [bodyOf, if_neg fits]
    · rw [bodyOf, if_neg (not_lt.mpr whole.ge), List.take_of_length_le whole.le, List.drop_of_length_le whole.le]

/-- The body that is taken is the one that the length says, and so is what goes out. -/
theorem relayRequestBody_eq_some (isBody : relayRequestBody tooLong head io = some (body, left))
    (chunks : head.lengthTaken = .chunked → ∃ content rest, bodyOf .chunked io = some (content, rest)) :
    ∃ content, bodyOf head.lengthTaken io = some (content, left) ∧ bodyOf head.lengthTaken body = some (content, []) := by
  rw [relayRequestBody] at isBody
  rw [lengthTaken] at chunks ⊢
  split at isBody
  next chunked =>
    rw [if_pos chunked] at chunks ⊢
    obtain ⟨content, rest, isContent⟩ := chunks rfl
    obtain ⟨rfl, isTaken⟩ := (HttpIo.bodyOf_readChunked isBody content rest).mp isContent
    exact ⟨content, isContent, isTaken⟩
  next plain =>
    rw [if_neg plain]
    have none : (body, left) = ([], io) →
        ∃ content, bodyOf (.bytes 0) io = some (content, left) ∧ bodyOf (.bytes 0) body = some (content, []) := by
      intro same
      obtain ⟨rfl, rfl⟩ := Prod.mk.inj same
      exact ⟨[], rfl, rfl⟩
    split at isBody
    next n isLength =>
      rw [isLength, Option.getD_some]
      split at isBody
      next =>
        obtain ⟨isContent, isTaken, -⟩ := relayFixed_eq_some isBody
        exact ⟨body, isContent, isTaken⟩
      next noneLeft =>
        obtain rfl : n = 0 := Nat.eq_zero_of_not_pos noneLeft
        exact none (Option.some.inj isBody).symm
    next noLength =>
      rw [noLength]
      exact none (Option.some.inj isBody).symm

theorem forwardRequest_eq_some (forwarded : bridge.forwardRequest src tooLong io = some r) :
    r.head = bridge.rewriteRequest src r.upgrading r.req ∧
      relayRequestBody tooLong r.head r.behind = some (r.body, r.left) := by
  rw [forwardRequest] at forwarded
  obtain ⟨⟨lines, behind⟩, -, forwarded⟩ := Option.bind_eq_some_iff.mp forwarded
  obtain ⟨asked, -, forwarded⟩ := Option.bind_eq_some_iff.mp forwarded
  dsimp only at forwarded
  split at forwarded
  next => cases forwarded
  next =>
    obtain ⟨⟨body, left⟩, isBody, same⟩ := Option.map_eq_some_iff.mp forwarded
    subst same
    exact ⟨rfl, isBody⟩

theorem inSync_of_whole (forwarded : bridge.forwardRequest src tooLong io = some r) (whole : r.Whole bridge) : r.InSync := by
  obtain ⟨isHead, isBody⟩ := forwardRequest_eq_some forwarded
  obtain ⟨sameFraming, sameChunked, sameLength⟩ := @framing_rewriteRequest bridge src r.upgrading r.req
  have taken : r.head.lengthTaken = (r.standing bridge).lengthTaken := by
    rw [lengthTaken, lengthTaken, isHead, sameChunked, sameLength]
    rfl
  obtain ⟨content, isContent, isTaken⟩ := relayRequestBody_eq_some isBody (taken ▸ whole.chunks)
  rw [taken] at isContent isTaken
  refine ⟨_, content, whole.asked, isContent, requestMessage_toBytes.mpr ⟨?_, ?_, ?_, isTaken⟩⟩
  · rw [isHead, startLine_rewriteRequest]
    exact whole.startLine
  · rw [isHead]
    exact forall_rewriteRequest whole.names
  · rw [← framingSent, isHead, sameFraming]
    exact whole.sent

theorem relayAnswer_eq_some (answered : relayAnswer tooLong r up = some a) (goesOn : a.goesOn) :
    a.head = a.resp.stripHopByHop ∧ relayBody tooLong a.resp.stripHopByHop a.behind = some a.body := by
  rw [relayAnswer] at answered
  obtain ⟨⟨lines, behind⟩, -, answered⟩ := Option.bind_eq_some_iff.mp answered
  obtain ⟨resp, -, answered⟩ := Option.bind_eq_some_iff.mp answered
  dsimp only at answered
  split at answered
  next =>
    obtain rfl := Option.some.inj answered
    cases goesOn
  next =>
    obtain ⟨body, isBody, same⟩ := Option.map_eq_some_iff.mp answered
    generalize (r.clientKeep && resp.wantsKeepAlive && _) = keep at isBody same
    subst same
    obtain rfl : keep = true := goesOn
    rw [if_pos rfl] at isBody
    dsimp only
    rw [if_pos rfl]
    exact ⟨rfl, isBody⟩

theorem areResponses_of_whole {toHead : Bool} (answered : relayAnswer tooLong r up = some a) (goesOn : a.goesOn)
    (whole : a.Whole toHead) : AreResponses toHead (a.head.toBytes ++ a.body) := by
  obtain ⟨isHead, isBody⟩ := relayAnswer_eq_some answered goesOn
  obtain ⟨status, isStatus, notInterim, names, ends⟩ := whole
  rw [isHead, areResponses_toBytes, startLine_stripHopByHop, headers_stripHopByHop]
  refine ⟨status, isStatus, (@forall_filter (fun name => IsName (sentName name)) _ _).mpr names, ?_⟩
  rw [if_neg notInterim, ← headers_stripHopByHop, ← framingSent]
  rw [relayBody] at isBody
  split at ends
  next noBody =>
    rw [if_pos noBody] at isBody
    have none : a.body = [] := (Option.some.inj isBody).symm
    rw [none, exists_bodyOf_bytes fun _ => rfl, List.length_nil]
    split
    next => rfl
    next some => exact ends.resolve_left some
  next hasBody =>
    rw [if_neg hasBody] at isBody
    split at ends
    next chunked =>
      rw [if_pos chunked] at isBody
      obtain ⟨⟨taken, rest⟩, isTaken, same⟩ := Option.map_eq_some_iff.mp isBody
      obtain rfl : taken = a.body := same
      obtain ⟨someBody, isFramed, isChunks⟩ := ends
      refine (exists_bodyOf_chunked (HttpResponse.ne_nil_of_readChunked isTaken) ?_).mpr
        ⟨someBody, isFramed, (HttpIo.readChunked_eq_some isTaken).mpr isChunks⟩
      intro n isBytes
      cases isFramed.symm.trans isBytes
    next plain =>
      obtain ⟨n, isLength, ends⟩ := ends
      rw [if_neg plain, isLength] at isBody
      have length : a.body.length = n := by
        dsimp only at isBody
        split at isBody
        next =>
          obtain ⟨⟨taken, rest⟩, isTaken, same⟩ := Option.map_eq_some_iff.mp isBody
          obtain rfl : taken = a.body := same
          exact (relayFixed_eq_some isTaken).2.2
        next noneLeft =>
          obtain rfl : n = 0 := Nat.eq_zero_of_not_pos noneLeft
          rw [← Option.some.inj isBody, List.length_nil]
      split at ends
      next bodiless =>
        have none : a.body = [] := List.length_eq_zero_iff.mp (length.trans ends)
        rw [exists_bodyOf_bytes fun _ => none, if_pos bodiless, length, ends]
      next someBody =>
        have notChunked : a.resp.stripHopByHop.framingSent = some .chunked → a.body = [] :=
          fun isChunked => nomatch isChunked.symm.trans ends
        rw [exists_bodyOf_bytes notChunked, if_neg someBody, length, ends]

theorem serveHttp_cons (up : List UInt8) (ups : List (List UInt8)) (io : List UInt8) :
    bridge.serveHttp src tooLong (up :: ups) io =
      match bridge.forwardRequest src tooLong io with
      | none => []
      | some asked =>
        ({ asked, answer := relayAnswer tooLong asked up } : Exchange) ::
          if (relayAnswer tooLong asked up).any (·.goesOn) then bridge.serveHttp src tooLong ups asked.left else [] := rfl

theorem areResponses_written {e : Exchange} (whole : e.Whole bridge) (goesOn : e.goesOn)
    (answered : e.answer = relayAnswer tooLong e.asked up) : AreResponses e.toHead e.written := by
  rw [Exchange.goesOn, Option.any_eq_true] at goesOn
  obtain ⟨answer, isAnswer, goesOn⟩ := goesOn
  have last := areResponses_of_whole (answered.symm.trans isAnswer) goesOn (whole.answer answer isAnswer goesOn)
  rw [Exchange.written, isAnswer, Option.map_some, Option.getD_some]
  split
  next => exact HttpResponse.areResponses_continueAnswer.mpr last
  next => exact last

/-- In every run whose requests and answers are whole, the service reads each request as one, and what the visitor was
sent is the answers to the requests so far. -/
theorem bridge_inSync (bridge : Bridge) (src : Option (List Char)) (tooLong : Nat → Bool) (ups : List (List UInt8))
    (io : List UInt8) (whole : ∀ e ∈ bridge.serveHttp src tooLong ups io, e.Whole bridge) :
    (∀ e ∈ bridge.serveHttp src tooLong ups io, e.asked.InSync) ∧
      ∀ done, done <+: bridge.serveHttp src tooLong ups io → (∀ e ∈ done, e.goesOn) →
        AreAnswersTo (done.map Exchange.toHead) (done.flatMap Exchange.written) := by
  induction ups generalizing io with
  | nil =>
    refine ⟨nofun, fun done isFront _ => ?_⟩
    rw [List.prefix_nil.mp isFront]
    rfl
  | cons up ups ih =>
    rw [serveHttp_cons] at whole ⊢
    cases forwarded : bridge.forwardRequest src tooLong io with
    | none =>
      refine ⟨nofun, fun done isFront _ => ?_⟩
      rw [List.prefix_nil.mp isFront]
      rfl
    | some asked =>
      rw [forwarded] at whole
      dsimp only at whole ⊢
      rw [List.forall_mem_cons] at whole
      obtain ⟨first, later⟩ := whole
      have rest : (∀ e ∈ if (relayAnswer tooLong asked up).any (·.goesOn) then bridge.serveHttp src tooLong ups asked.left
            else [], e.asked.InSync) ∧
          ∀ done, done <+: (if (relayAnswer tooLong asked up).any (·.goesOn) then bridge.serveHttp src tooLong ups asked.left
            else []) → (∀ e ∈ done, e.goesOn) →
              AreAnswersTo (done.map Exchange.toHead) (done.flatMap Exchange.written) := by
        split at later
        next goesOn =>
          rw [if_pos goesOn]
          exact ih asked.left later
        next stops =>
          rw [if_neg stops]
          refine ⟨nofun, fun done isFront _ => ?_⟩
          rw [List.prefix_nil.mp isFront]
          rfl
      refine ⟨List.forall_mem_cons.mpr ⟨inSync_of_whole forwarded first.asked, rest.1⟩, ?_⟩
      intro done isFront goOn
      cases done with
      | nil => rfl
      | cons e done =>
        obtain ⟨rfl, front⟩ := List.cons_prefix_cons.mp isFront
        obtain ⟨goesOn, others⟩ := List.forall_mem_cons.mp goOn
        exact (areResponses_written first goesOn rfl).answersTo_cons (rest.2 done front others)

/-- What can be checked of an exchange in which nothing comes in chunks and the answer has a length. -/
def plainlyWhole (bridge : Bridge) (e : Exchange) (status : Nat) : Bool :=
  let standing := e.asked.standing bridge
  (requestLine (stripCrlf (originLine e.asked.req))).isSome && decide (∀ field ∈ standing.headers, IsName (sentName field.1)) &&
    e.asked.lengthAsked == some standing.lengthTaken &&
      decide (standing.framingSent.bind Framing.ofRequest = some standing.lengthTaken) &&
        decide (standing.lengthTaken ≠ .chunked) &&
          e.answer.all fun a =>
            decide (statusOf (stripCrlf a.resp.startLine) = some status) && !isInterim status &&
              decide (∀ field ∈ a.resp.headers, IsName (sentName field.1)) && !a.resp.stripHopByHop.hasNoBody &&
                !a.resp.stripHopByHop.isChunked && !isBodiless e.toHead status && a.resp.stripHopByHop.bodyLength.any fun n =>
                  decide (a.resp.stripHopByHop.framingSent = some (.bytes n))

theorem whole_of_plainlyWhole {e : Exchange} {status : Nat} (checked : plainlyWhole bridge e status) : e.Whole bridge := by
  simp only [plainlyWhole, Bool.and_eq_true, decide_eq_true_eq, beq_iff_eq, Option.all_eq_true, Bool.not_eq_true',
    Option.any_eq_true] at checked
  obtain ⟨⟨⟨⟨⟨startLine, names⟩, asked⟩, sent⟩, notChunked⟩, answers⟩ := checked
  refine ⟨⟨startLine, names, asked, sent, fun chunked => absurd chunked notChunked⟩, fun a isAnswer _ => ?_⟩
  obtain ⟨⟨⟨⟨⟨⟨isStatus, notInterim⟩, fields⟩, hasBody⟩, plain⟩, someBody⟩, n, isLength, isFramed⟩ := answers a isAnswer
  refine ⟨status, isStatus, Bool.eq_false_iff.mp notInterim, fun field member => .inl (fields field member), ?_⟩
  rw [if_neg (Bool.eq_false_iff.mp hasBody), if_neg (Bool.eq_false_iff.mp plain)]
  refine ⟨n, isLength, ?_⟩
  rw [if_neg (Bool.eq_false_iff.mp someBody)]
  exact isFramed

/-- Two requests, one behind the other. -/
theorem bridge_inSync_pipelined :
    let ups := [bytesOf "HTTP/1.1 200 OK\r\nContent-Length: 2\r\n\r\nhi", bytesOf "HTTP/1.1 200 OK\r\nContent-Length: 0\r\n\r\n"]
    let io := bytesOf ("POST / HTTP/1.1\r\nHost: a.example\r\nContent-Length: 2\r\n\r\nok" ++
      "GET /b HTTP/1.1\r\nHost: a.example\r\n\r\n")
    let run := (http2http [] []).serveHttp none (fun _ => false) ups io
    run.length = 2 ∧ (∀ e ∈ run, e.asked.InSync) ∧ ∀ done, done <+: run → (∀ e ∈ done, e.goesOn) →
      AreAnswersTo (done.map Exchange.toHead) (done.flatMap Exchange.written) := by
  refine ⟨by decide +kernel, bridge_inSync _ _ _ _ _ fun e member => ?_⟩
  have checked : ((http2http [] []).serveHttp none (fun _ => false)
      [bytesOf "HTTP/1.1 200 OK\r\nContent-Length: 2\r\n\r\nhi", bytesOf "HTTP/1.1 200 OK\r\nContent-Length: 0\r\n\r\n"]
      (bytesOf ("POST / HTTP/1.1\r\nHost: a.example\r\nContent-Length: 2\r\n\r\nok" ++
        "GET /b HTTP/1.1\r\nHost: a.example\r\n\r\n"))).all
      fun e => plainlyWhole (http2http [] []) e 200 := by decide +kernel
  exact whole_of_plainlyWhole (List.all_eq_true.mp checked e member)

/-- The Connection field crosses the length out, and the body stays behind as the next request. -/
theorem not_inSync_lengthNominated :
    ∃ e ∈ (http2http [] []).serveHttp none (fun _ => false) [bytesOf "HTTP/1.1 200 OK\r\nContent-Length: 0\r\n\r\n"]
        (bytesOf ("POST / HTTP/1.1\r\nHost: a.example\r\nContent-Length: 40\r\nConnection: content-length\r\n\r\n" ++
          "GET /admin HTTP/1.1\r\nHost: a.example\r\n\r\n")), e.goesOn ∧ ¬e.asked.InSync := by
  have served : (((http2http [] []).serveHttp none (fun _ => false)
      [bytesOf "HTTP/1.1 200 OK\r\nContent-Length: 0\r\n\r\n"]
      (bytesOf ("POST / HTTP/1.1\r\nHost: a.example\r\nContent-Length: 40\r\nConnection: content-length\r\n\r\n" ++
        "GET /admin HTTP/1.1\r\nHost: a.example\r\n\r\n"))).head?.map
      fun e => (e.goesOn, e.asked.lengthAsked, e.asked.behind.length, e.asked.left.length)) =
        some (true, some (.bytes 40), 40, 40) := by decide +kernel
  obtain ⟨e, isFirst, same⟩ := Option.map_eq_some_iff.mp served
  obtain ⟨goesOn, same⟩ := Prod.mk.inj same
  obtain ⟨asked, same⟩ := Prod.mk.inj same
  obtain ⟨behindLength, leftLength⟩ := Prod.mk.inj same
  refine ⟨e, List.mem_of_mem_head? isFirst, goesOn, ?_⟩
  rintro ⟨length, content, isLength, isContent, -⟩
  obtain rfl : BodyLength.bytes 40 = length := Option.some.inj (asked.symm.trans isLength)
  have isLeft : e.asked.behind.drop 40 = e.asked.left := by
    rw [bodyOf, if_neg (by rw [behindLength]; decide)] at isContent
    exact (Prod.mk.inj (Option.some.inj isContent)).2
  rw [← isLeft, List.length_drop, behindLength] at leftLength
  cases leftLength

end Bridge

end Nfrp
