import Nfrp.Server.HttpBackend

/-!
# Requests as they are forwarded

The body is read by what the head says as it came; what goes out in front of it is the head
with fields taken out, put in, and written anew.  The back end takes the two for one request
exactly where the fields left standing say of the body what it was read by.
-/

namespace Nfrp

open Lib HeadParts

/-- A request as it is forwarded: the head that came and what stood behind it, and what goes out. -/
structure Forwarded where
  req : HeadParts
  behind : List UInt8
  route : VhostRoute
  head : HeadParts
  length : BodyLength
  body : List UInt8

namespace HttpRequest

variable (tooLong : Nat → Bool)

/-- How the body was read, the body, and what is left. -/
def readBody (req : HeadParts) (io : List UInt8) : Option (BodyLength × List UInt8 × List UInt8) :=
  if (req.get "transfer-encoding".toList).isSome then
    if req.isChunked then (HttpIo.readChunked tooLong io).map fun read => (.chunked, read)
    else some (.bytes 0, [], io)
  else if 0 < req.count "content-length".toList then
    req.contentLengthStrict.bind fun n =>
      if 0 < n then (HttpIo.readN n io).map fun read => (.bytes n, read) else some (.bytes 0, [], io)
  else some (.bytes 0, [], io)

/-- The next request, if it is forwarded and is none for a tunnel. -/
def serveHttp (decodeBase64 : List Char → Option (List UInt8)) (table : VhostTable) (peerIp : List Char)
    (io : List UInt8) : Option Forwarded :=
  (HttpIo.readHead io).bind fun (lines, behind) =>
    (read lines).bind fun req =>
      match handleHttp decodeBase64 table peerIp lines with
      | .forward route _ head =>
        if isConnect req then none
        else (readBody tooLong req behind).map fun (length, body, _) => { req, behind, route, head, length, body }
      | _ => none

end HttpRequest

def VhostRoute.LeavesFraming (route : VhostRoute) : Prop :=
  ∀ field ∈ route.reqHeaders,
    namesField "transfer-encoding".toList field.1 = false ∧ namesField "content-length".toList field.1 = false

def VhostRoute.unsets (route : VhostRoute) (name : List Char) : Bool :=
  ((route.reqHeaders.filter fun field => field.2 = []).map Prod.fst).any (sameIgnoringCase name ·)

namespace Forwarded

/-- Head and body are one request to the back end, whose body is the one that was read. -/
def InSync (f : Forwarded) : Prop :=
  ∃ start content, requestMessage (f.head.toBytes ++ f.body) = some (⟨start, f.length, content⟩, []) ∧
    bodyOf f.length f.body = some (content, [])

/-- What the fields left standing say of the body is what the head as it came says. -/
def FramedAlike (f : Forwarded) : Prop :=
  let codings := f.req.standing "transfer-encoding".toList
  let lengths := f.req.standing "content-length".toList
  if f.req.isChunked then
    lengths = [] ∧ (codingsOf codings).getLast? = some "chunked".toList ∧
      ∃ content left, bodyOf .chunked f.behind = some (content, left)
  else
    codings = [] ∧
      (lengths = [] ∧ f.req.contentLengthStrict.getD 0 = 0 ∨
        ∃ value, lengths = [value] ∧ value ≠ [] ∧ value.all (isDigit 10) ∧
          ofDigits 10 value = f.req.contentLengthStrict.getD 0)

/-- The request can be read at all, and the body where it stands. -/
structure Whole (f : Forwarded) : Prop where
  startLine : (requestLine (stripCrlf f.req.startLine)).isSome
  names : ∀ field ∈ f.req.headers, IsName (sentName field.1) ∨ f.req.drops field.1 ∨ f.route.unsets field.1
  routeNames : ∀ field ∈ f.route.reqHeaders, field.2 ≠ [] →
    IsName (sentName field.1) ∨ f.route.unsets (stripCrlf field.1)
  framing : f.FramedAlike

end Forwarded

namespace HttpRequest

theorem sentName_allowMulti : ∀ word ∈ allowMulti, ∀ key ∈ ["transfer-encoding".toList, "content-length".toList],
    sentName word ≠ key.map Char.toLower := by
  decide +kernel

theorem notFraming_own : ∀ key ∈ ["transfer-encoding".toList, "content-length".toList],
    ∀ name ∈ ["host".toList, "x-forwarded-for".toList, "x-real-ip".toList], namesField key name = false := by
  decide +kernel

theorem single_framing {key : List Char} (isKey : key ∈ ["transfer-encoding".toList, "content-length".toList])
    (name : List Char) (named : namesField key name) : name.map Char.toLower ∉ allowMulti := by
  rw [namesField, sameIgnoringCase, beq_iff_eq, map_toLower_sentName] at named
  exact fun several => sentName_allowMulti _ several _ isKey named

variable {peerIp : List Char} {route : VhostRoute} {req : HeadParts}

theorem startLine_kept : (kept req).startLine = req.startLine := by
  rw [kept, dedupHeaders]
  exact startLine_stripHopByHop req

theorem startLine_forwardedHead : (forwardedHead peerIp route req).startLine = req.startLine := by
  have passed : ∀ head, (withReqHeaders route.reqHeaders head).startLine = head.startLine :=
    @withReqHeaders_keeps _ HeadParts.startLine _ (fun _ _ _ => rfl) fun _ _ _ => rfl
  rw [forwardedHead, passed, startLine_set, startLine_set]
  by_cases noRewrite : route.rewriteHost = []
  · rw [if_pos noRewrite, startLine_kept]
  · rw [if_neg noRewrite, startLine_set, startLine_kept]

theorem sentValues_forwardedHead {key : List Char} (single : ∀ name, namesField key name → name.map Char.toLower ∉ allowMulti)
    (others : ∀ name ∈ ["host".toList, "x-forwarded-for".toList, "x-real-ip".toList], namesField key name = false)
    (leaves : ∀ field ∈ route.reqHeaders, namesField key field.1 = false) :
    sentValues key (forwardedHead peerIp route req).headers = req.standing key := by
  have passed : ∀ head, sentValues key (withReqHeaders route.reqHeaders head).headers = sentValues key head.headers :=
    @withReqHeaders_keeps _ (sentValues key ·.headers) _
      (fun field member => sentValues_set (leaves field member) field.2)
      fun field member => sentValues_remove (leaves field member)
  have set : ∀ name ∈ ["host".toList, "x-forwarded-for".toList, "x-real-ip".toList], ∀ value (head : HeadParts),
      sentValues key (head.set name value).headers = sentValues key head.headers :=
    fun name member => sentValues_set (others name member)
  rw [forwardedHead, passed, set _ (by simp), set _ (by simp), ← sentValues_stripped single]
  split
  · rfl
  · exact set _ (by simp) _ _

theorem forall_withReqHeaders {property : List Char → Prop} (caseless : Caseless property) (head : HeadParts) :
    (∀ field ∈ (withReqHeaders route.reqHeaders head).headers, property field.1) ↔
      (∀ field ∈ route.reqHeaders, field.2 ≠ [] → property (stripCrlf field.1) ∨ route.unsets (stripCrlf field.1)) ∧
        ∀ field ∈ head.headers, property field.1 ∨ route.unsets field.1 := by
  have anyCase : Caseless fun name => property name ∨ route.unsets name := by
    intro name other same
    rw [sameIgnoringCase, beq_iff_eq] at same
    refine or_congr (caseless name other (beq_iff_eq.mpr same)) ?_
    simp only [VhostRoute.unsets, sameIgnoringCase, same]
  have removed := headers_foldl_remove ((route.reqHeaders.filter fun field => field.2 = []).map Prod.fst)
    ((route.reqHeaders.filter fun field => field.2 ≠ []).foldl (fun head field => head.set field.1 field.2) head)
  rw [List.foldl_map] at removed
  rw [withReqHeaders, removed]
  refine (forall_filter route.unsets _).trans ((forall_foldl_set anyCase head _).trans (and_congr_left' ?_))
  simp only [List.mem_filter, decide_eq_true_eq, and_imp]

theorem forall_kept {property : List Char → Prop} (caseless : Caseless property) :
    (∀ field ∈ (kept req).headers, property field.1) ↔ ∀ field ∈ req.headers, property field.1 ∨ req.drops field.1 := by
  rw [kept, dedupHeaders, forall_dedupFields caseless [] _ (by rintro _ ⟨⟩), headers_stripHopByHop, forall_filter]

theorem forall_forwardedHead :
    (∀ field ∈ (forwardedHead peerIp route req).headers, IsName (sentName field.1)) ↔
      (∀ field ∈ req.headers, IsName (sentName field.1) ∨ req.drops field.1 ∨ route.unsets field.1) ∧
        ∀ field ∈ route.reqHeaders, field.2 ≠ [] → IsName (sentName field.1) ∨ route.unsets (stripCrlf field.1) := by
  have isName : Caseless fun name => IsName (sentName name) := fun name other same => isName_congr same
  have orUnset : Caseless fun name => IsName (sentName name) ∨ route.unsets name := by
    intro name other same
    rw [sameIgnoringCase, beq_iff_eq] at same
    refine or_congr (isName name other (beq_iff_eq.mpr same)) ?_
    simp only [VhostRoute.unsets, sameIgnoringCase, same]
  rw [forwardedHead, forall_withReqHeaders isName, forall_set orUnset, forall_set orUnset, and_comm]
  simp only [sentName_stripCrlf]
  refine and_congr_left' ?_
  rw [and_iff_right (.inl (by decide)), and_iff_right (.inl (by decide))]
  have keptNames := (@forall_kept req _ orUnset).trans
    (forall₂_congr fun field _ => (or_assoc.trans (or_congr_right or_comm)))
  split
  · exact keptNames
  · rw [forall_set orUnset, and_iff_right (.inl (by decide))]
    exact keptNames

theorem framed_of_request {framedReq : HeadParts} (isFramed : framed req = .ok framedReq) (noTunnel : isConnect req = false) :
    framedReq = req ∧ ((req.get "transfer-encoding".toList).isSome → req.count "content-length".toList = 0) := by
  rw [framed, noTunnel, if_neg Bool.false_ne_true] at isFramed
  have passed : bodyFramed false req = .ok framedReq := isFramed
  rw [bodyFramed] at passed
  split at passed
  next => cases passed
  next notBoth =>
    have sole : (req.get "transfer-encoding".toList).isSome → req.count "content-length".toList = 0 := by
      intro coded
      by_contra some
      exact notBoth (Bool.and_eq_true _ _ ▸ ⟨coded, decide_eq_true (Nat.pos_of_ne_zero some)⟩)
    refine ⟨?_, sole⟩
    split at passed
    next => cases passed
    split at passed
    next => cases passed
    split at passed
    next =>
      split at passed
      next => cases passed
      next =>
        split at passed
        next => cases passed
        next => exact (Except.ok.inj passed).symm
    next => exact (Except.ok.inj passed).symm

theorem contentLengthStrict_of_none (none : req.count "content-length".toList = 0) : req.contentLengthStrict = some 0 := by
  have noValues : req.getAll "content-length".toList = [] := by
    rw [getAll, List.length_eq_zero_iff.mp none]
    rfl
  rw [contentLengthStrict, noValues]

theorem coded_of_isChunked (chunked : req.isChunked) : (req.get "transfer-encoding".toList).isSome := by
  cases found : req.get "transfer-encoding".toList with
  | none =>
    rw [isChunked, transferEncodingTokens, found] at chunked
    cases chunked
  | some _ => rfl

variable {tooLong : Nat → Bool} {behind body left : List UInt8} {length : BodyLength}

/-- What is taken for the body, and when it is one of its length. -/
theorem readBody_eq_some (isBody : readBody tooLong req behind = some (length, body, left))
    (sole : (req.get "transfer-encoding".toList).isSome → req.count "content-length".toList = 0) :
    if req.isChunked then
      length = .chunked ∧ ((∃ content, bodyOf .chunked body = some (content, [])) ↔
        ∃ content left, bodyOf .chunked behind = some (content, left))
    else length = .bytes (req.contentLengthStrict.getD 0) ∧ bodyOf length body = some (body, []) := by
  have empty : bodyOf (.bytes 0) [] = some ([], []) := rfl
  rw [readBody] at isBody
  split at isBody
  next coded =>
    by_cases chunked : req.isChunked
    · rw [if_pos chunked] at isBody ⊢
      obtain ⟨⟨taken, rest⟩, isRead, isTaken⟩ := Option.map_eq_some_iff.mp isBody
      obtain ⟨rfl, same⟩ := Prod.mk.inj isTaken
      obtain ⟨rfl, rfl⟩ := Prod.mk.inj same
      exact ⟨rfl, HttpIo.readChunked_eq_some isRead⟩
    · rw [if_neg chunked] at isBody ⊢
      obtain ⟨rfl, same⟩ := Prod.mk.inj (Option.some.inj isBody)
      obtain ⟨rfl, rfl⟩ := Prod.mk.inj same
      rw [contentLengthStrict_of_none (sole coded)]
      exact ⟨rfl, empty⟩
  next plain =>
    rw [if_neg (mt coded_of_isChunked plain)]
    split at isBody
    next =>
      obtain ⟨n, isLength, isBody⟩ := Option.bind_eq_some_iff.mp isBody
      rw [isLength]
      split at isBody
      next =>
        obtain ⟨⟨taken, rest⟩, isRead, isTaken⟩ := Option.map_eq_some_iff.mp isBody
        obtain ⟨rfl, same⟩ := Prod.mk.inj isTaken
        obtain ⟨rfl, rfl⟩ := Prod.mk.inj same
        obtain ⟨-, whole⟩ := HttpIo.readN_eq_some isRead
        refine ⟨rfl, ?_⟩
        rw [bodyOf, if_neg (not_lt.mpr whole.ge), ← whole, List.take_length, List.drop_length]
      next noneLeft =>
        obtain ⟨rfl, same⟩ := Prod.mk.inj (Option.some.inj isBody)
        obtain ⟨rfl, rfl⟩ := Prod.mk.inj same
        obtain rfl : n = 0 := Nat.eq_zero_of_not_pos noneLeft
        exact ⟨rfl, empty⟩
    next noField =>
      obtain ⟨rfl, same⟩ := Prod.mk.inj (Option.some.inj isBody)
      obtain ⟨rfl, rfl⟩ := Prod.mk.inj same
      rw [contentLengthStrict_of_none (Nat.eq_zero_of_not_pos noField)]
      exact ⟨rfl, empty⟩

theorem serveHttp_eq_some {decodeBase64 : List Char → Option (List UInt8)} {table : VhostTable} {io : List UInt8}
    {f : Forwarded} (served : serveHttp tooLong decodeBase64 table peerIp io = some f) :
    f.head = forwardedHead peerIp f.route f.req ∧
      ((f.req.get "transfer-encoding".toList).isSome → f.req.count "content-length".toList = 0) ∧
        ∃ left, readBody tooLong f.req f.behind = some (f.length, f.body, left) := by
  rw [serveHttp] at served
  obtain ⟨⟨lines, behind⟩, -, served⟩ := Option.bind_eq_some_iff.mp served
  obtain ⟨req, isRead, served⟩ := Option.bind_eq_some_iff.mp served
  split at served
  next route location head forwarded =>
    split at served
    next => cases served
    next noTunnel =>
      obtain ⟨⟨length, body, left⟩, isBody, isForwarded⟩ := Option.map_eq_some_iff.mp served
      obtain ⟨-, -, framedReq, isFramed, rfl⟩ := handleHttp_forward forwarded isRead
      obtain ⟨rfl, sole⟩ := framed_of_request isFramed (Bool.eq_false_iff.mpr noTunnel)
      subst isForwarded
      exact ⟨rfl, sole, left, isBody⟩
  next => cases served

variable {decodeBase64 : List Char → Option (List UInt8)} {table : VhostTable} {io : List UInt8} {f : Forwarded}

/-- Every request that is forwarded goes out as one request exactly when it can be read at all and the fields that are
left standing say of the body what it was read by. -/
theorem inSync_iff (served : serveHttp tooLong decodeBase64 table peerIp io = some f) (leaves : f.route.LeavesFraming) :
    f.InSync ↔ f.Whole := by
  obtain ⟨isHead, sole, left, isBody⟩ := serveHttp_eq_some served
  have stands : ∀ key ∈ ["transfer-encoding".toList, "content-length".toList],
      sentValues key f.head.headers = f.req.standing key := by
    intro key member
    rw [isHead]
    apply sentValues_forwardedHead (single_framing member)
    · intro name isName
      exact notFraming_own key member name isName
    · intro field inRoute
      simp only [List.mem_cons, List.not_mem_nil, or_false] at member
      rcases member with rfl | rfl
      · exact (leaves field inRoute).1
      · exact (leaves field inRoute).2
  have oneRequest : f.InSync ↔ (requestLine (stripCrlf f.req.startLine)).isSome ∧
      (∀ field ∈ f.head.headers, IsName (sentName field.1)) ∧
        (framing (f.req.standing "transfer-encoding".toList) (f.req.standing "content-length".toList)).bind
            Framing.ofRequest = some f.length ∧ ∃ content, bodyOf f.length f.body = some (content, []) := by
    rw [← @startLine_forwardedHead peerIp f.route f.req, ← isHead, ← stands _ (by simp), ← stands _ (by simp)]
    constructor
    · rintro ⟨start, content, isRequest, isContent⟩
      obtain ⟨isLine, names, isLength, -⟩ := requestMessage_toBytes.mp ⟨start, isRequest⟩
      exact ⟨isLine, names, isLength, content, isContent⟩
    · rintro ⟨isLine, names, isLength, content, isContent⟩
      obtain ⟨start, isRequest⟩ := requestMessage_toBytes.mpr ⟨isLine, names, isLength, isContent⟩
      exact ⟨start, content, isRequest, isContent⟩
  have framedAlike : ((framing (f.req.standing "transfer-encoding".toList) (f.req.standing "content-length".toList)).bind
      Framing.ofRequest = some f.length ∧ ∃ content, bodyOf f.length f.body = some (content, [])) ↔ f.FramedAlike := by
    have taken := readBody_eq_some isBody sole
    rw [Forwarded.FramedAlike]
    split at taken
    next chunked =>
      obtain ⟨isLength, same⟩ := taken
      rw [if_pos chunked, isLength, ofRequest_eq_chunked, framing_eq_chunked, same, and_assoc]
    next plain =>
      obtain ⟨isLength, whole⟩ := taken
      rw [isLength] at whole
      rw [if_neg plain, isLength, ofRequest_eq_bytes, framing_eq_absent, framing_eq_bytes, and_assoc, ← and_or_left]
      exact and_iff_left ⟨_, whole⟩
  rw [oneRequest, framedAlike, isHead, forall_forwardedHead]
  constructor
  · rintro ⟨isLine, ⟨names, routeNames⟩, alike⟩
    exact ⟨isLine, names, routeNames, alike⟩
  · rintro ⟨isLine, names, routeNames, alike⟩
    exact ⟨isLine, ⟨names, routeNames⟩, alike⟩

/-- A length that is not crossed out stands for itself. -/
theorem inSync_iff_ordinary :
    ∃ f, serveHttp (fun _ => false) (fun _ => none) publicOnly "192.0.2.1".toList
        (bytesOf "POST /public HTTP/1.1\r\nHost: a.example\r\nContent-Length: 2\r\n\r\nhi") = some f ∧
      (f.InSync ↔ f.Whole) ∧ f.body = bytesOf "hi" ∧
        (requestMessage (f.head.toBytes ++ f.body)).map (fun read => (read.1.body, read.2)) = some (bytesOf "hi", []) := by
  have served : (serveHttp (fun _ => false) (fun _ => none) publicOnly "192.0.2.1".toList
      (bytesOf "POST /public HTTP/1.1\r\nHost: a.example\r\nContent-Length: 2\r\n\r\nhi")).map
      (fun f => (f.route.reqHeaders, f.body, (requestMessage (f.head.toBytes ++ f.body)).map fun read => (read.1.body, read.2)))
        = some ([], bytesOf "hi", some (bytesOf "hi", [])) := by
    decide +kernel
  obtain ⟨f, isForwarded, same⟩ := Option.map_eq_some_iff.mp served
  obtain ⟨noHeaders, isRequest⟩ := Prod.mk.inj same
  have leaves : f.route.LeavesFraming := fun _ member => nomatch noHeaders ▸ member
  exact ⟨f, isForwarded, inSync_iff isForwarded leaves, Prod.mk.inj isRequest⟩

/-- The Connection field crosses the length out, and the body is the next request. -/
theorem not_inSync_nominated :
    ∃ f, serveHttp (fun _ => false) (fun _ => none) publicOnly "192.0.2.1".toList
        (bytesOf ("POST /public HTTP/1.1\r\nHost: a.example\r\nContent-Length: 40\r\nConnection: content-length\r\n\r\n" ++
          "GET /admin HTTP/1.1\r\nHost: a.example\r\n\r\n")) = some f ∧
      f.route.LeavesFraming ∧ ¬f.InSync := by
  have served : (serveHttp (fun _ => false) (fun _ => none) publicOnly "192.0.2.1".toList
      (bytesOf ("POST /public HTTP/1.1\r\nHost: a.example\r\nContent-Length: 40\r\nConnection: content-length\r\n\r\n" ++
        "GET /admin HTTP/1.1\r\nHost: a.example\r\n\r\n"))).map
      (fun f => (f.route.reqHeaders, requestMessage (f.head.toBytes ++ f.body))) =
        some ([], some (⟨"POST /public HTTP/1.1".toList, .bytes 0, []⟩,
          bytesOf "GET /admin HTTP/1.1\r\nHost: a.example\r\n\r\n")) := by
    decide +kernel
  obtain ⟨f, isForwarded, same⟩ := Option.map_eq_some_iff.mp served
  obtain ⟨noHeaders, isRequest⟩ := Prod.mk.inj same
  have leaves : f.route.LeavesFraming := fun _ member => nomatch noHeaders ▸ member
  refine ⟨f, isForwarded, leaves, ?_⟩
  rintro ⟨start, content, isWhole, -⟩
  have left := (Prod.mk.inj (Option.some.inj (isRequest.symm.trans isWhole))).2
  exact absurd left (by decide +kernel)

end HttpRequest

end Nfrp
