import Nfrp.Server.HttpFields
import Nfrp.Server.HttpRouting

/-!
What a back end makes of a forwarded request.
-/

namespace Nfrp

open Lib HeadParts

/-- Whether a back end takes the field for the Host field. -/
def namesHost (name : List Char) : Bool :=
  sameIgnoringCase ((stripCrlf name).takeWhile (· ≠ ':')) "host".toList

def hostValues (headers : List (List Char × List Char)) : List (List Char) :=
  fieldValues "host".toList (headers.map fieldLine)

def VhostRoute.LeavesHost (route : VhostRoute) : Prop :=
  ∀ field ∈ route.reqHeaders, namesHost field.1 = false

namespace HttpRequest

theorem foldl_keeps {Head Item Seen : Type} {change : Head → Item → Head} {look : Head → Seen} {items : List Item}
    (step : ∀ item ∈ items, ∀ head, look (change head item) = look head) (head : Head) :
    look (items.foldl change head) = look head := by
  induction items generalizing head with
  | nil => rfl
  | cons item items ih =>
    rw [List.foldl_cons, ih fun other member => step other (List.mem_cons_of_mem _ member),
      step item List.mem_cons_self]

def shown (head : HeadParts) : List Char × List (List Char) :=
  (head.startLine, hostValues head.headers)

theorem shown_set {name : List Char} (other : namesHost name = false) (value : List Char) (head : HeadParts) :
    shown (head.set name value) = shown head :=
  Prod.ext rfl (sentValues_set other value head)

theorem shown_remove {name : List Char} (other : namesHost name = false) (head : HeadParts) :
    shown (head.remove name) = shown head :=
  Prod.ext rfl (sentValues_remove other head)

theorem withReqHeaders_keeps {Seen : Type} {look : HeadParts → Seen} {fields : List (List Char × List Char)}
    (set : ∀ field ∈ fields, ∀ head : HeadParts, look (head.set field.1 field.2) = look head)
    (removed : ∀ field ∈ fields, ∀ head : HeadParts, look (head.remove field.1) = look head) (head : HeadParts) :
    look (withReqHeaders fields head) = look head := by
  rw [withReqHeaders, foldl_keeps fun field member => removed field (List.mem_of_mem_filter member),
    foldl_keeps fun field member => set field (List.mem_of_mem_filter member)]

theorem shown_withReqHeaders {fields : List (List Char × List Char)} (others : ∀ field ∈ fields, namesHost field.1 = false)
    (head : HeadParts) : shown (withReqHeaders fields head) = shown head :=
  withReqHeaders_keeps (fun field member => shown_set (others field member) field.2)
    (fun field member => shown_remove (others field member)) head

theorem shown_forwardedHead {route : VhostRoute} (noRewrite : route.rewriteHost = []) (leaves : route.LeavesHost)
    (peerIp : List Char) (req : HeadParts) : shown (forwardedHead peerIp route req) = shown (kept req) := by
  rw [forwardedHead, if_pos noRewrite, shown_withReqHeaders leaves, shown_set (by decide), shown_set (by decide)]

theorem effectiveUri_congr {head other : HeadParts} (same : shown head = shown other) :
    effectiveUri head.toLines = effectiveUri other.toLines := by
  obtain ⟨line, hosts⟩ := Prod.mk.inj same
  have hostOf : ∀ version, fieldHost version (head.headers.map fieldLine) = fieldHost version (other.headers.map fieldLine) := by
    intro version
    rw [fieldHost, fieldHost, ← hostValues, ← hostValues, hosts]
  simp only [toLines, effectiveUri, line, hostOf]

variable (decodeBase64 : List Char → Option (List UInt8)) (table : VhostTable) (peerIp : List Char)
  (lines : List (List Char))

/-- Wherever the request goes, the back end serves it for that route, and inside the location. -/
def RoutesWithin : Prop :=
  ∀ req, read lines = some req → ∀ route location head,
    handleHttp decodeBase64 table peerIp lines = .forward route location head → route.rewriteHost = [] →
      ∀ uri, effectiveUri head.toLines = some uri →
        (table.lookup uri.host (path req) (basicAuthUser decodeBase64 req) .http).map Prod.fst = some route ∧
          location <+: uri.resource

structure PlainLocation (location : List Char) : Prop where
  absolute : location = [] ∨ location.head? = some '/'
  noEscape : '%' ∉ location
  noQuery : '?' ∉ location

/-- The route that takes the request sets no Host, and takes it under a plain location. -/
def PlainlyRouted : Prop :=
  ∀ req, read lines = some req → ∀ route location,
    table.lookup (hostHeader req) (path req) (basicAuthUser decodeBase64 req) .http = some (route, location) →
      route.LeavesHost ∧ PlainLocation location

def isPlain (c : Char) : Bool := c != '%' && c != '?'

/-- The target up to its first escape, or to its query. -/
def plainFront (path : List Char) : List Char :=
  if path.head? = some '/' then path.takeWhile isPlain else []

/-- The back end reads the host that the request is routed by, and decoding and resolving dot segments leave it
the beginning of the target. -/
def ReadsAlike : Prop :=
  ∀ req, read lines = some req → hasDotSegment (path req) = false →
    ∀ framedReq, framed req = .ok framedReq →
      ∀ uri, effectiveUri (kept framedReq).toLines = some uri →
        normalHost uri.host = normalHost (hostHeader req) ∧ plainFront (path req) <+: uri.resource

theorem plainFront_begins (path : List Char) : plainFront path <+: path := by
  rw [plainFront]
  split
  next => exact List.takeWhile_prefix _
  next => exact List.nil_prefix

theorem plainLocation_plainFront (path : List Char) : PlainLocation (plainFront path) := by
  rw [plainFront]
  split
  next absolute =>
    refine ⟨?_, ?_, ?_⟩
    · cases path with
      | nil => exact .inl rfl
      | cons c rest =>
        obtain rfl := Option.some.inj absolute
        exact .inr rfl
    · exact fun escape => absurd (List.mem_takeWhile_imp escape) (by decide)
    · exact fun query => absurd (List.mem_takeWhile_imp query) (by decide)
  next => exact ⟨.inl rfl, List.not_mem_nil, List.not_mem_nil⟩

theorem prefix_plainFront {path location : List Char} (plain : PlainLocation location) (isPrefix : location <+: path) :
    location <+: plainFront path := by
  rcases plain.absolute with rfl | absolute
  · exact List.nil_prefix
  obtain ⟨rest, rfl⟩ := isPrefix
  have sameStart : (location ++ rest).head? = some '/' := by
    cases location with
    | nil => cases absolute
    | cons c location => exact absolute
  have allPlain : ∀ c ∈ location, isPlain c := by
    intro c member
    rw [isPlain, Bool.and_eq_true, bne_iff_ne, bne_iff_ne]
    exact ⟨fun same => plain.noEscape (same ▸ member), fun same => plain.noQuery (same ▸ member)⟩
  rw [plainFront, if_pos sameStart, List.takeWhile_append_of_pos allPlain]
  exact List.prefix_append _ _

theorem connectFramed_error {req : HeadParts} {answer : HttpAnswer} (failed : connectFramed req = .error answer) :
    answer = .badRequest := by
  rw [connectFramed] at failed
  split at failed
  next => exact (Except.error.inj failed).symm
  next => cases failed

theorem bodyFramed_error {connect : Bool} {req : HeadParts} {answer : HttpAnswer}
    (failed : bodyFramed connect req = .error answer) : answer = .badRequest ∨ answer = .closed := by
  rw [bodyFramed] at failed
  split at failed
  next => exact .inl (Except.error.inj failed).symm
  split at failed
  next => exact .inl (Except.error.inj failed).symm
  split at failed
  next => exact .inl (Except.error.inj failed).symm
  split at failed
  next =>
    split at failed
    next => exact .inl (Except.error.inj failed).symm
    next =>
      split at failed
      next => exact .inr (Except.error.inj failed).symm
      next => cases failed
  next => cases failed

theorem framed_error {req : HeadParts} {answer : HttpAnswer} (failed : framed req = .error answer) :
    answer = .badRequest ∨ answer = .closed := by
  rw [framed] at failed
  split at failed
  next =>
    cases entered : connectFramed req with
    | error first =>
      rw [entered] at failed
      obtain rfl := Except.error.inj failed
      exact .inl (connectFramed_error entered)
    | ok inner =>
      rw [entered] at failed
      exact bodyFramed_error failed
  next => exact bodyFramed_error failed

variable {decodeBase64 : List Char → Option (List UInt8)} {table : VhostTable} {peerIp : List Char}
  {lines : List (List Char)} {req framedReq : HeadParts} {route : VhostRoute} {location : List Char} {head : HeadParts}

theorem handleHttp_forward (forwarded : handleHttp decodeBase64 table peerIp lines = .forward route location head)
    (isRead : read lines = some req) :
    hasDotSegment (path req) = false ∧
      table.lookup (hostHeader req) (path req) (basicAuthUser decodeBase64 req) .http = some (route, location) ∧
        ∃ framedReq, framed req = .ok framedReq ∧ head = forwardedHead peerIp route framedReq := by
  rw [handleHttp, isRead] at forwarded
  simp only at forwarded
  split at forwarded
  next => cases forwarded
  next noDots =>
    split at forwarded
    next => split at forwarded <;> cases forwarded
    next chosen found isFound =>
      split at forwarded
      next => cases forwarded
      next =>
        split at forwarded
        next answer failed =>
          rcases framed_error failed with rfl | rfl <;> cases forwarded
        next framedReq isFramed =>
          obtain ⟨rfl, rfl, rfl⟩ := HttpAnswer.forward.inj forwarded
          exact ⟨Bool.eq_false_iff.mpr noDots, isFound, framedReq, isFramed, rfl⟩

theorem handleHttp_of_found (isRead : read lines = some req) (noDots : hasDotSegment (path req) = false)
    (isFramed : framed req = .ok framedReq) (noUser : route.httpUser = [])
    (isFound : table.lookup (hostHeader req) (path req) (basicAuthUser decodeBase64 req) .http = some (route, location)) :
    handleHttp decodeBase64 table peerIp lines = .forward route location (forwardedHead peerIp route framedReq) := by
  have passes : authorized decodeBase64 route req = true := by
    rw [authorized, noUser]
    rfl
  rw [handleHttp, isRead]
  simp only [noDots, isFound, passes, isFramed]
  rfl

def twoDomains (first second : List Char) (location : List Char) : VhostTable where
  exact := ((∅ : AList fun _ : List Char => List VhostRoute).insert second
    [{ proxyName := ['b'], client := 1, domain := second, locations := [location] }]).insert first
    [{ proxyName := ['a'], client := 0, domain := first, locations := [location] }]
  wildcard := ∅

theorem lookup_twoDomains {first second host path location : List Char} (authUser : Option (List Char))
    (isFirst : normalHost host = first) (isPrefix : location <+: path) :
    (twoDomains first second location).lookup host path authUser .http =
      some ({ proxyName := ['a'], client := 0, domain := first, locations := [location] }, location) := by
  refine VhostTable.lookup_of_alone ?_ rfl rfl rfl isPrefix
  rw [twoDomains, isFirst, AList.lookup_insert]

theorem lookup_twoDomains_second {first second host path location : List Char} (authUser : Option (List Char))
    (isSecond : normalHost host = second) (different : second ≠ first) (isPrefix : location <+: path) :
    (twoDomains first second location).lookup host path authUser .http =
      some ({ proxyName := ['b'], client := 1, domain := second, locations := [location] }, location) := by
  refine VhostTable.lookup_of_alone ?_ rfl rfl rfl isPrefix
  rw [twoDomains, isSecond, AList.lookup_insert_ne different, AList.lookup_insert]

theorem plainlyRouted_twoDomains (decodeBase64 : List Char → Option (List UInt8)) {lines : List (List Char)}
    {req : HeadParts} {location : List Char} (isRead : read lines = some req) (plain : PlainLocation location)
    (isPrefix : location <+: path req) (second : List Char) :
    PlainlyRouted decodeBase64 (twoDomains (normalHost (hostHeader req)) second location) lines := by
  intro other isOther route chosen found
  obtain rfl := Option.some.inj (isRead.symm.trans isOther)
  rw [lookup_twoDomains _ rfl isPrefix] at found
  obtain ⟨rfl, rfl⟩ := Prod.mk.inj (Option.some.inj found)
  exact ⟨fun _ member => absurd member List.not_mem_nil, plain⟩

theorem routesWithin_of_readsAlike (alike : ReadsAlike lines) (plainly : PlainlyRouted decodeBase64 table lines) :
    RoutesWithin decodeBase64 table peerIp lines := by
  intro req isRead route location head forwarded noRewrite uri isUri
  obtain ⟨noDots, isFound, framedReq, isFramed, rfl⟩ := handleHttp_forward forwarded isRead
  obtain ⟨leaves, plain⟩ := plainly req isRead route location isFound
  rw [effectiveUri_congr (shown_forwardedHead noRewrite leaves peerIp framedReq)] at isUri
  obtain ⟨sameHost, begins⟩ := alike req isRead noDots framedReq isFramed uri isUri
  refine ⟨?_, (prefix_plainFront plain (VhostTable.lookup_under isFound).2).trans begins⟩
  rw [VhostTable.lookup_congr sameHost, isFound]
  rfl

/-- A request that a back end reads otherwise is led astray by some table. -/
theorem readsAlike_of_routesWithin
    (within : ∀ table, PlainlyRouted decodeBase64 table lines → RoutesWithin decodeBase64 table peerIp lines) :
    ReadsAlike lines := by
  intro req isRead noDots framedReq isFramed uri isUri
  have front := plainFront_begins (path req)
  have astray : ∀ second, ((twoDomains (normalHost (hostHeader req)) second (plainFront (path req))).lookup uri.host
      (path req) (basicAuthUser decodeBase64 req) .http).map Prod.fst
        = some { proxyName := ['a'], client := 0, domain := normalHost (hostHeader req),
                 locations := [plainFront (path req)] } ∧ plainFront (path req) <+: uri.resource := by
    intro second
    refine within _ (plainlyRouted_twoDomains decodeBase64 isRead (plainLocation_plainFront _) front second) req isRead
      _ _ _ (handleHttp_of_found isRead noDots isFramed rfl (lookup_twoDomains _ rfl front)) rfl uri ?_
    rw [effectiveUri_congr (shown_forwardedHead rfl (fun _ member => absurd member List.not_mem_nil) peerIp framedReq)]
    exact isUri
  refine ⟨?_, (astray []).2⟩
  by_contra different
  have elsewhere := (astray (normalHost uri.host)).1
  rw [lookup_twoDomains_second _ rfl different front] at elsewhere
  have sameClient : 1 = 0 := congrArg VhostRoute.client (Option.some.inj elsewhere)
  cases sameClient

/-- No table leads a request astray exactly when a back end reads it as it is routed. -/
theorem routesWithin_iff (decodeBase64 : List Char → Option (List UInt8)) (peerIp : List Char) (lines : List (List Char)) :
    (∀ table, PlainlyRouted decodeBase64 table lines → RoutesWithin decodeBase64 table peerIp lines) ↔ ReadsAlike lines :=
  ⟨readsAlike_of_routesWithin, fun alike _ plainly => routesWithin_of_readsAlike alike plainly⟩

def publicOnly : VhostTable where
  exact := (∅ : AList fun _ : List Char => List VhostRoute).insert "a.example".toList
    [{ proxyName := "site".toList, client := 0, domain := "a.example".toList, locations := ["/public".toList] }]
  wildcard := ∅

/-- An encoded slash hides the dot segment, and the back end serves `/admin`. -/
theorem not_routesWithin_encodedSlash :
    ¬ RoutesWithin (fun _ => none) publicOnly "192.0.2.1".toList
      ["GET /public/..%2fadmin HTTP/1.1".toList, "Host: a.example".toList] := by
  intro within
  have led := within _ rfl _ _ _ rfl rfl _ rfl
  exact absurd (List.isPrefixOf_iff_prefix.mpr led.2) (by decide +kernel)

end HttpRequest

end Nfrp
