import Nfrp.Server.Vhost

/-!
Requests on the HTTP port, and what a back end makes of them.

A request is routed by its target as it stands and by its first Host field; what is
forwarded is the head without the fields of this hop.  The back end computes the
effective request URI from that head, and normalises the path.  `ReadsAlike` says of
a request that both read the same host and the same plain beginning of the path;
it does not speak of routes.
-/

namespace Nfrp

open Lib

/-- The text with `%2` and the given letter read as a dot. -/
def undot (letter : Char) : List Char → List Char
  | '%' :: '2' :: c :: rest =>
    if c = letter then '.' :: undot letter rest else '%' :: undot letter ('2' :: c :: rest)
  | c :: rest => c :: undot letter rest
  | [] => []

def hasDotSegment (path : List Char) : Bool :=
  (path.splitOnP (· ∈ ['/', '\\', '?', '#'])).any fun segment =>
    let decoded := undot 'E' (undot 'e' segment)
    decoded == ['.'] || decoded == ['.', '.']

def withoutScheme (authority : List Char) : List Char :=
  if "http://".toList.isPrefixOf authority then authority.drop 7
  else if "https://".toList.isPrefixOf authority then authority.drop 8
  else authority

def withoutPort : List Char → List Char
  | '[' :: rest => rest.takeWhile (· ≠ ']')
  | named => ((rsplitOnce ':' named).map Prod.fst).getD named

def canonicalHost (authority : List Char) : List Char :=
  normalHost (withoutPort (trimmed ((withoutScheme (trimmed authority)).takeWhile (· ≠ '/'))))

namespace HttpRequest

variable (decodeBase64 : List Char → Option (List UInt8))

/-- The head as read, without an expectation that was answered at once. -/
def read (lines : List (List Char)) : Option HeadParts :=
  (HeadParts.parse lines).map fun req =>
    if (req.get "expect".toList).any (sameIgnoringCase · "100-continue".toList) then req.remove "expect".toList else req

def isConnect (req : HeadParts) : Bool :=
  sameIgnoringCase ((req.startToken 0).getD []) "CONNECT".toList

def path (req : HeadParts) : List Char :=
  if isConnect req then ['/'] else (req.startToken 1).getD ['/']

def hostHeader (req : HeadParts) : List Char :=
  let field := ((req.get "host".toList).map canonicalHost).getD []
  if isConnect req then
    let authority := canonicalHost ((req.startToken 1).getD [])
    if authority = [] then field else authority
  else field

/-- What stands behind the scheme of the Authorization field, decoded. -/
def credentials (value : List Char) : Option (List Char) :=
  ((decodeBase64 (trimmed value)).bind textOf).map String.toList

def basicAuthUser (req : HeadParts) : Option (List Char) :=
  (req.get "authorization".toList).bind fun raw =>
    (splitOnce ' ' raw).bind fun parts =>
      if sameIgnoringCase parts.1 "basic".toList then
        (credentials decodeBase64 parts.2).map fun text => text.takeWhile (· ≠ ':')
      else none

def authorized (route : VhostRoute) (req : HeadParts) : Bool :=
  route.httpUser == [] ||
    match basicAuthUser decodeBase64 req with
    | none => false
    | some user =>
      user == route.httpUser && (route.httpPwd == [] ||
        ((splitOnce ' ' ((req.get "authorization".toList).getD [])).bind fun parts =>
          credentials decodeBase64 parts.2).getD [] == route.httpUser ++ ':' :: route.httpPwd)

end HttpRequest

inductive HttpAnswer where
  | badRequest
  | notFound
  | methodNotAllowed
  | unauthorized
  | closed
  /-- Sent to the back end of the route, which was chosen under the location. -/
  | forward (route : VhostRoute) (location : List Char) (head : HeadParts)
  deriving DecidableEq, Repr

namespace HttpRequest

variable (decodeBase64 : List Char → Option (List UInt8))

def connectFramed (req : HeadParts) : Except HttpAnswer HeadParts :=
  if 0 < req.count "content-length".toList && req.contentLengthStrict != some 0 ||
      (req.get "transfer-encoding".toList).isSome then .error .badRequest
  else .ok (((req.remove "content-length".toList).remove "transfer-encoding".toList).remove "trailer".toList)

def bodyFramed (connect : Bool) (req : HeadParts) : Except HttpAnswer HeadParts :=
  let encoded := (req.get "transfer-encoding".toList).isSome
  let lengths := req.count "content-length".toList
  if encoded && 0 < lengths then .error .badRequest
  else if 1 < lengths then .error .badRequest
  else if req.transferEncodingIsUnsupported then .error .badRequest
  else if !connect && !encoded && 0 < lengths then
    match req.contentLengthStrict with
    | none => .error .badRequest
    | some length => if maxBody < length then .error .closed else .ok req
  else .ok req

def framed (req : HeadParts) : Except HttpAnswer HeadParts :=
  (if isConnect req then connectFramed req else .ok req).bind (bodyFramed (isConnect req))

/-- What is left of a head before the route has its say. -/
def kept (req : HeadParts) : HeadParts :=
  req.stripHopByHop.dedupHeaders

def withReqHeaders (fields : List (List Char × List Char)) (req : HeadParts) : HeadParts :=
  let added := (fields.filter fun field => field.2 ≠ []).foldl (fun head field => head.set field.1 field.2) req
  (fields.filter fun field => field.2 = []).foldl (fun head field => head.remove field.1) added

def forwardedHead (peerIp : List Char) (route : VhostRoute) (req : HeadParts) : HeadParts :=
  let req := kept req
  let req := if route.rewriteHost = [] then req else req.set "host".toList route.rewriteHost
  let forwarded :=
    match req.get "x-forwarded-for".toList with
    | some earlier => earlier ++ ", ".toList ++ peerIp
    | none => peerIp
  let req := (req.set "x-forwarded-for".toList forwarded).set "x-real-ip".toList peerIp
  withReqHeaders route.reqHeaders req

/-- The answer to a head, once the body is read and a work connection is there. -/
def handleHttp (table : VhostTable) (peerIp : List Char) (lines : List (List Char)) : HttpAnswer :=
  match read lines with
  | none => .closed
  | some req =>
    if hasDotSegment (path req) then .badRequest
    else
      match table.lookup (hostHeader req) (path req) (basicAuthUser decodeBase64 req) .http with
      | none => if isConnect req then .methodNotAllowed else .notFound
      | some (route, location) =>
        if !authorized decodeBase64 route req then .unauthorized
        else
          match framed req with
          | .error answer => answer
          | .ok framedReq => .forward route location (forwardedHead peerIp route framedReq)

end HttpRequest

end Nfrp
