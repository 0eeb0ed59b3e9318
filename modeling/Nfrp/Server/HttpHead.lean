import Nfrp.Lib.Message

/-!
Heads of HTTP messages, as the relay reads, changes and writes them.

A head keeps its fields in order.  Reading a field finds the first of its name,
writing the head writes all of them; carriage returns, line feeds and zero
characters are dropped on the way out, and not on the way in.
-/

namespace Nfrp

open Lib

structure HeadParts where
  startLine : List Char
  headers : List (List Char × List Char)
  deriving DecidableEq, Repr

def maxBody : Nat := 32 * 1024 * 1024

def hopByHop : List (List Char) :=
  ["connection".toList, "keep-alive".toList, "proxy-authenticate".toList, "proxy-authorization".toList,
    "proxy-connection".toList, "te".toList, "trailer".toList, "upgrade".toList]

def allowMulti : List (List Char) :=
  ["set-cookie".toList, "www-authenticate".toList, "proxy-authenticate".toList, "warning".toList]

def splitWhitespace (text : List Char) : List (List Char) :=
  (text.splitOnP isWhitespace).filter (· ≠ [])

/-- A number of a machine width; a sign may stand before it. -/
def fromStrRadix (radix limit : Nat) (text : List Char) : Option Nat :=
  let digits := if text.head? = some '+' then text.tail else text
  if digits = [] ∨ ¬digits.all (isDigit radix) then none
  else if limit < ofDigits radix digits then none
  else some (ofDigits radix digits)

def stripCrlf (text : List Char) : List Char :=
  text.filter fun c => !(c ∈ ['\r', '\n', Char.ofNat 0])

namespace HeadParts

def parse : List (List Char) → Option HeadParts
  | [] => none
  | startLine :: lines =>
    some {
      startLine
      headers := lines.filterMap fun line =>
        (splitOnce ':' line).map fun parts => (trimmed parts.1, trimmed parts.2) }

def getAll (parts : HeadParts) (name : List Char) : List (List Char) :=
  (parts.headers.filter fun field => sameIgnoringCase field.1 name).map Prod.snd

def get (parts : HeadParts) (name : List Char) : Option (List Char) :=
  (parts.headers.find? fun field => sameIgnoringCase field.1 name).map Prod.snd

def count (parts : HeadParts) (name : List Char) : Nat :=
  (parts.headers.filter fun field => sameIgnoringCase field.1 name).length

def setField (name value : List Char) : List (List Char × List Char) → List (List Char × List Char)
  | [] => [(name, value)]
  | field :: later =>
    if sameIgnoringCase field.1 name then (field.1, value) :: later else field :: setField name value later

def set (parts : HeadParts) (name value : List Char) : HeadParts :=
  { parts with headers := setField (stripCrlf name) (stripCrlf value) parts.headers }

def remove (parts : HeadParts) (name : List Char) : HeadParts :=
  { parts with headers := parts.headers.filter fun field => !sameIgnoringCase field.1 name }

def startToken (parts : HeadParts) (n : Nat) : Option (List Char) :=
  (splitWhitespace parts.startLine)[n]?

/-- Fields of a name seen before are dropped, unless they may be there more than once. -/
def dedupFields (seen : List (List Char)) : List (List Char × List Char) → List (List Char × List Char)
  | [] => []
  | field :: later =>
    let name := field.1.map Char.toLower
    if name ∈ allowMulti then field :: dedupFields seen later
    else if name ∈ seen then dedupFields seen later
    else field :: dedupFields (name :: seen) later

def dedupHeaders (parts : HeadParts) : HeadParts :=
  { parts with headers := dedupFields [] parts.headers }

def fieldLine (field : List Char × List Char) : List Char :=
  stripCrlf field.1 ++ ": ".toList ++ stripCrlf field.2

/-- The lines that go out, each to be followed by a carriage return and a line feed. -/
def toLines (parts : HeadParts) : List (List Char) :=
  stripCrlf parts.startLine :: parts.headers.map fieldLine

/-- No field counts as the length zero, and a field that is no plain number as an error. -/
def contentLengthStrict (parts : HeadParts) : Option Nat :=
  match parts.getAll "content-length".toList with
  | [] => some 0
  | [value] =>
    let digits := trimmed value
    if digits = [] ∨ ¬ digits.all (isDigit 10) then none
    else if 2 ^ 64 ≤ ofDigits 10 digits then none
    else some (ofDigits 10 digits)
  | _ => none

def listed (value : List Char) : List (List Char) :=
  ((value.splitOn ',').map trimmed).filter (· ≠ [])

def connectionTokens (parts : HeadParts) : List (List Char) :=
  ((parts.get "connection".toList).map listed).getD []

def transferEncodingTokens (parts : HeadParts) : List (List Char) :=
  ((parts.get "transfer-encoding".toList).map fun raw => (listed raw).map (List.map Char.toLower)).getD []

def transferEncodingIsUnsupported (parts : HeadParts) : Bool :=
  match parts.transferEncodingTokens.reverse with
  | [] => false
  | last :: earlier => !(last == "chunked".toList && earlier.all (· == "identity".toList))

def stripHopByHop (parts : HeadParts) : HeadParts :=
  (hopByHop ++ parts.connectionTokens).foldl remove parts

def toBytes (parts : HeadParts) : List UInt8 :=
  (parts.toLines.flatMap fun line => encoded line ++ crlf) ++ crlf

def bodyLength (parts : HeadParts) : Option Nat :=
  (parts.get "content-length".toList).bind fun value => fromStrRadix 10 (2 ^ 64 - 1) (trimmed value)

def isChunked (parts : HeadParts) : Bool :=
  match parts.transferEncodingTokens.reverse with
  | [] => false
  | last :: earlier => last == "chunked".toList && earlier.all (· == "identity".toList)

def hasNoBody (parts : HeadParts) : Bool :=
  "HTTP/".toList.isPrefixOf (parts.startLine.map Char.toUpper) &&
    ((parts.startToken 1).bind (fromStrRadix 10 65535)).any fun code =>
      100 ≤ code && code < 200 || code == 204 || code == 304

def wantsKeepAlive (parts : HeadParts) : Bool :=
  let conn := ((((parts.get "connection".toList).getD []).map Char.toLower).splitOn ',').map trimmed
  if "close".toList ∈ conn then false
  else if "HTTP/1.0".toList <:+: parts.startLine.map Char.toUpper then "keep-alive".toList ∈ conn
  else true

def wantsUpgrade (parts : HeadParts) : Bool :=
  (parts.get "upgrade".toList).isSome &&
    (parts.get "connection".toList).any fun value =>
      ((value.splitOn ',').map trimmed).any (sameIgnoringCase · "upgrade".toList)

def validateRequestFraming (req : HeadParts) : Except String Unit :=
  let hasTe := (req.get "transfer-encoding".toList).isSome
  let clCount := req.count "content-length".toList
  if hasTe ∧ 0 < clCount then .error "Transfer-Encoding 与 Content-Length 不能同时出现"
  else if 1 < clCount then .error "重复的 Content-Length 头"
  else if req.transferEncodingIsUnsupported then .error "Transfer-Encoding 只支持唯一的 chunked"
  else .ok ()

def validateResponseFraming (resp : HeadParts) : Except String Unit :=
  let hasTe := (resp.get "transfer-encoding".toList).isSome
  let clCount := resp.count "content-length".toList
  if resp.hasNoBody then .ok ()
  else if hasTe ∧ 0 < clCount then .error "响应同时带 Transfer-Encoding 与 Content-Length（走私风险）"
  else if 1 < clCount then .error "响应带重复的 Content-Length 头（走私风险）"
  else if resp.transferEncodingIsUnsupported then
    .error "响应的 Transfer-Encoding 不是受支持的形态（只支持唯一的 chunked）"
  else .ok ()

end HeadParts

end Nfrp
