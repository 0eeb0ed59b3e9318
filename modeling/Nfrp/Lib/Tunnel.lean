import Nfrp.Lib.Base64
import Nfrp.Lib.Message

/-!
Tunnels through a proxy, as the proxy reads what it is asked.

An HTTP proxy takes a CONNECT request; its target is a host and a port, and a field has the
name and the password.  Of SOCKS version 5, a client offers methods, and the server chooses
one; with the second of them it is told a name and a password.  Then it is asked for a
connection, and what is behind its answer to that is no part of the exchange.
-/

namespace Nfrp.Lib

namespace Connect

structure Asked where
  host : List Char
  port : Nat
  login : Option (List Char × List Char)
  deriving DecidableEq

section

variable (decodeBase64 : List Char → Option (List UInt8))

/-- The name and the password of the Basic scheme, if there are any. -/
def loginOf (fields : Fields) : Option (Option (List Char × List Char)) :=
  match valuesOf "proxy-authorization".toList fields with
  | [] => some none
  | [value] =>
    if value.take 6 = "Basic ".toList then
      (((decodeBase64 (value.drop 6)).bind textOf).bind fun text => splitOnce ':' text.toList).map some
    else none
  | _ => none

def asked (bytes : List UInt8) : Option Asked :=
  (httpRequest bytes).bind fun found =>
    if found.1.method = "CONNECT".toList ∧ found.1.body = [] ∧ found.2 = [] then
      (hostPort none found.1.target).bind fun named =>
        (loginOf decodeBase64 found.1.fields).map fun login => ⟨named.1, named.2, login⟩
    else none

end

def requestText (target : List Char) : List Char := "CONNECT".toList ++ ' ' :: (target ++ ' ' :: "HTTP/1.1".toList)

theorem noBlank_parts {target : List Char} (plain : ∀ c ∈ target, isUriChar c) :
    ∀ part ∈ ["CONNECT".toList, target, "HTTP/1.1".toList], ' ' ∉ part := by
  rw [List.forall_mem_cons, List.forall_mem_cons, List.forall_mem_cons]
  refine ⟨by decide, fun blank => absurd (plain ' ' blank) (by decide), by decide, fun part member => ?_⟩
  cases member

theorem intercalate_parts (a b c : List Char) : [' '].intercalate [a, b, c] = a ++ ' ' :: (b ++ ' ' :: c) := by
  simp [List.intercalate]

theorem splitOn_requestText {target : List Char} (plain : ∀ c ∈ target, isUriChar c) :
    (requestText target).splitOn ' ' = ["CONNECT".toList, target, "HTTP/1.1".toList] := by
  unfold requestText
  rw [← intercalate_parts]
  exact List.splitOn_intercalate ' ' (noBlank_parts plain) (List.cons_ne_nil _ _)

theorem requestLine_of_splitOn {line method target version : List Char} (pieces : line.splitOn ' ' = [method, target, version])
    (checked : method ≠ [] ∧ method.all isVisible ∧ target ≠ [] ∧ target.all isUriChar) :
    requestLine line = some (method, target, version) := by
  rw [requestLine, pieces]
  exact if_pos checked

theorem requestLine_requestText {target : List Char} (isSome : target ≠ []) (plain : ∀ c ∈ target, isUriChar c) :
    requestLine (requestText target) = some ("CONNECT".toList, target, "HTTP/1.1".toList) :=
  requestLine_of_splitOn (splitOn_requestText plain) ⟨by decide, by decide, isSome, List.all_eq_true.mpr plain⟩

theorem areLines_requestText {target : List Char} (isSome : target ≠ []) (plain : ∀ c ∈ target, isUriChar c) :
    requestText target ≠ [] ∧ '\r' ∉ requestText target ∧ '\n' ∉ requestText target := by
  have noControl : ∀ control, isAscii control → isUriChar control = false → control ∉ "CONNECT".toList → control ≠ ' ' →
      control ∉ "HTTP/1.1".toList → control ∉ requestText target := by
    intro control ascii notPlain first notBlank last member
    unfold requestText at member
    rw [List.mem_append, List.mem_cons, List.mem_append, List.mem_cons] at member
    rcases member with inFirst | isBlank | inTarget | isBlank | inLast
    · exact first inFirst
    · exact notBlank isBlank
    · have isPlain := plain control inTarget
      rw [notPlain] at isPlain
      cases isPlain
    · exact notBlank isBlank
    · exact last inLast
  refine ⟨?_, ?_, ?_⟩
  · exact fun empty => List.cons_ne_nil _ _ (List.append_eq_nil_iff.mp empty).2
  · exact noControl '\r' (by decide) (by decide) (by decide) (by decide) (by decide)
  · exact noControl '\n' (by decide) (by decide) (by decide) (by decide) (by decide)

theorem encoded_append (front behind : List Char) : encoded (front ++ behind) = encoded front ++ encoded behind := by
  induction front with
  | nil => rfl
  | cons c front ih =>
    rw [encoded, encoded, List.cons_append, bytesOf_ofList_cons, bytesOf_ofList_cons, List.append_assoc]
    exact congrArg _ ih

theorem encoded_lines (lines : List (List Char)) :
    encoded ((lines.flatMap fun line => line ++ ['\r', '\n']) ++ ['\r', '\n']) = headBytes (lines.map encoded) [] := by
  have isCrlf : encoded ['\r', '\n'] = crlf := by decide
  induction lines with
  | nil => exact isCrlf
  | cons line lines ih =>
    rw [List.flatMap_cons, List.append_assoc, List.append_assoc, encoded_append, encoded_append, ih,
      isCrlf, List.map_cons, headBytes_cons, List.append_assoc]

theorem valuesOf_cons (name key value : List Char) (fields : Fields) :
    valuesOf name ((key, value) :: fields) = if key = name then value :: valuesOf name fields else valuesOf name fields := by
  rw [valuesOf, List.filter_cons]
  by_cases same : key = name
  · rw [if_pos (decide_eq_true same), if_pos same]
    rfl
  · rw [if_neg (by rwa [decide_eq_true_eq]), if_neg same]
    rfl

theorem fieldOf_append {name value : List Char} (isName : name ≠ [] ∧ name.all isTokenChar)
    (plain : ∀ c ∈ value, isFieldChar c) : fieldOf (name ++ ':' :: value) = some (name.map Char.toLower, unblanked value) := by
  have noColon : ':' ∉ name := fun member => absurd (List.all_eq_true.mp isName.2 ':' member) (by decide)
  rw [fieldOf, splitOnce_append noColon, Option.bind_some, if_pos ⟨isName.1, isName.2, List.all_eq_true.mpr plain⟩]

theorem unblanked_cons {text : List Char} (front : ∀ c ∈ text.head?, isBlank c = false)
    (back : ∀ c ∈ text.getLast?, isBlank c = false) : unblanked (' ' :: text) = text := by
  have noFront : text.dropWhile isBlank = text := by
    cases text with
    | nil => rfl
    | cons c rest => exact List.dropWhile_cons_of_neg (Bool.eq_false_iff.mp (front c rfl))
  have isBlank : isBlank ' ' = true := by decide
  rw [unblanked, List.dropWhile_cons_of_pos isBlank, noFront, List.rdropWhile_eq_self_iff]
  intro some
  exact Bool.eq_false_iff.mp (back _ (List.getLast?_eq_some_getLast some))

theorem latin1_encoded_of_ascii {line : List Char} (ascii : ∀ c ∈ line, isAscii c) : latin1 (encoded line) = line := by
  rw [latin1_encoded]
  exact ((SameAscii.octets line).symm.eq_of_ascii ascii).symm

theorem mapM_encoded {lines : List (List Char)} (ascii : ∀ line ∈ lines, ∀ c ∈ line, isAscii c) :
    (lines.map encoded).mapM (fun line => fieldOf (latin1 line)) = lines.mapM fieldOf := by
  induction lines with
  | nil => rfl
  | cons line lines ih =>
    have later := ih fun other member => ascii other (List.mem_cons_of_mem _ member)
    rw [List.map_cons, List.mapM_cons, List.mapM_cons, later, latin1_encoded_of_ascii (ascii line List.mem_cons_self)]

theorem httpRequest_of_head {bytes start : List UInt8} {lines : List (List UInt8)} {method target version : List Char}
    {fields : Fields} (isHead : headLines bytes.length bytes = some (start :: lines, []))
    (isStart : requestLine (latin1 start) = some (method, target, version))
    (areFields : lines.mapM (fun line => fieldOf (latin1 line)) = some fields)
    (noBody : bodyLength fields = some (.bytes 0)) (isToken : method.all isTokenChar) (isVersion : version = "HTTP/1.1".toList) :
    httpRequest bytes = if hasHost fields then some (⟨method, target, fields, []⟩, []) else none := by
  simp only [httpRequest, isHead, Option.bind_eq_bind, Option.bind_some, List.headD_cons, List.tail_cons, isStart,
    areFields, isToken, isVersion, noBody, bodyOf, true_and]
  rfl

theorem asked_headBytes {decodeBase64 : List Char → Option (List UInt8)} {target : List Char} {lines : List (List Char)}
    {fields : Fields} (isSome : target ≠ []) (plain : ∀ c ∈ target, isUriChar c) (areLines : AreLines lines)
    (ascii : ∀ line ∈ lines, ∀ c ∈ line, isAscii c) (areFields : lines.mapM fieldOf = some fields)
    (noBody : bodyLength fields = some (.bytes 0)) :
    asked decodeBase64 (headBytes ((requestText target :: lines).map encoded) []) =
      if hasHost fields then
        (hostPort none target).bind fun named =>
          (loginOf decodeBase64 fields).map fun login => ⟨named.1, named.2, login⟩
      else none := by
  have isRequest := requestLine_requestText isSome plain
  have isStart : latin1 (encoded (requestText target)) = requestText target :=
    latin1_encoded_of_ascii (isAscii_requestLine isRequest)
  have isHead : AreLines (requestText target :: lines) :=
    List.forall_mem_cons.mpr ⟨areLines_requestText isSome plain, areLines⟩
  have found := httpRequest_of_head (headLines_encoded isHead []) (isStart.symm ▸ isRequest)
    ((mapM_encoded ascii).trans areFields) noBody (by decide) rfl
  rw [asked, found]
  by_cases hosted : hasHost fields
  · rw [if_pos hosted, if_pos hosted, Option.bind_some, if_pos ⟨rfl, rfl, rfl⟩]
  · rw [if_neg hosted, if_neg hosted]
    rfl

end Connect

namespace Socks

inductive Address where
  | ip (addr : IpAddr)
  | name (octets : List UInt8)
  deriving DecidableEq

structure Asked where
  login : Option (List UInt8 × List UInt8)
  address : Address
  port : Nat
  deriving DecidableEq

def takeExact (count : Nat) (bytes : List UInt8) : Option (List UInt8 × List UInt8) :=
  if bytes.length < count then none else some (bytes.take count, bytes.drop count)

/-- As many bytes as the first one says; none is allowed. -/
def counted : List UInt8 → Option (List UInt8 × List UInt8)
  | [] => none
  | count :: rest => takeExact count.toNat rest

def greeting : List UInt8 → Option (List UInt8 × List UInt8)
  | [] => none
  | version :: rest => if version = 5 then counted rest else none

def credentials : List UInt8 → Option ((List UInt8 × List UInt8) × List UInt8)
  | [] => none
  | version :: rest =>
    if version = 1 then
      (counted rest).bind fun user => (counted user.2).map fun passwd => ((user.1, passwd.1), passwd.2)
    else none

/-- What the method that was chosen has the client tell. -/
def told (method : UInt8) (bytes : List UInt8) : Option (Option (List UInt8 × List UInt8) × List UInt8) :=
  if method = 0 then some (none, bytes)
  else if method = 2 then (credentials bytes).map fun found => (some found.1, found.2)
  else none

def address : List UInt8 → Option (Address × List UInt8)
  | [] => none
  | kind :: rest =>
    if kind = 1 then (takeExact 4 rest).map fun found => (.ip (.v4 (BitVec.ofNat 32 (ofBeBytes found.1))), found.2)
    else if kind = 3 then (counted rest).map fun found => (.name found.1, found.2)
    else if kind = 4 then
      (takeExact 16 rest).map fun found => (.ip (.v6 (BitVec.ofNat 128 (ofBeBytes found.1))), found.2)
    else none

def endpoint (bytes : List UInt8) : Option ((Address × Nat) × List UInt8) :=
  (address bytes).bind fun found =>
    (takeExact 2 found.2).map fun port => ((found.1, ofBeBytes port.1), port.2)

def request : List UInt8 → Option ((Address × Nat) × List UInt8)
  | version :: command :: reserved :: rest =>
    if version = 5 ∧ command = 1 ∧ reserved = 0 then endpoint rest else none
  | _ => none

/-- What a server that chooses the method is asked for by all that it is sent. -/
def asked (method : UInt8) (bytes : List UInt8) : Option Asked :=
  (greeting bytes).bind fun offered =>
    if method ∈ offered.1 then
      (told method offered.2).bind fun login =>
        (request login.2).bind fun wanted =>
          if wanted.2 = [] then some ⟨login.1, wanted.1.1, wanted.1.2⟩ else none
    else none

/-- What is behind the answer to a name and a password. -/
def admitted (method : UInt8) (bytes : List UInt8) : Option (List UInt8) :=
  if method = 2 then
    match bytes with
    | _ :: status :: rest => if status = 0 then some rest else none
    | _ => none
  else some bytes

def succeeded : List UInt8 → Option (List UInt8)
  | version :: reply :: _ :: rest => if version = 5 ∧ reply = 0 then (endpoint rest).map Prod.snd else none
  | _ => none

/-- The method that a server chooses, and what is behind all its answers. -/
def granted : List UInt8 → Option (UInt8 × List UInt8)
  | version :: method :: rest =>
    if version = 5 then
      (admitted method rest).bind fun rest => (succeeded rest).map fun behind => (method, behind)
    else none
  | _ => none

def Address.bytes : Address → List UInt8
  | .ip (.v4 addr) => 1 :: beBytes 4 addr.toNat
  | .ip (.v6 addr) => 4 :: beBytes 16 addr.toNat
  | .name octets => 3 :: UInt8.ofNat octets.length :: octets

def Address.Short : Address → Prop
  | .ip _ => True
  | .name octets => octets.length ≤ 255

variable {bytes user passwd rest : List UInt8}

theorem takeExact_append {count : Nat} (isLong : bytes.length = count) (rest : List UInt8) :
    takeExact count (bytes ++ rest) = some (bytes, rest) := by
  have enough : ¬(bytes ++ rest).length < count := by
    rw [List.length_append]
    omega
  rw [takeExact, if_neg enough, List.take_left' isLong, List.drop_left' isLong]

theorem toNat_ofNat_length (short : bytes.length ≤ 255) : (UInt8.ofNat bytes.length).toNat = bytes.length := by
  rw [UInt8.toNat_ofNat']
  omega

theorem counted_append (short : bytes.length ≤ 255) (rest : List UInt8) :
    counted (UInt8.ofNat bytes.length :: (bytes ++ rest)) = some (bytes, rest) := by
  rw [counted, toNat_ofNat_length short]
  exact takeExact_append rfl rest

theorem length_counted {count : UInt8} {found : List UInt8 × List UInt8} (isFound : counted (count :: bytes) = some found) :
    found.1.length ≤ 255 := by
  rw [counted, takeExact] at isFound
  split at isFound
  next => cases isFound
  next =>
    have small := count.toNat_lt
    cases isFound
    rw [List.length_take]
    omega

theorem credentials_append (userShort : user.length ≤ 255) (passwdShort : passwd.length ≤ 255) (rest : List UInt8) :
    credentials (1 :: UInt8.ofNat user.length :: (user ++ UInt8.ofNat passwd.length :: (passwd ++ rest))) =
      some ((user, passwd), rest) := by
  rw [credentials, if_pos rfl, counted_append userShort, Option.bind_some, counted_append passwdShort]
  rfl

theorem length_credentials {found : (List UInt8 × List UInt8) × List UInt8} (isFound : credentials bytes = some found) :
    found.1.1.length ≤ 255 ∧ found.1.2.length ≤ 255 := by
  cases bytes with
  | nil => cases isFound
  | cons version bytes =>
    rw [credentials] at isFound
    split at isFound
    next =>
      obtain ⟨⟨user, behind⟩, isUser, isFound⟩ := Option.bind_eq_some_iff.mp isFound
      obtain ⟨⟨passwd, rest⟩, isPasswd, rfl⟩ := Option.map_eq_some_iff.mp isFound
      cases bytes with
      | nil => cases isUser
      | cons count bytes =>
        cases behind with
        | nil => cases isPasswd
        | cons next behind =>
          have userShort := length_counted isUser
          have passwdShort := length_counted isPasswd
          exact ⟨userShort, passwdShort⟩
    next => cases isFound

theorem endpoint_append {address : Address} (short : address.Short) {port : Nat} (isPort : port < 65536)
    (rest : List UInt8) : endpoint (address.bytes ++ (beBytes 2 port ++ rest)) = some ((address, port), rest) := by
  have isAddress : Socks.address (address.bytes ++ (beBytes 2 port ++ rest)) = some (address, beBytes 2 port ++ rest) := by
    cases address with
    | ip addr =>
      cases addr with
      | v4 addr =>
        rw [Address.bytes, List.cons_append, Socks.address, if_pos rfl, takeExact_append (length_beBytes 4 _),
          Option.map_some, ofBeBytes_beBytes_of_lt addr.isLt, BitVec.ofNat_toNat, BitVec.setWidth_eq]
      | v6 addr =>
        rw [Address.bytes, List.cons_append, Socks.address, if_neg (by decide), if_neg (by decide), if_pos rfl,
          takeExact_append (length_beBytes 16 _), Option.map_some, ofBeBytes_beBytes_of_lt addr.isLt,
          BitVec.ofNat_toNat, BitVec.setWidth_eq]
    | name octets =>
      rw [Address.bytes, List.cons_append, List.cons_append, Socks.address, if_neg (by decide), if_pos rfl,
        counted_append short]
      rfl
  rw [endpoint, isAddress, Option.bind_some, takeExact_append (length_beBytes 2 _), Option.map_some,
    ofBeBytes_beBytes_of_lt isPort]

/-- What a client asks for that offers the method that is chosen, and tells what that wants. -/
theorem asked_append {method : UInt8} {methods : List UInt8} (few : methods.length ≤ 255) (offered : method ∈ methods)
    {login : Option (List UInt8 × List UInt8)} {address : Address} (short : address.Short) {port : Nat}
    (isPort : port < 65536) (isTold : told method rest = some (login, 5 :: 1 :: 0 :: (address.bytes ++ beBytes 2 port))) :
    asked method (5 :: UInt8.ofNat methods.length :: (methods ++ rest)) = some ⟨login, address, port⟩ := by
  have isEndpoint := endpoint_append short isPort []
  rw [List.append_nil] at isEndpoint
  rw [asked, greeting, if_pos rfl, counted_append few, Option.bind_some, if_pos offered, isTold, Option.bind_some,
    request, if_pos ⟨rfl, rfl, rfl⟩, isEndpoint, Option.bind_some, if_pos rfl]

theorem length_of_asked {method : UInt8} {wanted : Asked} (isAsked : asked method bytes = some wanted) :
    ∀ login ∈ wanted.login, login.1.length ≤ 255 ∧ login.2.length ≤ 255 := by
  obtain ⟨offered, -, isAsked⟩ := Option.bind_eq_some_iff.mp isAsked
  split at isAsked
  next =>
    obtain ⟨login, isTold, isAsked⟩ := Option.bind_eq_some_iff.mp isAsked
    obtain ⟨request, -, isAsked⟩ := Option.bind_eq_some_iff.mp isAsked
    split at isAsked
    next =>
      cases isAsked
      rw [told] at isTold
      split at isTold
      next =>
        cases isTold
        rintro _ ⟨⟩
      next =>
        split at isTold
        next =>
          obtain ⟨found, isFound, rfl⟩ := Option.map_eq_some_iff.mp isTold
          rintro _ ⟨⟩
          exact length_credentials isFound
        next => cases isTold
    next => cases isAsked
  next => cases isAsked

/-- What is behind an address of four bytes, of sixteen, or of a name, and its port. -/
theorem endpoint_behind {kind : UInt8} {count : Nat} (isKind : kind = 1 ∧ count = 4 ∨ kind = 4 ∧ count = 16)
    (isLong : bytes.length = count + 2) (rest : List UInt8) :
    (endpoint (kind :: (bytes ++ rest))).map Prod.snd = some rest := by
  have cut : bytes ++ rest = bytes.take count ++ (bytes.drop count ++ rest) := by
    rw [← List.append_assoc, List.take_append_drop]
  have front : (bytes.take count).length = count := by
    rw [List.length_take]
    omega
  have back : (bytes.drop count).length = 2 := by
    rw [List.length_drop]
    omega
  rcases isKind with ⟨rfl, rfl⟩ | ⟨rfl, rfl⟩
  · rw [cut, endpoint, address, if_pos rfl, takeExact_append front, Option.map_some, Option.bind_some,
      takeExact_append back]
    rfl
  · rw [cut, endpoint, address, if_neg (by decide), if_neg (by decide), if_pos rfl, takeExact_append front,
      Option.map_some, Option.bind_some, takeExact_append back]
    rfl

theorem endpoint_behind_name {count : UInt8} (isLong : bytes.length = count.toNat + 2) (rest : List UInt8) :
    (endpoint (3 :: count :: (bytes ++ rest))).map Prod.snd = some rest := by
  have cut : bytes ++ rest = bytes.take count.toNat ++ (bytes.drop count.toNat ++ rest) := by
    rw [← List.append_assoc, List.take_append_drop]
  have front : (bytes.take count.toNat).length = count.toNat := by
    rw [List.length_take]
    omega
  have back : (bytes.drop count.toNat).length = 2 := by
    rw [List.length_drop]
    omega
  rw [cut, endpoint, address, if_neg (by decide), if_pos rfl, counted, takeExact_append front, Option.map_some,
    Option.bind_some, takeExact_append back]
  rfl

end Socks

end Nfrp.Lib
