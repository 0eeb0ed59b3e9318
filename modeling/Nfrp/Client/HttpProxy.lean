import Nfrp.Client.Address
import Nfrp.Client.Io
import Nfrp.Client.NetProxy

/-!
# The HTTP proxy

The plugin reads the head of a request, asks for a password, and connects to the server
that the request names.  A tunnel is copied from then on; of any other request the server
gets the first line and two fields of the plugin's own, and what is behind the head.
-/

namespace Nfrp.Client

open Lib

def parseAuthority (s : List Char) (defaultPort : Nat) : Option (List Char × Nat) :=
  let s := trimmed s
  let found :=
    if s.head? = some '[' then
      (splitOnce ']' s.tail).map fun parts =>
        let port := if parts.2.head? = some ':' then parseUnsigned 65535 parts.2.tail else none
        (parts.1, port.getD defaultPort)
    else
      match rsplitOnce ':' s with
      | some (h, p) => if p.all (isDigit 10) then (parseUnsigned 65535 p).map fun port => (h, port) else some (s, defaultPort)
      | none => some (s, defaultPort)
  found.filter fun named => named.1 ≠ []

/-- The value as it stands in the line; the name in any case. -/
def proxyAuthFromLine (l : List UInt8) : Option (List Char) :=
  let text := lossyTextOf l
  if "proxy-authorization:".toList.isPrefixOf (text.map Char.toLower) then
    some (trimmed (((splitOnce ':' text).map Prod.snd).getD []))
  else none

section

variable (decodeBase64 : List Char → Option (List UInt8))

def basicOk (header : Option (List Char)) (user passwd : String) : Bool :=
  if user = "" then true
  else
    match header with
    | none => false
    | some v =>
      if v.take 6 = "Basic ".toList then
        ((decodeBase64 (trimmed (v.drop 6))).bind textOf) == some (user ++ ":" ++ passwd)
      else false

end

namespace HttpProxy

/-- A server that the plugin is connected to, and all that is written to it. -/
structure Upstream where
  addr : SocketAddr
  sent : List UInt8
  deriving DecidableEq

inductive Failure where
  | read (error : String)
  | unauthorized
  | malformed (requestLine : List Char)
  | badAuthority (target : List Char)
  | notAbsolute (requestLine : List Char)
  | unresolved (host : List Char) (port : Nat)
  deriving DecidableEq

/-- What the plugin says of its own, and the server that answers from then on. -/
structure Served where
  reply : List UInt8
  upstream : Except Failure Upstream

def unauthorized : List UInt8 :=
  bytesOf ("HTTP/1.1 407 Proxy Authentication Required\r\nProxy-Authenticate: Basic realm=\"frpc\"\r\n" ++
    "Content-Length: 0\r\n\r\n")

def established : List UInt8 := bytesOf "HTTP/1.1 200 Connection established\r\n\r\n"

def readHead : Reading (List UInt8 × List (List UInt8)) := do
  let requestLine ← Io.line
  let fields ← Io.headerLines
  return (requestLine, fields)

def connectUpstream (lookup : String → Nat → List SocketAddr) (named : List Char × Nat) : Except Failure SocketAddr :=
  match resolveAddr lookup (named.1 ++ ':' :: Nat.toDigits 10 named.2) with
  | some addr => .ok addr
  | none => .error (.unresolved named.1 named.2)

def httpTarget (target : List Char) : Option (List Char × Nat) :=
  if target.take 7 = "http://".toList then parseAuthority ((target.drop 7).takeWhile (· ≠ '/')) 80 else none

def headText (requestLine host : List Char) : List Char :=
  requestLine ++ "\r\nHost: ".toList ++ host ++ "\r\nConnection: close\r\n\r\n".toList

variable (lookup : String → Nat → List SocketAddr) (decodeBase64 : List Char → Option (List UInt8))

def serveHead (user passwd : String) (requestLine : List Char) (fields : List (List UInt8)) (io : Io) : Served :=
  if basicOk decodeBase64 (fields.filterMap proxyAuthFromLine).getLast? user passwd then
    match splitWhitespace requestLine with
    | method :: target :: _ =>
      if sameIgnoringCase method "CONNECT".toList then
        match parseAuthority target 443 with
        | none => ⟨[], .error (.badAuthority target)⟩
        | some named =>
          match connectUpstream lookup named with
          | .error e => ⟨[], .error e⟩
          | .ok addr => ⟨established, .ok ⟨addr, io.inner⟩⟩
      else
        match httpTarget target with
        | none => ⟨[], .error (.notAbsolute requestLine)⟩
        | some named =>
          ⟨[], (connectUpstream lookup named).map fun addr =>
            ⟨addr, bytesOf (String.ofList (headText requestLine named.1)) ++ io.inner⟩⟩
    | _ => ⟨[], .error (.malformed requestLine)⟩
  else ⟨unauthorized, .error .unauthorized⟩

def serve (user passwd : String) (io : Io) : Served :=
  match readHead io with
  | .error e => ⟨[], .error (.read e)⟩
  | .ok ((requestLine, fields), io) => serveHead lookup decodeBase64 user passwd (lossyTextOf requestLine) fields io

open NetProxy (Host Pieces hostPortText connectText connectLines httpConnect awaitTunnel)

section

variable {lookup : String → Nat → List SocketAddr} {encodeBase64 : List UInt8 → List Char}
  {decodeBase64 : List Char → Option (List UInt8)} {user passwd : String} {userinfo : Option (List Char)}

theorem readHead_of_headBytes {io : Io} {requestLine : List UInt8} {fields : List (List UInt8)} {rest : List UInt8}
    (noFeed : lineFeed ∉ requestLine) (areLines : ∀ l ∈ fields, l ≠ [] ∧ lineFeed ∉ l)
    (whole : io.bytes = headBytes (requestLine :: fields) [] ++ rest) :
    if ∀ l ∈ requestLine :: fields, Io.Fits l then
      readHead io = .ok ((requestLine, fields), io.skip (headBytes (requestLine :: fields) []).length)
    else readHead io = .error "请求行过长" := by
  have uniform : Uniform readHead := (Uniform.lineFrom _ _).bind fun _ => Uniform.headerLines.bind fun _ => Uniform.pure _
  have first := @Io.line_fresh requestLine (headBytes fields rest) noFeed
  have later := @Io.linesFrom_fresh rest fields areLines ((headBytes fields rest).length + 1)
    (Nat.lt_succ_of_lt (Nat.lt_of_le_of_lt (Nat.le_add_right _ _) (length_le_headBytes fields rest)))
  have atOnce : readHead (.fresh io.bytes) = if ∀ l ∈ requestLine :: fields, Io.Fits l then
      .ok ((requestLine, fields), .fresh rest) else .error "请求行过长" := by
    rw [whole, headBytes_append, List.nil_append, headBytes_cons]
    change (Io.line (.fresh (requestLine ++ crlf ++ headBytes fields rest)) >>= fun found =>
      (Io.linesFrom (found.2.bytes.length + 1) found.2).map fun read => ((found.1, read.1), read.2)) = _
    rw [first]
    by_cases fits : Io.Fits requestLine
    · rw [if_pos fits]
      change (Io.linesFrom ((headBytes fields rest).length + 1) _).map _ = _
      rw [later]
      simp only [List.forall_mem_cons, fits, true_and]
      split <;> rfl
    · rw [if_neg fits, if_neg (fun all => fits (all _ List.mem_cons_self))]
      rfl
  split
  next fits =>
    rw [if_pos fits] at atOnce
    rcases uniform io with ⟨e, -, fails⟩ | ⟨result, n, within, divided, isWhole⟩
    · rw [fails] at atOnce
      cases atOnce
    · rw [isWhole] at atOnce
      obtain ⟨rfl, same⟩ := Prod.mk.inj (Except.ok.inj atOnce)
      have taken := congrArg List.length (congrArg Io.bytes same)
      have total := congrArg List.length whole
      rw [List.length_append] at total
      change (io.bytes.drop n).length = rest.length at taken
      rw [List.length_drop] at taken
      have isLength : n = (headBytes (requestLine :: fields) []).length := by omega
      exact isLength ▸ divided
  next long =>
    rw [if_neg long] at atOnce
    rcases uniform io with ⟨e, divided, fails⟩ | ⟨result, n, -, -, isWhole⟩
    · rw [fails] at atOnce
      exact divided.trans atOnce
    · rw [isWhole] at atOnce
      cases atOnce

theorem trimmed_cons {text : List Char} (front : ∀ c ∈ text.head?, isWhitespace c = false)
    (back : ∀ c ∈ text.getLast?, isWhitespace c = false) : trimmed (' ' :: text) = text := by
  have noFront : text.dropWhile isWhitespace = text := by
    cases text with
    | nil => rfl
    | cons c rest => exact List.dropWhile_cons_of_neg (Bool.eq_false_iff.mp (front c rfl))
  rw [trimmed, List.dropWhile_cons_of_pos (by decide), noFront, List.rdropWhile_eq_self_iff]
  intro some
  exact Bool.eq_false_iff.mp (back _ (List.getLast?_eq_some_getLast some))

theorem parseAuthority_hostPortText (host : Host) (port : UInt16) :
    parseAuthority (hostPortText host.text port.toNat) 443 = some (host.text, port.toNat) := by
  have visible : trimmed (hostPortText host.text port.toNat) = hostPortText host.text port.toNat :=
    trimmed_of_visible fun c member => isVisible_of_isUriChar (NetProxy.hostPortText_plain host _ c member)
  have digits : (Nat.toDigits 10 port.toNat).all (isDigit 10) :=
    List.all_eq_true.mpr (isDigit_of_mem_toDigits (by decide) (by decide) _)
  have noColon : ':' ∉ Nat.toDigits 10 port.toNat := fun colon =>
    absurd (List.all_eq_true.mp digits ':' colon) (by decide)
  have notBracket : (hostPortText host.text port.toNat).head? ≠ some '[' := by
    rw [hostPortText, List.head?_append_of_ne_nil _ host.isSome]
    exact NetProxy.not_bracketed host
  have isSplit : rsplitOnce ':' (hostPortText host.text port.toNat) = some (host.text, Nat.toDigits 10 port.toNat) :=
    rsplitOnce_append noColon
  have isPort := parseUnsigned_toDigits (Nat.le_of_lt_succ port.toNat_lt)
  simp only [parseAuthority, visible, if_neg notBracket, isSplit, digits, if_true, isPort, Option.map_some]
  exact if_pos (decide_eq_true host.isSome)

/-- No line of the head is too long for the plugin. -/
def Fitting (encodeBase64 : List UInt8 → List Char) (userinfo : Option (List Char)) (target : List Char) : Prop :=
  ∀ line ∈ Connect.requestText target :: connectLines encodeBase64 userinfo target, Io.Fits (encoded line)

instance (userinfo : Option (List Char)) (target : List Char) : Decidable (Fitting encodeBase64 userinfo target) :=
  inferInstanceAs (Decidable (∀ _ ∈ _, _))

/-- What the plugin wants to be told, if it wants to be told anything. -/
def Admits (user passwd : String) (userinfo : Option (List Char)) : Prop :=
  user = "" ∨ userinfo = some (user ++ ":" ++ passwd).toList

instance (user passwd : String) (userinfo : Option (List Char)) : Decidable (Admits user passwd userinfo) :=
  inferInstanceAs (Decidable (_ ∨ _))

theorem basicOk_connectLines (isBase64 : IsBase64 encodeBase64 decodeBase64) (user passwd : String)
    (userinfo : Option (List Char)) (target : List Char) :
    basicOk decodeBase64 (((connectLines encodeBase64 userinfo target).map encoded).filterMap
      proxyAuthFromLine).getLast? user passwd ↔ Admits user passwd userinfo := by
  have noHost : proxyAuthFromLine (encoded ("Host: ".toList ++ target)) = none := by
    rw [proxyAuthFromLine, encoded, lossyTextOf_bytesOf]
    exact if_neg Bool.false_ne_true
  unfold basicOk Admits connectLines
  rw [List.map_cons, List.filterMap_cons_none noHost]
  by_cases noUser : user = ""
  · rw [if_pos noUser]
    exact iff_of_true rfl (.inl noUser)
  rw [if_neg noUser, or_iff_right noUser]
  cases userinfo with
  | none => exact iff_of_false Bool.false_ne_true (Option.some_ne_none _).symm
  | some u =>
    have isValue : proxyAuthFromLine (encoded ("Proxy-Authorization: Basic ".toList ++ encodeBase64 (bytesOf (String.ofList u)))) =
        some (trimmed (' ' :: ("Basic ".toList ++ encodeBase64 (bytesOf (String.ofList u))))) := by
      have isSplit := @splitOnce_append ':' "Proxy-Authorization".toList
        (' ' :: ("Basic ".toList ++ encodeBase64 (bytesOf (String.ofList u)))) (by decide)
      rw [proxyAuthFromLine, encoded, lossyTextOf_bytesOf, if_pos]
      · exact congrArg (fun parts => some (trimmed ((parts.map Prod.snd).getD []))) isSplit
      · rw [List.map_append, List.isPrefixOf_iff_prefix]
        exact List.IsPrefix.trans (by decide) (List.prefix_append _ _)
    simp only [Option.map_some, Option.toList_some, List.map_cons, List.map_nil, List.filterMap_cons_some isValue,
      List.filterMap_nil, List.getLast?_singleton]
    by_cases isSome : u = []
    · subst isSome
      have isEmpty : encodeBase64 (bytesOf (String.ofList [])) = [] := isBase64.encode_nil
      have short : (trimmed (' ' :: ("Basic ".toList ++ []))).take 6 ≠ "Basic ".toList := by decide
      rw [isEmpty, if_neg short]
      refine iff_of_false Bool.false_ne_true fun same => ?_
      have isNil := (Option.some.inj same).symm
      rw [String.toList_append, String.toList_append, List.append_assoc] at isNil
      exact List.append_ne_nil_of_right_ne_nil _ (List.cons_ne_nil _ _) isNil
    · have someToken := NetProxy.encode_ne_nil isBase64 isSome
      have visible : ∀ c ∈ encodeBase64 (bytesOf (String.ofList u)), isVisible c := by
        intro c member
        obtain ⟨low, high⟩ := NetProxy.printed_encode isBase64 _ c member
        rw [isVisible, Bool.and_eq_true, decide_eq_true_eq, decide_eq_true_eq]
        refine ⟨Nat.lt_of_le_of_ne low fun isSpace => ?_, high⟩
        obtain rfl : c = ' ' := Char.ext (UInt32.toNat_inj.mp isSpace.symm)
        exact absurd (isBase64.isToken _ _ member) (by decide)
      have isTrimmed : trimmed (' ' :: ("Basic ".toList ++ encodeBase64 (bytesOf (String.ofList u)))) =
          "Basic ".toList ++ encodeBase64 (bytesOf (String.ofList u)) := by
        apply trimmed_cons
        · rw [List.head?_append_of_ne_nil _ (by decide)]
          rintro c ⟨⟩
          decide
        · rw [List.getLast?_append_of_ne_nil _ someToken]
          exact fun c isLast => not_isWhitespace_of_isVisible (visible c (List.mem_of_mem_getLast? isLast))
      rw [isTrimmed, List.take_left' (by rfl), if_pos rfl, List.drop_left' (by rfl), trimmed_of_visible visible,
        isBase64.decode_encode, Option.bind_some, textOf_bytesOf, beq_iff_eq, Option.some.injEq, Option.some.injEq]
      exact ⟨fun same => by rw [← same, String.toList_ofList], fun same => by rw [same, String.ofList_toList]⟩

theorem splitWhitespace_solid {text : List Char} (visible : ∀ c ∈ text, isVisible c) (isSome : text ≠ []) :
    splitWhitespace text = [text] := by
  rw [splitWhitespace, List.splitOnP_eq_single fun c member => not_isWhitespace_of_isVisible (visible c member)]
  exact List.filter_cons_of_pos (decide_eq_true isSome)

theorem splitWhitespace_requestText {target : List Char} (plain : ∀ c ∈ target, isUriChar c) (isSome : target ≠ []) :
    splitWhitespace (Connect.requestText target) = ["CONNECT".toList, target, "HTTP/1.1".toList] := by
  have isBlank : isWhitespace ' ' = true := by decide
  have first : splitWhitespace "CONNECT".toList = ["CONNECT".toList] :=
    splitWhitespace_solid (forall_of_all (by decide)) (by decide)
  have last : splitWhitespace "HTTP/1.1".toList = ["HTTP/1.1".toList] :=
    splitWhitespace_solid (forall_of_all (by decide)) (by decide)
  have between := splitWhitespace_solid (fun c member => isVisible_of_isUriChar (plain c member)) isSome
  unfold Connect.requestText
  rw [splitWhitespace_append _ isBlank, splitWhitespace_append _ isBlank, first, last, between]
  rfl

/-- The head is read whole, or a line of it is too long. -/
theorem serve_connectText (isBase64 : IsBase64 encodeBase64 decodeBase64) (host : Host) (port : UInt16) {io : Io}
    {payload : List UInt8}
    (whole : io.bytes = encoded (connectText encodeBase64 userinfo (hostPortText host.text port.toNat)) ++ payload) :
    serve lookup decodeBase64 user passwd io =
      if Fitting encodeBase64 userinfo (hostPortText host.text port.toNat) then
        if Admits user passwd userinfo then
          match resolveAddr lookup (hostPortText host.text port.toNat) with
          | some addr => ⟨established, .ok ⟨addr, (io.skip (encoded (connectText encodeBase64 userinfo
              (hostPortText host.text port.toNat))).length).inner⟩⟩
          | none => ⟨[], .error (.unresolved host.text port.toNat)⟩
        else ⟨unauthorized, .error .unauthorized⟩
      else ⟨[], .error (.read "请求行过长")⟩ := by
  have plain := NetProxy.hostPortText_plain host port.toNat
  have isSome := NetProxy.hostPortText_ne_nil host.text port.toNat
  have isAuthority := parseAuthority_hostPortText host port
  have isSplit := splitWhitespace_requestText plain isSome
  have isUpstream : host.text ++ ':' :: Nat.toDigits 10 port.toNat = hostPortText host.text port.toNat := rfl
  unfold encoded at whole ⊢
  rw [NetProxy.encoded_connectText] at whole ⊢
  generalize hostPortText host.text port.toNat = target at *
  have areLines : AreLines (Connect.requestText target :: connectLines encodeBase64 userinfo target) :=
    List.forall_mem_cons.mpr ⟨Connect.areLines_requestText isSome plain, NetProxy.areLines_connectLines isBase64 plain⟩
  have unbroken := (headLines_eq_some (headLines_encoded areLines [])).2
  rw [List.map_cons] at whole unbroken ⊢
  obtain ⟨⟨-, noFeed⟩, areFields⟩ := List.forall_mem_cons.mp unbroken
  have read := readHead_of_headBytes (fun feed => (noFeed _ feed).2 rfl)
    (fun l member => ⟨(areFields l member).1, fun feed => ((areFields l member).2 _ feed).2 rfl⟩) whole
  rw [serve]
  by_cases fits : Fitting encodeBase64 userinfo target
  · have allFit : ∀ l ∈ encoded (Connect.requestText target) ::
        (connectLines encodeBase64 userinfo target).map encoded, Io.Fits l := by
      rw [← List.map_cons, List.forall_mem_map]
      exact fits
    rw [if_pos allFit] at read
    rw [read, if_pos fits]
    dsimp only
    rw [encoded, lossyTextOf_bytesOf, serveHead, isSplit]
    have admits := basicOk_connectLines isBase64 user passwd userinfo target
    by_cases admitted : Admits user passwd userinfo
    · rw [if_pos (admits.mpr admitted), if_pos admitted]
      simp only [show sameIgnoringCase "CONNECT".toList "CONNECT".toList = true by decide, if_true, isAuthority]
      rw [connectUpstream, isUpstream]
      cases resolveAddr lookup target with
      | none => rfl
      | some addr => rfl
    · rw [if_neg (mt admits.mp admitted), if_neg admitted]
  · have notAll : ¬∀ l ∈ encoded (Connect.requestText target) ::
        (connectLines encodeBase64 userinfo target).map encoded, Io.Fits l := by
      rw [← List.map_cons, List.forall_mem_map]
      exact fits
    rw [if_neg notAll] at read
    rw [read, if_neg fits]

/-- However an answer is cut into reads, its status decides. -/
theorem awaitTunnel_of_position (proxy target : List Char) {pos : Nat} (short : pos ≤ 8192) {buf : List UInt8}
    {reads : Pieces} (found : position emptyLine (buf ++ reads.flatten) = some pos) (more : buf.length < pos + 4) :
    if 200 ≤ (Httpc.statusIn (lossyTextOf ((buf ++ reads.flatten).take pos))).getD 0 ∧
        (Httpc.statusIn (lossyTextOf ((buf ++ reads.flatten).take pos))).getD 0 < 300 then
      ∃ left, awaitTunnel proxy target buf reads = .ok left ∧ left.flatten = (buf ++ reads.flatten).drop (pos + 4)
    else ∃ e, awaitTunnel proxy target buf reads = .error e := by
  induction reads generalizing buf with
  | nil =>
    have inside := (position_isPrefix found).length_le
    rw [List.length_drop, List.flatten_nil, List.append_nil] at inside
    have four : emptyLine.length = 4 := rfl
    omega
  | cons one later ih =>
    rw [List.flatten_cons, ← List.append_assoc] at found ⊢
    have front := position_front emptyLine_ne_nil found (List.prefix_append (buf ++ one) later.flatten)
    change _ = if pos + 4 ≤ (buf ++ one).length then some pos else none at front
    rw [awaitTunnel]
    dsimp only
    by_cases covers : pos + 4 ≤ (buf ++ one).length
    · rw [if_pos covers] at front
      rw [front, List.take_append_of_le_length (Nat.le_trans (Nat.le_add_right _ _) covers),
        List.drop_append_of_le_length covers]
      dsimp only
      split
      next accepted =>
        refine ⟨_, rfl, ?_⟩
        split
        next isEmpty => rw [isEmpty, List.nil_append]
        next => rw [List.flatten_cons]
      next => exact ⟨_, rfl⟩
    · rw [if_neg covers] at front
      rw [front]
      dsimp only
      have room : ¬64 * 1024 < (buf ++ one).length := by omega
      rw [if_neg room]
      exact ih found (Nat.lt_of_not_le covers)

theorem awaitTunnel_refused (proxy target : List Char) {reads : Pieces}
    (fails : reads.flatten = [] ∨ reads.flatten = unauthorized) : ∃ e, awaitTunnel proxy target [] reads = .error e := by
  rcases fails with nothing | isReply
  · cases isDone : awaitTunnel proxy target [] reads with
    | error e => exact ⟨e, rfl⟩
    | ok left =>
      obtain ⟨pos, found, -⟩ := NetProxy.awaitTunnel_eq_ok isDone
      rw [nothing] at found
      cases found
  · have found : position emptyLine unauthorized = some 101 := by decide +kernel
    have isStatus : (Httpc.statusIn (lossyTextOf (unauthorized.take 101))).getD 0 = 407 := by decide +kernel
    rw [← isReply, ← List.nil_append reads.flatten] at found isStatus
    have outcome := awaitTunnel_of_position proxy target (by decide) found (Nat.succ_pos _)
    rwa [isStatus, if_neg (by decide)] at outcome

theorem awaitTunnel_established (proxy target : List Char) {reads : Pieces} {down : List UInt8}
    (isAnswer : reads.flatten = established ++ down) :
    ∃ left, awaitTunnel proxy target [] reads = .ok left ∧ left.flatten = down := by
  have found : position emptyLine (established ++ down) = some 35 :=
    position_of_front emptyLine_ne_nil (by decide +kernel) (List.prefix_append _ _)
  have isStatus : (Httpc.statusIn (lossyTextOf ((established ++ down).take 35))).getD 0 = 200 := by
    rw [List.take_append_of_le_length (by decide)]
    decide +kernel
  have behind : (established ++ down).drop (35 + 4) = down := List.drop_left' (by decide)
  rw [← isAnswer, ← List.nil_append reads.flatten] at found isStatus behind
  have outcome := awaitTunnel_of_position proxy target (by decide) found (Nat.succ_pos _)
  rwa [isStatus, if_pos (by decide), behind] at outcome

theorem inner_skip {io : Io} {head payload : List UInt8} (whole : io.bytes = head ++ payload) :
    (io.skip head.length).inner = payload.drop (io.ahead.length - head.length) := by
  have behind := io.bytes_skip head.length
  rw [whole, List.drop_left] at behind
  have ahead : (io.skip head.length).ahead.length = io.ahead.length - head.length := List.length_drop
  rw [← behind, Io.bytes, ← ahead, List.drop_left]

/-- What comes back to the client. -/
def Served.heard (served : Served) (down : List UInt8) : List UInt8 :=
  match served.upstream with
  | .ok _ => served.reply ++ down
  | .error _ => served.reply

end

def request : List UInt8 := encoded (connectText Base64.encode (some "u:p".toList) "frps:7000".toList)

end HttpProxy

end Nfrp.Client
