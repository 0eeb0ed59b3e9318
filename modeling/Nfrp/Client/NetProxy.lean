import Nfrp.Lib.Spelling
import Nfrp.Lib.Tunnel
import Nfrp.Server.Httpc

/-!
# Proxies on the way to the server

The client reaches the server through a proxy that its configuration names: one that takes
CONNECT, in TLS or not, or one of SOCKS.  From the answer of the proxy on, the stream is the
server's; what came with the end of the answer is put in front of it.
-/

namespace Nfrp.NetProxy

open Lib

abbrev Pieces := List (List UInt8)

/-- Who answers at an address, and what comes out of TLS with a host. -/
structure World where
  reach : (host : List Char) → (port : Nat) → Option Pieces
  secure : (host : List Char) → Pieces → Except String Pieces

def reachOr (world : World) (failed : String) (host : List Char) (port : Nat) : Except String Pieces :=
  match world.reach host port with
  | some coming => .ok coming
  | none => .error failed

def readExact (failed : String) : (count : Nat) → Pieces → Except String (List UInt8 × Pieces)
  | 0, coming => .ok ([], coming)
  | _ + 1, [] => .error failed
  | count + 1, piece :: later =>
    if count + 1 ≤ piece.length then .ok (piece.take (count + 1), piece.drop (count + 1) :: later)
    else (readExact failed (count + 1 - piece.length) later).map fun found => (piece ++ found.1, found.2)

def defaultPort (scheme : List Char) : Nat :=
  if scheme = "https".toList then 443
  else if scheme = "socks5".toList ∨ scheme = "socks5h".toList then 1080
  else 8080

def proxyPort (text : List Char) : Except String Nat :=
  match fromStrRadix 10 65535 text with
  | some port => .ok port
  | none => .error "代理端口不是数字"

def splitHostPort (hostport scheme : List Char) : Except String (List Char × Nat) :=
  match hostport with
  | '[' :: rest =>
    match splitOnce ']' rest with
    | some (h, tail) =>
      if tail.head? = some ':' ∧ tail.tail ≠ [] then (proxyPort tail.tail).map fun p => (h, p)
      else .ok (h, defaultPort scheme)
    | none => .error s!"代理地址的 IPv6 字面量没有闭合的 `]`：{String.ofList hostport}"
  | _ =>
    match rsplitOnce ':' hostport with
    | some (h, p) => if p = [] then .ok (h, defaultPort scheme) else (proxyPort p).map fun p => (h, p)
    | none => .ok (hostport, defaultPort scheme)

inductive Route where
  | direct
  | http (tls : Bool) (phost : List Char) (pport : Nat) (userinfo : Option (List Char))
  | socks5 (phost : List Char) (pport : Nat) (userinfo : Option (List Char))
  deriving DecidableEq

/-- A blank URL is none. -/
def routeOf (proxyUrl : List Char) : Except String Route :=
  if trimmed proxyUrl = [] then .ok .direct
  else
    match position "://".toList proxyUrl with
    | none => .error s!"proxyURL 缺少 scheme（应形如 http://host:port）：{String.ofList proxyUrl}"
    | some i =>
      let scheme := (proxyUrl.take i).map Char.toLower
      let rest := proxyUrl.drop (i + 3)
      let (userinfo, hostport) :=
        match rsplitOnce '@' rest with
        | some (u, h) => (some u, h)
        | none => (none, rest)
      (splitHostPort (hostport.rdropWhile (· == '/')) scheme).bind fun (phost, pport) =>
        if scheme = "http".toList ∨ scheme = "https".toList then
          .ok (.http (scheme == "https".toList) phost pport userinfo)
        else if scheme = "socks5".toList ∨ scheme = "socks5h".toList then .ok (.socks5 phost pport userinfo)
        else
          .error (s!"proxyURL 的 scheme [{String.ofList scheme}] 不支持；" ++
            s!"支持 http / https / socks5 / socks5h（{String.ofList proxyUrl}）")

def hostPortText (host : List Char) (port : Nat) : List Char := host ++ ':' :: Nat.toDigits 10 port

section

variable (encodeBase64 : List UInt8 → List Char)

def connectText (userinfo : Option (List Char)) (target : List Char) : List Char :=
  "CONNECT ".toList ++ target ++ " HTTP/1.1\r\nHost: ".toList ++ target ++ "\r\n".toList ++
    (match userinfo with
      | some u => "Proxy-Authorization: Basic ".toList ++ encodeBase64 (bytesOf (String.ofList u)) ++ "\r\n".toList
      | none => []) ++
    "\r\n".toList

end

/-- The rest of the stream from the answer to CONNECT on. -/
def awaitTunnel (proxy target : List Char) : (buf : List UInt8) → (reads : Pieces) → Except String Pieces
  | _, [] => .error s!"代理 {String.ofList proxy} 在返回 CONNECT 响应前就关闭了连接"
  | buf, one :: later =>
    let buf := buf ++ one
    match position emptyLine buf with
    | some pos =>
      let head := lossyTextOf (buf.take pos)
      let status := (Httpc.statusIn head).getD 0
      if 200 ≤ status ∧ status < 300 then
        let leftover := buf.drop (pos + 4)
        .ok (if leftover = [] then later else leftover :: later)
      else
        .error (s!"代理 {String.ofList proxy} 拒绝 CONNECT {String.ofList target}（HTTP {status}）：" ++
          String.ofList ((Nlink.lines head).head?.getD []))
    | none =>
      if 64 * 1024 < buf.length then .error s!"代理 {String.ofList proxy} 的 CONNECT 响应头超过 64 KiB"
      else awaitTunnel proxy target buf later

/-- What is written, and what comes then.  A read takes 1024 bytes at most. -/
def httpConnect (encodeBase64 : List UInt8 → List Char) (phost : List Char) (pport : Nat) (userinfo : Option (List Char))
    (host : List Char) (port : UInt16) (coming : Pieces) : Except String (List UInt8 × Pieces) :=
  let target := hostPortText host port.toNat
  (awaitTunnel (hostPortText phost pport) target [] (coming.flatMap (blocks 1024))).map fun later =>
    (bytesOf (String.ofList (connectText encodeBase64 userinfo target)), later)

def shownByte (byte : UInt8) : String := "0x" ++ String.ofList (Nat.toDigits 16 byte.toNat)

def socks5Err (code : UInt8) : String :=
  if code = 0x01 then "通用失败"
  else if code = 0x02 then "规则不允许（代理不放行该目标）"
  else if code = 0x03 then "网络不可达"
  else if code = 0x04 then "主机不可达"
  else if code = 0x05 then "连接被拒绝"
  else if code = 0x06 then "TTL 过期"
  else if code = 0x07 then "不支持的命令"
  else if code = 0x08 then "不支持的地址类型"
  else "未知错误"

/-- The user, and the password that is behind the first colon. -/
def userPass (userinfo : List Char) : List Char × List Char := (splitOnce ':' userinfo).getD (userinfo, [])

def hello (userinfo : Option (List Char)) : List UInt8 :=
  let methods : List UInt8 := if userinfo.isSome then [0x00, 0x02] else [0x00]
  0x05 :: UInt8.ofNat methods.length :: methods

def authBytes (u p : List UInt8) : List UInt8 :=
  0x01 :: UInt8.ofNat u.length :: (u ++ UInt8.ofNat p.length :: p)

/-- What is written for the method that the proxy chose, and what comes then. -/
def authenticate (userinfo : Option (List Char)) (method : UInt8) (coming : Pieces) :
    Except String (List UInt8 × Pieces) :=
  if method = 0x00 then .ok ([], coming)
  else if method = 0x02 then
    match userinfo.map userPass with
    | none => .error "SOCKS5 代理要求用户名密码，但 proxyURL 里没写"
    | some (user, pass) =>
      readExact "读 SOCKS5 认证响应失败" 2 coming >>= fun (ar, coming) =>
        if ar.getD 1 0 ≠ 0x00 then .error "SOCKS5 用户名密码认证被拒绝"
        else .ok (authBytes (bytesOf (String.ofList user)) (bytesOf (String.ofList pass)), coming)
  else if method = 0xFF then .error "SOCKS5 代理不接受我们的任何认证方式"
  else .error s!"SOCKS5 代理选了未支持的方法 {shownByte method}"

def connectRequest (host : List Char) (port : UInt16) : Except String (List UInt8) :=
  let name := bytesOf (String.ofList host)
  match IpAddr.parse host with
  | some (.v4 v4) => .ok ([0x05, 0x01, 0x00] ++ (0x01 :: beBytes 4 v4.toNat) ++ beBytes 2 port.toNat)
  | some (.v6 v6) => .ok ([0x05, 0x01, 0x00] ++ (0x04 :: beBytes 16 v6.toNat) ++ beBytes 2 port.toNat)
  | none =>
    if 255 < name.length then .error s!"SOCKS5 目标主机名过长（{name.length} 字节）"
    else .ok ([0x05, 0x01, 0x00] ++ (0x03 :: UInt8.ofNat name.length :: name) ++ beBytes 2 port.toNat)

/-- How many bytes are left of an answer, by the kind of its address. -/
def restLen (kind : UInt8) (coming : Pieces) : Except String (Nat × Pieces) :=
  if kind = 0x01 then .ok (4 + 2, coming)
  else if kind = 0x04 then .ok (16 + 2, coming)
  else if kind = 0x03 then
    (readExact "读 SOCKS5 域名长度失败" 1 coming).map fun (l, coming) => ((l.getD 0 0).toNat + 2, coming)
  else .error s!"SOCKS5 返回了未知地址类型 {shownByte kind}"

def readReply (coming : Pieces) : Except String Pieces :=
  readExact "读 SOCKS5 CONNECT 响应失败" 4 coming >>= fun (head, coming) =>
    if head.getD 0 0 ≠ 0x05 then .error s!"SOCKS5 响应版本不对（{shownByte (head.getD 0 0)}）"
    else if head.getD 1 0 ≠ 0x00 then .error s!"SOCKS5 CONNECT 被拒绝：{socks5Err (head.getD 1 0)}"
    else
      restLen (head.getD 3 0) coming >>= fun (len, coming) =>
        (readExact "读 SOCKS5 绑定地址失败" len coming).map Prod.snd

def socks5Connect (userinfo : Option (List Char)) (host : List Char) (port : UInt16) (coming : Pieces) :
    Except String (List UInt8 × Pieces) :=
  readExact "读 SOCKS5 问候响应失败" 2 coming >>= fun (rep, coming) =>
    if rep.getD 0 0 ≠ 0x05 then .error s!"对端不是 SOCKS5（版本字节 {shownByte (rep.getD 0 0)}）"
    else
      authenticate userinfo (rep.getD 1 0) coming >>= fun (auth, coming) =>
        connectRequest host port >>= fun req =>
          (readReply coming).map fun coming => (hello userinfo ++ (auth ++ req), coming)

def Route.channel (world : World) (host : List Char) (port : UInt16) : Route → Except String Pieces
  | .direct => reachOr world s!"连接 {String.ofList (hostPortText host port.toNat)} 失败" host port.toNat
  | .http tls phost pport _ =>
    reachOr world s!"连接代理 {String.ofList (hostPortText phost pport)} 失败" phost pport >>= fun coming =>
      if tls then world.secure phost coming else .ok coming
  | .socks5 phost pport _ =>
    reachOr world s!"连接 SOCKS5 代理 {String.ofList (hostPortText phost pport)} 失败" phost pport

def Route.handshake (encodeBase64 : List UInt8 → List Char) (host : List Char) (port : UInt16) (coming : Pieces) :
    Route → Except String (List UInt8 × Pieces)
  | .direct => .ok ([], coming)
  | .http _ phost pport userinfo => httpConnect encodeBase64 phost pport userinfo host port coming
  | .socks5 _ _ userinfo => socks5Connect userinfo host port coming

def connect (encodeBase64 : List UInt8 → List Char) (world : World) (proxyUrl host : List Char) (port : UInt16) :
    Except String (List UInt8 × Pieces) :=
  routeOf proxyUrl >>= fun route => route.channel world host port >>= fun coming => route.handshake encodeBase64 host port coming

structure Host where
  text : List Char
  isSome : text ≠ []
  plain : ∀ c ∈ text, isRegNameChar c ∨ c = ':'

def socksAddress (host : List Char) : Socks.Address :=
  match IpAddr.parse host with
  | some addr => .ip addr
  | none => .name (bytesOf (String.ofList host))

def inBytes (login : List Char × List Char) : List UInt8 × List UInt8 :=
  (bytesOf (String.ofList login.1), bytesOf (String.ofList login.2))

/-- Who reads what is sent by a route is asked for this host and port, by this user; what comes
is the answer to that, and behind it what is left. -/
def Route.Names (decodeBase64 : List Char → Option (List UInt8)) (host : List Char) (port : UInt16)
    (sent answer left : List UInt8) : Route → Prop
  | .direct => sent = [] ∧ answer = left
  | .http _ _ _ userinfo =>
    Connect.asked decodeBase64 sent = some ⟨host, port.toNat, userinfo.map userPass⟩ ∧
      ∃ pos, position emptyLine answer = some pos ∧ answer.drop (pos + 4) = left
  | .socks5 _ _ userinfo =>
    ∃ method, Socks.granted answer = some (method, left) ∧
      Socks.asked method sent =
        some ⟨if method = 2 then userinfo.map fun u => inBytes (userPass u) else none, socksAddress host, port.toNat⟩

def Faithful (encodeBase64 : List UInt8 → List Char) (decodeBase64 : List Char → Option (List UInt8))
    (proxyUrl : List Char) (host : List Char) (port : UInt16) : Prop :=
  ∀ world sent left, connect encodeBase64 world proxyUrl host port = .ok (sent, left) →
    ∃ route coming, routeOf proxyUrl = .ok route ∧ route.channel world host port = .ok coming ∧
      route.Names decodeBase64 host port sent coming.flatten left.flatten

/-- CONNECT has no place for colons but before the port, and within a login; the lengths that
SOCKS has for a login are bytes.  A name that is too long is refused. -/
def Route.Fits (host : List Char) : Route → Prop
  | .direct => True
  | .http _ _ _ userinfo => ':' ∉ host ∧ ∀ u ∈ userinfo, ':' ∈ u
  | .socks5 _ _ userinfo =>
    (socksAddress host).Short → ∀ u ∈ userinfo, (inBytes (userPass u)).1.length ≤ 255 ∧ (inBytes (userPass u)).2.length ≤ 255

section

variable {failed : String} {coming left : Pieces} {taken : List UInt8} {count : Nat}

theorem readExact_eq_ok (isTaken : readExact failed count coming = .ok (taken, left)) :
    taken.length = count ∧ coming.flatten = taken ++ left.flatten := by
  induction coming generalizing count taken with
  | nil =>
    cases count with
    | zero =>
      cases isTaken
      exact ⟨rfl, rfl⟩
    | succ count => cases isTaken
  | cons piece later ih =>
    cases count with
    | zero =>
      cases isTaken
      exact ⟨rfl, rfl⟩
    | succ count =>
      rw [readExact] at isTaken
      split at isTaken
      next covers =>
        cases isTaken
        refine ⟨List.length_take_of_le covers, ?_⟩
        rw [List.flatten_cons, List.flatten_cons, ← List.append_assoc, List.take_append_drop]
      next short =>
        obtain ⟨⟨more, rest⟩, isMore, same⟩ := map_eq_ok_iff.mp isTaken
        cases same
        obtain ⟨isLong, whole⟩ := ih isMore
        refine ⟨?_, ?_⟩
        · rw [List.length_append, isLong]
          omega
        · rw [List.flatten_cons, whole, List.append_assoc]

theorem readExact_one (isTaken : readExact failed 1 coming = .ok (taken, left)) :
    ∃ a, taken = [a] ∧ coming.flatten = a :: left.flatten := by
  obtain ⟨isLong, whole⟩ := readExact_eq_ok isTaken
  obtain ⟨a, rfl⟩ := List.length_eq_one_iff.mp isLong
  exact ⟨a, rfl, whole⟩

theorem readExact_two (isTaken : readExact failed 2 coming = .ok (taken, left)) :
    ∃ a b, taken = [a, b] ∧ coming.flatten = a :: b :: left.flatten := by
  obtain ⟨isLong, whole⟩ := readExact_eq_ok isTaken
  obtain ⟨a, b, rfl⟩ := List.length_eq_two.mp isLong
  exact ⟨a, b, rfl, whole⟩

theorem readExact_four (isTaken : readExact failed 4 coming = .ok (taken, left)) :
    ∃ a b c d, taken = [a, b, c, d] ∧ coming.flatten = a :: b :: c :: d :: left.flatten := by
  obtain ⟨isLong, whole⟩ := readExact_eq_ok isTaken
  obtain ⟨a, later, rfl⟩ := List.exists_cons_of_length_eq_add_one isLong
  obtain ⟨b, c, d, rfl⟩ := List.length_eq_three.mp (Nat.succ.inj isLong)
  exact ⟨a, b, c, d, rfl, whole⟩

theorem readReply_eq_ok (isRead : readReply coming = .ok left) : Socks.succeeded coming.flatten = some left.flatten := by
  obtain ⟨⟨head, behind⟩, isHead, isRead⟩ := bind_eq_ok_iff.mp isRead
  obtain ⟨version, reply, reserved, kind, rfl, whole⟩ := readExact_four isHead
  dsimp only at isRead
  split at isRead
  next => cases isRead
  next isFive =>
    split at isRead
    next => cases isRead
    next isZero =>
      have granted : version = 5 ∧ reply = 0 := ⟨not_not.mp isFive, not_not.mp isZero⟩
      obtain ⟨⟨len, beyond⟩, isLen, isRead⟩ := bind_eq_ok_iff.mp isRead
      obtain ⟨⟨rest, last⟩, isRest, rfl⟩ := map_eq_ok_iff.mp isRead
      obtain ⟨isLong, ending⟩ := readExact_eq_ok isRest
      rw [whole, Socks.succeeded, if_pos granted]
      change restLen kind behind = .ok (len, beyond) at isLen
      rw [restLen] at isLen
      split at isLen
      next isFour =>
        cases isLen
        rw [ending]
        exact Socks.endpoint_behind (.inl ⟨isFour, rfl⟩) isLong _
      next =>
        split at isLen
        next isSixteen =>
          cases isLen
          rw [ending]
          exact Socks.endpoint_behind (.inr ⟨isSixteen, rfl⟩) isLong _
        next =>
          split at isLen
          next isName =>
            obtain ⟨⟨l, further⟩, isCount, same⟩ := map_eq_ok_iff.mp isLen
            obtain ⟨count, rfl, counted⟩ := readExact_one isCount
            cases same
            rw [counted, ending, isName]
            exact Socks.endpoint_behind_name isLong _
          next => cases isLen

section

variable {userinfo : Option (List Char)} {method : UInt8} {auth : List UInt8} {host : List Char} {port : UInt16}

/-- What is written in place of a login, for the method that is chosen. -/
theorem authenticate_eq_ok (isDone : authenticate userinfo method coming = .ok (auth, left)) :
    Socks.admitted method coming.flatten = some left.flatten ∧
      (method = 0 ∧ auth = [] ∨
        method = 2 ∧ ∃ u, userinfo = some u ∧ auth = authBytes (inBytes (userPass u)).1 (inBytes (userPass u)).2) := by
  rw [authenticate] at isDone
  split at isDone
  next isNone =>
    cases isDone
    subst isNone
    exact ⟨rfl, .inl ⟨rfl, rfl⟩⟩
  next =>
    split at isDone
    next isLogin =>
      cases userinfo with
      | none => cases isDone
      | some u =>
        obtain ⟨⟨answer, behind⟩, isAnswer, isDone⟩ := bind_eq_ok_iff.mp isDone
        obtain ⟨version, status, rfl, whole⟩ := readExact_two isAnswer
        dsimp only at isDone
        split at isDone
        next => cases isDone
        next isZero =>
          cases isDone
          refine ⟨?_, .inr ⟨isLogin, u, rfl, rfl⟩⟩
          rw [whole, Socks.admitted, if_pos isLogin]
          exact if_pos (not_not.mp isZero)
    next =>
      split at isDone
      next => cases isDone
      next => cases isDone

theorem connectRequest_eq (short : (socksAddress host).Short) :
    connectRequest host port = .ok (5 :: 1 :: 0 :: ((socksAddress host).bytes ++ beBytes 2 port.toNat)) := by
  rw [socksAddress] at short ⊢
  rw [connectRequest]
  cases isAddress : IpAddr.parse host with
  | some addr =>
    cases addr with
    | v4 v4 => rfl
    | v6 v6 => rfl
  | none =>
    rw [isAddress] at short
    exact if_neg (Nat.not_lt.mpr short)

theorem short_of_connectRequest {req : List UInt8} (isRequest : connectRequest host port = .ok req) :
    (socksAddress host).Short := by
  rw [connectRequest] at isRequest
  rw [socksAddress]
  cases isAddress : IpAddr.parse host with
  | some addr => trivial
  | none =>
    rw [isAddress] at isRequest
    dsimp only at isRequest
    split at isRequest
    next => cases isRequest
    next short => exact Nat.le_of_not_lt short

theorem hello_eq (userinfo : Option (List Char)) :
    ∃ methods : List UInt8, hello userinfo = 5 :: UInt8.ofNat methods.length :: methods ∧ methods.length ≤ 255 ∧
      0 ∈ methods ∧ (userinfo.isSome → 2 ∈ methods) := by
  cases userinfo with
  | none => exact ⟨[0], rfl, by decide, by decide, Bool.noConfusion⟩
  | some u => exact ⟨[0, 2], rfl, by decide, by decide, fun _ => by decide⟩

theorem told_auth {login : List UInt8 × List UInt8} (short : login.1.length ≤ 255 ∧ login.2.length ≤ 255) (rest : List UInt8) :
    Socks.told 2 (authBytes login.1 login.2 ++ rest) = some (some login, rest) := by
  have isWritten : authBytes login.1 login.2 ++ rest =
      1 :: UInt8.ofNat login.1.length :: (login.1 ++ UInt8.ofNat login.2.length :: (login.2 ++ rest)) := by
    rw [authBytes, List.cons_append, List.cons_append, List.append_assoc, List.cons_append]
  rw [Socks.told, if_neg (by decide), if_pos rfl, isWritten, Socks.credentials_append short.1 short.2]
  rfl

/-- A SOCKS server is asked for the host, in the name of the user if it wants that. -/
theorem socks5Connect_asked {sent : List UInt8}
    (fits : (socksAddress host).Short →
      ∀ u ∈ userinfo, (inBytes (userPass u)).1.length ≤ 255 ∧ (inBytes (userPass u)).2.length ≤ 255)
    (isDone : socks5Connect userinfo host port coming = .ok (sent, left)) :
    ∃ method, Socks.granted coming.flatten = some (method, left.flatten) ∧
      Socks.asked method sent =
        some ⟨if method = 2 then userinfo.map fun u => inBytes (userPass u) else none, socksAddress host, port.toNat⟩ := by
  obtain ⟨⟨rep, behind⟩, isChoice, isDone⟩ := bind_eq_ok_iff.mp isDone
  obtain ⟨version, method, rfl, whole⟩ := readExact_two isChoice
  dsimp only at isDone
  split at isDone
  next => cases isDone
  next isFive =>
    obtain ⟨⟨auth, beyond⟩, isAuth, isDone⟩ := bind_eq_ok_iff.mp isDone
    obtain ⟨req, isRequest, isDone⟩ := bind_eq_ok_iff.mp isDone
    obtain ⟨last, isReply, same⟩ := map_eq_ok_iff.mp isDone
    cases same
    have short := short_of_connectRequest isRequest
    rw [connectRequest_eq short] at isRequest
    cases isRequest
    obtain ⟨admitted, isLogin⟩ := authenticate_eq_ok isAuth
    obtain ⟨methods, isHello, few, offersNone, offersLogin⟩ := hello_eq userinfo
    have isVersion : version = 5 := not_not.mp isFive
    refine ⟨method, ?_, ?_⟩
    · have ending := readReply_eq_ok isReply
      rw [whole, Socks.granted, if_pos isVersion]
      change Socks.admitted method behind.flatten = some beyond.flatten at admitted
      change Socks.succeeded beyond.flatten = some left.flatten at ending
      rw [admitted, Option.bind_some, ending]
      rfl
    · rw [isHello, List.cons_append, List.cons_append]
      rcases isLogin with ⟨isNone, noAuth⟩ | ⟨isTwo, u, isUser, isLogin⟩
      · obtain rfl : method = 0 := isNone
        obtain rfl : auth = [] := noAuth
        exact Socks.asked_append few offersNone short port.toNat_lt rfl
      · obtain rfl : method = 2 := isTwo
        obtain rfl := isUser
        rw [isLogin]
        exact Socks.asked_append few (offersLogin rfl) short port.toNat_lt (told_auth (fits short u rfl) _)

def willing : List UInt8 := [5, 2, 1, 0, 5, 0, 0, 1, 0, 0, 0, 0, 0, 0]

theorem granted_willing {left : List UInt8} (isGranted : Socks.granted willing = some (method, left)) : method = 2 := by
  have isTwo : Socks.granted willing = some (2, []) := by decide
  rw [isTwo] at isGranted
  cases isGranted
  rfl

theorem socks5Connect_willing {u : List Char} (short : (socksAddress host).Short) (port : UInt16) :
    ∃ sent, socks5Connect (some u) host port [willing] = .ok (sent, [[]]) := by
  have isChoice : readExact "读 SOCKS5 问候响应失败" 2 [willing] = .ok ([5, 2], [willing.drop 2]) := rfl
  have isAuth : authenticate (some u) 2 [willing.drop 2] =
      .ok (authBytes (inBytes (userPass u)).1 (inBytes (userPass u)).2, [willing.drop 4]) := rfl
  have isReply : readReply [willing.drop 4] = .ok [[]] := rfl
  refine ⟨hello (some u) ++ (authBytes (inBytes (userPass u)).1 (inBytes (userPass u)).2 ++
    (5 :: 1 :: 0 :: ((socksAddress host).bytes ++ beBytes 2 port.toNat))), ?_⟩
  refine bind_eq_ok_iff.mpr ⟨_, isChoice, ?_⟩
  refine bind_eq_ok_iff.mpr ⟨_, isAuth, ?_⟩
  refine bind_eq_ok_iff.mpr ⟨_, connectRequest_eq short, ?_⟩
  exact map_eq_ok_iff.mpr ⟨_, isReply, rfl⟩

theorem awaitTunnel_eq_ok {proxy target : List Char} {buf : List UInt8} {reads : Pieces}
    (isOk : awaitTunnel proxy target buf reads = .ok left) :
    ∃ pos, position emptyLine (buf ++ reads.flatten) = some pos ∧ (buf ++ reads.flatten).drop (pos + 4) = left.flatten := by
  induction reads generalizing buf with
  | nil => cases isOk
  | cons one later ih =>
    rw [List.flatten_cons, ← List.append_assoc]
    rw [awaitTunnel] at isOk
    dsimp only at isOk
    split at isOk
    next pos found =>
      obtain ⟨inWhole, -, covers⟩ := position_append found later.flatten
      refine ⟨pos, inWhole, ?_⟩
      rw [List.drop_append_of_le_length covers]
      split at isOk
      next =>
        cases isOk
        split
        next isEmpty => rw [isEmpty, List.nil_append]
        next => rw [List.flatten_cons]
      next => cases isOk
    next =>
      split at isOk
      next => cases isOk
      next => exact ih isOk

theorem flatten_reads (coming : Pieces) : (coming.flatMap (blocks 1024)).flatten = coming.flatten := by
  induction coming with
  | nil => rfl
  | cons piece later ih =>
    rw [List.flatMap_cons, List.flatten_append, flatten_blocks (by decide), ih, List.flatten_cons]

def accepted : List UInt8 := "HTTP/1.1 200 \r\n\r\n".toList.map asciiByte

theorem awaitTunnel_accepted (proxy target : List Char) :
    awaitTunnel proxy target [] ([accepted].flatMap (blocks 1024)) = .ok [] := by
  have isRead : [accepted].flatMap (blocks 1024) = [accepted] := by decide
  have found : position emptyLine accepted = some 13 := by decide
  have isStatus : (Httpc.statusIn (lossyTextOf (accepted.take 13))).getD 0 = 200 := by decide
  have noLeftover : accepted.drop (13 + 4) = [] := by decide
  rw [isRead, awaitTunnel, List.nil_append, found]
  dsimp only
  rw [isStatus, noLeftover]
  rfl

theorem httpConnect_accepted (encodeBase64 : List UInt8 → List Char) (phost : List Char) (pport : Nat)
    (userinfo : Option (List Char)) (host : List Char) (port : UInt16) :
    httpConnect encodeBase64 phost pport userinfo host port [accepted] =
      .ok (bytesOf (String.ofList (connectText encodeBase64 userinfo (hostPortText host port.toNat))), []) := by
  rw [httpConnect, awaitTunnel_accepted]
  rfl

theorem requestText_eq (target : List Char) :
    "CONNECT ".toList ++ target ++ " HTTP/1.1\r\nHost: ".toList =
      Connect.requestText target ++ ('\r' :: '\n' :: "Host: ".toList) := by
  have isFront : "CONNECT ".toList = "CONNECT".toList ++ [' '] := by decide
  have isBack : " HTTP/1.1\r\nHost: ".toList = ' ' :: ("HTTP/1.1".toList ++ ('\r' :: '\n' :: "Host: ".toList)) := by decide
  unfold Connect.requestText
  rw [isFront, isBack]
  simp only [List.append_assoc, List.cons_append, List.nil_append]

variable {encodeBase64 : List UInt8 → List Char} {decodeBase64 : List Char → Option (List UInt8)} {target : List Char}

def connectLines (encodeBase64 : List UInt8 → List Char) (userinfo : Option (List Char)) (target : List Char) :
    List (List Char) :=
  ("Host: ".toList ++ target) ::
    (userinfo.map fun u => "Proxy-Authorization: Basic ".toList ++ encodeBase64 (bytesOf (String.ofList u))).toList

theorem encoded_connectText :
    bytesOf (String.ofList (connectText encodeBase64 userinfo target)) =
      headBytes ((Connect.requestText target :: connectLines encodeBase64 userinfo target).map encoded) [] := by
  have isCrlf : "\r\n".toList = ['\r', '\n'] := by decide
  rw [← Connect.encoded_lines]
  refine congrArg encoded ?_
  unfold connectText connectLines
  rw [requestText_eq, isCrlf]
  cases userinfo with
  | none => simp only [Option.map_none, Option.toList_none, List.flatMap_cons, List.flatMap_nil, List.append_assoc,
      List.cons_append, List.nil_append]
  | some u => simp only [Option.map_some, Option.toList_some, List.flatMap_cons, List.flatMap_nil, List.append_assoc,
      List.cons_append, List.nil_append]

def Printed (line : List Char) : Prop := ∀ c ∈ line, 0x20 ≤ c.toNat ∧ c.toNat ≤ 0x7e

theorem Printed.append {line more : List Char} (first : Printed line) (second : Printed more) : Printed (line ++ more) := by
  intro c member
  rcases List.mem_append.mp member with inFirst | inSecond
  · exact first c inFirst
  · exact second c inSecond

theorem Printed.areFieldChars {line : List Char} (printed : Printed line) : ∀ c ∈ line, isFieldChar c := by
  intro c member
  obtain ⟨low, high⟩ := printed c member
  have notLast : c.toNat ≠ 0x7f := by omega
  rw [isFieldChar, decide_eq_true low, decide_eq_true notLast, Bool.or_eq_true]
  exact .inr rfl

theorem printed_of_isUriChar (plain : ∀ c ∈ target, isUriChar c) : Printed target := by
  intro c member
  have visible := isVisible_of_isUriChar (plain c member)
  rw [isVisible, Bool.and_eq_true, decide_eq_true_eq, decide_eq_true_eq] at visible
  exact ⟨(by decide : 0x20 ≤ 0x21).trans visible.1, visible.2⟩

theorem printed_encode (isBase64 : IsBase64 encodeBase64 decodeBase64) (bytes : List UInt8) :
    Printed (encodeBase64 bytes) := by
  intro c member
  rcases isBase64.isToken bytes c member with alphanum | rfl | rfl | rfl
  · rw [isAlphanum_iff] at alphanum
    omega
  · decide
  · decide
  · decide

theorem connectLines_printed (isBase64 : IsBase64 encodeBase64 decodeBase64) (plain : ∀ c ∈ target, isUriChar c) :
    ∀ line ∈ connectLines encodeBase64 userinfo target, line ≠ [] ∧ Printed line := by
  have hostName : Printed "Host: ".toList := forall_of_all (by decide)
  have loginName : Printed "Proxy-Authorization: Basic ".toList := forall_of_all (by decide)
  have someHost : "Host: ".toList ≠ [] := by decide
  have someLogin : "Proxy-Authorization: Basic ".toList ≠ [] := by decide
  intro line member
  unfold connectLines at member
  rcases List.mem_cons.mp member with rfl | isLogin
  · exact ⟨fun empty => someHost (List.append_eq_nil_iff.mp empty).1, hostName.append (printed_of_isUriChar plain)⟩
  · obtain ⟨u, -, rfl⟩ := Option.map_eq_some_iff.mp (Option.mem_toList.mp isLogin)
    exact ⟨fun empty => someLogin (List.append_eq_nil_iff.mp empty).1, loginName.append (printed_encode isBase64 _)⟩

theorem areLines_connectLines (isBase64 : IsBase64 encodeBase64 decodeBase64) (plain : ∀ c ∈ target, isUriChar c) :
    AreLines (connectLines encodeBase64 userinfo target) := by
  intro line member
  obtain ⟨isSome, printed⟩ := connectLines_printed isBase64 plain line member
  refine ⟨isSome, ?_, ?_⟩
  · exact fun isReturn => absurd (printed _ isReturn).1 (by decide)
  · exact fun isFeed => absurd (printed _ isFeed).1 (by decide)

theorem isAscii_connectLines (isBase64 : IsBase64 encodeBase64 decodeBase64) (plain : ∀ c ∈ target, isUriChar c) :
    ∀ line ∈ connectLines encodeBase64 userinfo target, ∀ c ∈ line, isAscii c := by
  intro line member c inLine
  have small := ((connectLines_printed isBase64 plain line member).2 c inLine).2
  exact Nat.lt_of_le_of_lt small (by decide)

def basicOf (encodeBase64 : List UInt8 → List Char) (u : List Char) : List Char :=
  unblanked (' ' :: ("Basic ".toList ++ encodeBase64 (bytesOf (String.ofList u))))

def connectFields (encodeBase64 : List UInt8 → List Char) (userinfo : Option (List Char)) (target : List Char) : Fields :=
  ("host".toList, target) :: (userinfo.map fun u => ("proxy-authorization".toList, basicOf encodeBase64 u)).toList

theorem fieldOf_host (plain : ∀ c ∈ target, isUriChar c) :
    fieldOf ("Host: ".toList ++ target) = some ("host".toList, target) := by
  have isName : "Host: ".toList = "Host".toList ++ [':', ' '] := by decide
  have small : "Host".toList.map Char.toLower = "host".toList := by decide
  have isToken : "Host".toList ≠ [] ∧ "Host".toList.all isTokenChar := by decide
  have space : Printed [' '] := forall_of_all (by decide)
  have spaced : Printed (' ' :: target) := space.append (printed_of_isUriChar plain)
  have noBlank : ∀ c ∈ target, isBlank c = false := by
    intro c member
    have isPlain := plain c member
    rw [isBlank, Bool.or_eq_false_iff, beq_eq_false_iff_ne, beq_eq_false_iff_ne]
    refine ⟨?_, ?_⟩
    · rintro rfl
      exact absurd isPlain (by decide)
    · rintro rfl
      exact absurd isPlain (by decide)
  rw [isName, List.append_assoc, List.cons_append, List.singleton_append,
    Connect.fieldOf_append isToken spaced.areFieldChars, small,
    Connect.unblanked_cons (fun c isHead => noBlank c (List.mem_of_mem_head? isHead))
      fun c isLast => noBlank c (List.mem_of_mem_getLast? isLast)]

theorem fieldOf_login (isBase64 : IsBase64 encodeBase64 decodeBase64) (u : List Char) :
    fieldOf ("Proxy-Authorization: Basic ".toList ++ encodeBase64 (bytesOf (String.ofList u))) =
      some ("proxy-authorization".toList, basicOf encodeBase64 u) := by
  have isName : "Proxy-Authorization: Basic ".toList = "Proxy-Authorization".toList ++ (':' :: ' ' :: "Basic ".toList) := by
    decide
  have small : "Proxy-Authorization".toList.map Char.toLower = "proxy-authorization".toList := by decide
  have isToken : "Proxy-Authorization".toList ≠ [] ∧ "Proxy-Authorization".toList.all isTokenChar := by decide
  have scheme : Printed (' ' :: "Basic ".toList) := forall_of_all (by decide)
  rw [isName, List.append_assoc, List.cons_append, List.cons_append, ← List.cons_append,
    Connect.fieldOf_append isToken (scheme.append (printed_encode isBase64 _)).areFieldChars, small, List.cons_append]
  rfl

theorem mapM_connectLines (isBase64 : IsBase64 encodeBase64 decodeBase64) (plain : ∀ c ∈ target, isUriChar c) :
    (connectLines encodeBase64 userinfo target).mapM fieldOf = some (connectFields encodeBase64 userinfo target) := by
  unfold connectLines
  rw [List.mapM_cons, fieldOf_host plain]
  cases userinfo with
  | none => rfl
  | some u =>
    rw [Option.map_some, Option.toList_some, List.mapM_cons, fieldOf_login isBase64]
    rfl

theorem valuesOf_connectFields (name : List Char) :
    valuesOf name (connectFields encodeBase64 userinfo target) =
      (if "host".toList = name then [target] else []) ++
        if "proxy-authorization".toList = name then (userinfo.map (basicOf encodeBase64)).toList else [] := by
  have isLogin : valuesOf name (userinfo.map fun u => ("proxy-authorization".toList, basicOf encodeBase64 u)).toList =
      if "proxy-authorization".toList = name then (userinfo.map (basicOf encodeBase64)).toList else [] := by
    cases userinfo with
    | none => exact (ite_self _).symm
    | some u => exact Connect.valuesOf_cons name _ _ []
  unfold connectFields
  rw [Connect.valuesOf_cons, isLogin]
  by_cases isHost : "host".toList = name
  · rw [if_pos isHost, if_pos isHost, List.singleton_append]
  · rw [if_neg isHost, if_neg isHost, List.nil_append]

theorem bodyLength_connectFields : bodyLength (connectFields encodeBase64 userinfo target) = some (.bytes 0) := by
  rw [bodyLength, valuesOf_connectFields, valuesOf_connectFields, if_neg (by decide), if_neg (by decide),
    if_neg (by decide), if_neg (by decide)]
  rfl

theorem hasHost_connectFields : hasHost (connectFields encodeBase64 userinfo target) = (hostOf target).isSome := by
  rw [hasHost, valuesOf_connectFields, if_pos rfl, if_neg (by decide)]
  rfl

theorem encode_ne_nil (isBase64 : IsBase64 encodeBase64 decodeBase64) {u : List Char} (isSome : u ≠ []) :
    encodeBase64 (bytesOf (String.ofList u)) ≠ [] := by
  intro isEmpty
  have decoded := isBase64.decode_encode (bytesOf (String.ofList u))
  have nothing := isBase64.decode_encode []
  rw [isEmpty, ← isBase64.encode_nil, nothing] at decoded
  have same := textOf_bytesOf (String.ofList u)
  rw [← Option.some.inj decoded] at same
  have noText : textOf [] = some "" := textOf_bytesOf ""
  rw [noText] at same
  have isNil := congrArg String.toList (Option.some.inj same).symm
  rw [String.toList_ofList] at isNil
  exact isSome isNil

theorem isToken_notBlank (isBase64 : IsBase64 encodeBase64 decodeBase64) (bytes : List UInt8) :
    ∀ c ∈ encodeBase64 bytes, isBlank c = false := by
  intro c member
  rw [isBlank, Bool.or_eq_false_iff, beq_eq_false_iff_ne, beq_eq_false_iff_ne]
  refine ⟨?_, ?_⟩
  · rintro rfl
    exact absurd (isBase64.isToken bytes _ member) (by decide)
  · rintro rfl
    exact absurd (isBase64.isToken bytes _ member) (by decide)

theorem basicOf_eq (isBase64 : IsBase64 encodeBase64 decodeBase64) {u : List Char} (isSome : u ≠ []) :
    basicOf encodeBase64 u = "Basic ".toList ++ encodeBase64 (bytesOf (String.ofList u)) := by
  have someToken := encode_ne_nil isBase64 isSome
  apply Connect.unblanked_cons
  · rw [List.head?_append_of_ne_nil _ (by decide)]
    rintro c ⟨⟩
    decide
  · rw [List.getLast?_append_of_ne_nil _ someToken]
    exact fun c isLast => isToken_notBlank isBase64 _ c (List.mem_of_mem_getLast? isLast)

/-- The login that is read is what stands on both sides of a colon. -/
theorem loginOf_connectFields (isBase64 : IsBase64 encodeBase64 decodeBase64) :
    Connect.loginOf decodeBase64 (connectFields encodeBase64 userinfo target) =
      match userinfo with
      | none => some none
      | some u => (splitOnce ':' u).map some := by
  rw [Connect.loginOf, valuesOf_connectFields, if_neg (by decide), if_pos rfl, List.nil_append]
  cases userinfo with
  | none => rfl
  | some u =>
    dsimp only [Option.map_some, Option.toList_some]
    by_cases isSome : u = []
    · have isBlankScheme : basicOf encodeBase64 u = "Basic".toList := by
        rw [basicOf, isSome, show bytesOf (String.ofList []) = [] from rfl, isBase64.encode_nil]
        decide
      rw [isBlankScheme, isSome]
      rfl
    · have front : ("Basic ".toList ++ encodeBase64 (bytesOf (String.ofList u))).take 6 = "Basic ".toList :=
        List.take_left' rfl
      have behind : ("Basic ".toList ++ encodeBase64 (bytesOf (String.ofList u))).drop 6 =
          encodeBase64 (bytesOf (String.ofList u)) := List.drop_left' rfl
      rw [basicOf_eq isBase64 isSome, if_pos front, behind, isBase64.decode_encode, Option.bind_some, textOf_bytesOf,
        Option.bind_some, String.toList_ofList]

theorem asked_connectText (isBase64 : IsBase64 encodeBase64 decodeBase64) (isSome : target ≠ [])
    (plain : ∀ c ∈ target, isUriChar c) :
    Connect.asked decodeBase64 (bytesOf (String.ofList (connectText encodeBase64 userinfo target))) =
      (hostPort none target).bind fun named =>
        (match userinfo with
          | none => some none
          | some u => (splitOnce ':' u).map some).map fun login => ⟨named.1, named.2, login⟩ := by
  rw [encoded_connectText, Connect.asked_headBytes isSome plain (areLines_connectLines isBase64 plain)
    (isAscii_connectLines isBase64 plain) (mapM_connectLines isBase64 plain) bodyLength_connectFields,
    hasHost_connectFields, loginOf_connectFields isBase64]
  cases isHost : hostOf target with
  | none =>
    rw [hostPort, isHost]
    rfl
  | some host => exact if_pos rfl

theorem isUriChar_of_isDigit {c : Char} (digit : isDigit 10 c) : isUriChar c := by
  have each : ∀ d < 10, isUriChar d.digitChar := by decide
  obtain ⟨d, small, rfl, -⟩ := exists_digitChar digit
  exact each d small

theorem isUriChar_of_isRegNameChar {c : Char} (named : isRegNameChar c) : isUriChar c := by
  rw [isRegNameChar, Bool.and_eq_true] at named
  exact named.1

theorem hostPortText_plain (host : Host) (port : Nat) : ∀ c ∈ hostPortText host.text port, isUriChar c := by
  intro c member
  rcases List.mem_append.mp member with inHost | behind
  · rcases host.plain c inHost with named | rfl
    · exact isUriChar_of_isRegNameChar named
    · decide
  · rcases List.mem_cons.mp behind with rfl | inPort
    · decide
    · exact isUriChar_of_isDigit (isDigit_of_mem_toDigits (by decide) (by decide) port c inPort)

theorem hostPortText_ne_nil (host : List Char) (port : Nat) : hostPortText host port ≠ [] :=
  fun empty => List.cons_ne_nil _ _ (List.append_eq_nil_iff.mp empty).2

theorem not_isRegNameChar_colon : isRegNameChar ':' = false := by decide

theorem not_bracketed (host : Host) : host.text.head? ≠ some '[' := by
  intro isHead
  rcases host.plain '[' (List.mem_of_mem_head? isHead) with named | isColon
  · exact absurd named (by decide)
  · exact absurd isColon (by decide)

/-- Before a colon, a host is read up to its own first colon. -/
theorem hostOf_append {named rest : List Char} (isNamed : ∀ c ∈ named, isRegNameChar c) :
    hostOf (named ++ ':' :: rest) = if isPort (':' :: rest) then some named else none := by
  have stops : ∀ c ∈ (':' :: rest).head?, isRegNameChar c = false := by
    rintro _ ⟨⟩
    exact not_isRegNameChar_colon
  obtain ⟨front, behind⟩ := @Reader.takeWhile_of_stopped isRegNameChar named (':' :: rest) stops
  rw [List.takeWhile_eq_self_iff.mpr isNamed] at front
  rw [List.dropWhile_eq_nil_iff.mpr isNamed, List.nil_append] at behind
  have notBracket : ∀ text, named ++ ':' :: rest ≠ '[' :: text := by
    intro text same
    cases named with
    | nil => cases same
    | cons c named =>
      cases same
      exact absurd (isNamed '[' List.mem_cons_self) (by decide)
  rw [hostOf.eq_def]
  split
  next text same => exact absurd same (notBracket _)
  next => simp only [front, behind]

theorem hostPort_named {host : Host} (noColon : ':' ∉ host.text) (port : UInt16) :
    hostPort none (hostPortText host.text port.toNat) = some (host.text, port.toNat) := by
  have isNamed : ∀ c ∈ host.text, isRegNameChar c := by
    intro c member
    rcases host.plain c member with named | rfl
    · exact named
    · exact absurd member noColon
  have digits : (Nat.toDigits 10 port.toNat).all (isDigit 10) :=
    List.all_eq_true.mpr (isDigit_of_mem_toDigits (by decide) (by decide) _)
  have isHost : hostOf (hostPortText host.text port.toNat) = some host.text := by
    rw [hostPortText, hostOf_append isNamed]
    exact if_pos digits
  obtain ⟨c, rest, isText⟩ := List.exists_cons_of_ne_nil host.isSome
  have notBracket : c ≠ '[' := by
    rintro rfl
    exact not_bracketed host (by rw [isText]; rfl)
  have behind : afterHost (hostPortText host.text port.toNat) = ':' :: Nat.toDigits 10 port.toNat := by
    have stops : ∀ c ∈ (':' :: Nat.toDigits 10 port.toNat).head?, isRegNameChar c = false := by
      rintro _ ⟨⟩
      exact not_isRegNameChar_colon
    have isBehind := (@Reader.takeWhile_of_stopped isRegNameChar host.text _ stops).2
    rw [List.dropWhile_eq_nil_iff.mpr isNamed, List.nil_append] at isBehind
    rw [← isBehind, hostPortText, isText, afterHost.eq_def]
    split
    next text same =>
      rw [List.cons_append] at same
      exact absurd (List.cons.inj same).1 notBracket
    next => rfl
  have notBracketed : ¬(host.text = [] ∨
      (hostPortText host.text port.toNat).head? = some '[' ∧ host.text.count ':' < 2) := by
    rintro (isEmpty | ⟨isHead, -⟩)
    · exact host.isSome isEmpty
    · rw [hostPortText, isText] at isHead
      exact notBracket (Option.some.inj isHead)
  have small : ofDigits 10 (Nat.toDigits 10 port.toNat) ≤ 65535 := by
    rw [ofDigits_toDigits (by decide) (by decide)]
    exact Nat.le_of_lt_succ port.toNat_lt
  rw [hostPort, isHost, Option.bind_some, behind]
  dsimp only [List.tail_cons]
  rw [if_neg notBracketed, if_neg Nat.toDigits_ne_nil, if_pos small, ofDigits_toDigits (by decide) (by decide)]

theorem hostPort_of_colon {host : Host} (colon : ':' ∈ host.text) (port : Nat) :
    hostPort none (hostPortText host.text port) = none := by
  obtain ⟨named, rest, isText, noColon⟩ := List.eq_append_cons_of_mem colon
  have isNamed : ∀ c ∈ named, isRegNameChar c := by
    intro c member
    rcases host.plain c (by rw [isText]; exact List.mem_append_left _ member) with isNamed | rfl
    · exact isNamed
    · exact absurd member noColon
  have isTarget : hostPortText host.text port = named ++ ':' :: (rest ++ ':' :: Nat.toDigits 10 port) := by
    rw [hostPortText, isText, List.append_assoc, List.cons_append]
  have notPort : ¬isPort (':' :: (rest ++ ':' :: Nat.toDigits 10 port)) := by
    intro digits
    rw [isPort, Bool.and_eq_true] at digits
    have isDigit := List.all_eq_true.mp digits.2 ':' (List.mem_append_right _ List.mem_cons_self)
    exact absurd isDigit (by decide)
  rw [hostPort, isTarget, hostOf_append isNamed, if_neg notPort]
  rfl

theorem splitOnce_cases (u : List Char) :
    (splitOnce ':' u = none ∧ ':' ∉ u) ∨ (splitOnce ':' u = some (userPass u) ∧ ':' ∈ u) := by
  cases isSplit : splitOnce ':' u with
  | none =>
    refine .inl ⟨rfl, fun colon => ?_⟩
    obtain ⟨user, pass, isText, noColon⟩ := List.eq_append_cons_of_mem colon
    rw [isText, splitOnce_append noColon] at isSplit
    cases isSplit
  | some parts =>
    refine .inr ⟨?_, ?_⟩
    · rw [userPass, isSplit]
      rfl
    · rw [(splitOnce_eq_some isSplit).1]
      exact List.mem_append_right _ List.mem_cons_self

theorem httpConnect_asked_iff (isBase64 : IsBase64 encodeBase64 decodeBase64) (host : Host) (port : UInt16) :
    Connect.asked decodeBase64
        (bytesOf (String.ofList (connectText encodeBase64 userinfo (hostPortText host.text port.toNat)))) =
          some ⟨host.text, port.toNat, userinfo.map userPass⟩ ↔
      ':' ∉ host.text ∧ ∀ u ∈ userinfo, ':' ∈ u := by
  rw [asked_connectText isBase64 (hostPortText_ne_nil _ _) (hostPortText_plain host _)]
  by_cases colon : ':' ∈ host.text
  · rw [hostPort_of_colon colon]
    refine iff_of_false ?_ fun fits => fits.1 colon
    rintro ⟨⟩
  · rw [hostPort_named colon, Option.bind_some]
    cases userinfo with
    | none =>
      refine iff_of_true rfl ⟨colon, ?_⟩
      rintro _ ⟨⟩
    | some u =>
      dsimp only
      rcases splitOnce_cases u with ⟨isNone, noColon⟩ | ⟨isLogin, withColon⟩
      · rw [isNone]
        refine iff_of_false ?_ fun fits => noColon (fits.2 u rfl)
        rintro ⟨⟩
      · rw [isLogin]
        refine iff_of_true rfl ⟨colon, ?_⟩
        rintro _ ⟨⟩
        exact withColon

end

end

section

variable {encodeBase64 : List UInt8 → List Char} {decodeBase64 : List Char → Option (List UInt8)}

theorem faithful_of_fits (isBase64 : IsBase64 encodeBase64 decodeBase64) {proxyUrl : List Char} {host : Host} {port : UInt16}
    (fits : ∀ route, routeOf proxyUrl = .ok route → route.Fits host.text) :
    Faithful encodeBase64 decodeBase64 proxyUrl host.text port := by
  intro world sent left isDone
  obtain ⟨route, isRoute, isDone⟩ := bind_eq_ok_iff.mp isDone
  obtain ⟨coming, isChannel, isDone⟩ := bind_eq_ok_iff.mp isDone
  have fits := fits route isRoute
  refine ⟨route, coming, isRoute, isChannel, ?_⟩
  cases route with
  | direct =>
    cases isDone
    exact ⟨rfl, rfl⟩
  | http tls phost pport userinfo =>
    obtain ⟨later, isTunnel, same⟩ := map_eq_ok_iff.mp isDone
    cases same
    have ending := awaitTunnel_eq_ok isTunnel
    rw [List.nil_append, flatten_reads] at ending
    exact ⟨(httpConnect_asked_iff isBase64 host port).mpr fits, ending⟩
  | socks5 phost pport userinfo => exact socks5Connect_asked fits isDone

def worldOf (answer : List UInt8) : World where
  reach _ _ := some [answer]
  secure _ coming := .ok coming

theorem fits_of_faithful (isBase64 : IsBase64 encodeBase64 decodeBase64) {proxyUrl : List Char} {host : Host} {port : UInt16}
    (faithful : Faithful encodeBase64 decodeBase64 proxyUrl host.text port) {route : Route}
    (isRoute : routeOf proxyUrl = .ok route) : route.Fits host.text := by
  cases route with
  | direct => trivial
  | http tls phost pport userinfo =>
    have isChannel : Route.channel (worldOf accepted) host.text port (.http tls phost pport userinfo) = .ok [accepted] := by
      cases tls with
      | true => rfl
      | false => rfl
    have isSent := httpConnect_accepted encodeBase64 phost pport userinfo host.text port
    have isDone : connect encodeBase64 (worldOf accepted) proxyUrl host.text port = .ok (_, []) :=
      bind_eq_ok_iff.mpr ⟨_, isRoute, bind_eq_ok_iff.mpr ⟨_, isChannel, isSent⟩⟩
    obtain ⟨route, coming, same, -, names⟩ := faithful _ _ _ isDone
    rw [isRoute] at same
    cases same
    exact (httpConnect_asked_iff isBase64 host port).mp names.1
  | socks5 phost pport userinfo =>
    intro short u isUser
    obtain rfl : userinfo = some u := isUser
    obtain ⟨sent, isSent⟩ := socks5Connect_willing short port
    have isDone : connect encodeBase64 (worldOf willing) proxyUrl host.text port = .ok (sent, [[]]) :=
      bind_eq_ok_iff.mpr ⟨_, isRoute, bind_eq_ok_iff.mpr ⟨[willing], rfl, isSent⟩⟩
    obtain ⟨route, coming, same, isChannel, names⟩ := faithful _ _ _ isDone
    rw [isRoute] at same
    cases same
    cases isChannel
    obtain ⟨method, isGranted, isAsked⟩ := names
    obtain rfl := granted_willing isGranted
    exact Socks.length_of_asked isAsked _ rfl

/-- A proxy is asked for the host, the port and the login that were wanted, and its answer ends
where the stream begins, exactly when the form of its request has place for them. -/
theorem faithful_iff (isBase64 : IsBase64 encodeBase64 decodeBase64) (proxyUrl : List Char) (host : Host) (port : UInt16) :
    Faithful encodeBase64 decodeBase64 proxyUrl host.text port ↔
      ∀ route, routeOf proxyUrl = .ok route → route.Fits host.text :=
  ⟨fun faithful _ => fits_of_faithful isBase64 faithful, faithful_of_fits isBase64⟩

end

def named : Host where
  text := "frps".toList
  isSome := by decide
  plain := forall_of_all (by decide)

def loopback : Host where
  text := "::1".toList
  isSome := by decide
  plain := forall_of_all (by decide)

theorem faithful_iff_named :
    Faithful Base64.encode Base64.decode "http://u:p@gate:3128".toList named.text 7000 := by
  have isRoute : routeOf "http://u:p@gate:3128".toList = .ok (.http false "gate".toList 3128 (some "u:p".toList)) := rfl
  refine (faithful_iff Base64.isBase64 _ named 7000).mpr ?_
  rw [isRoute]
  rintro _ ⟨⟩
  refine ⟨by decide, ?_⟩
  rintro _ ⟨⟩
  decide

/-- The address is not put into brackets. -/
theorem not_faithful_loopback : ¬Faithful Base64.encode Base64.decode "http://gate:3128".toList loopback.text 7000 := by
  have isRoute : routeOf "http://gate:3128".toList = .ok (.http false "gate".toList 3128 none) := rfl
  intro faithful
  have fits := fits_of_faithful Base64.isBase64 faithful isRoute
  exact fits.1 (by decide)

end Nfrp.NetProxy
