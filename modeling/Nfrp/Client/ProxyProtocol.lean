import Nfrp.Lib.Joining
import Nfrp.Client.Config
import Nfrp.Server.AddressText

/-!
# The PROXY header

A line of text or a block of bytes that says who a connection comes from, ahead of
what the connection carries.  Both ends of the connection have to be addresses of
one family.
-/

namespace Nfrp.ProxyProtocol

open Lib Nfrp.NatHole Nfrp.Client

def v1MaxLen : Nat := 107

def v2Signature : List UInt8 :=
  [0x0D, 0x0A, 0x0D, 0x0A, 0x00, 0x0D, 0x0A, 0x51, 0x55, 0x49, 0x54, 0x0A]

def v2CmdProxy : UInt8 := 0x21

inductive Transport where
  | stream
  | datagram
  deriving DecidableEq, Repr

def Transport.nibble : Transport → UInt8
  | stream => 1
  | datagram => 2

inductive Header where
  | proxy (src dst : SocketAddr) (transport : Transport)
  | unknown
  deriving DecidableEq, Repr

def Header.src : Header → Option SocketAddr
  | proxy src _ _ => some src
  | unknown => none

def v1Line (family : String) (src dst : SocketAddr) : Except String (List UInt8) :=
  let text := "PROXY " ++ family ++ " " ++ ipText src.ip ++ " " ++ ipText dst.ip ++ " " ++ toString src.port ++ " " ++
    toString dst.port ++ "\r\n"
  let bytes := bytesOf text
  if v1MaxLen < bytes.length then
    .error ("PROXY v1 头 " ++ toString bytes.length ++ " 字节，超过规范上限 " ++ toString v1MaxLen)
  else .ok bytes

def encodeV1 (src dst : SocketAddr) : Except String (List UInt8) :=
  match src.ip, dst.ip with
  | .v4 _, .v4 _ => v1Line "TCP4" src dst
  | .v6 _, .v6 _ => v1Line "TCP6" src dst
  | _, _ => .error "PROXY v1 的两端地址族必须一致（不能一边 IPv4 一边 IPv6）"

def v2Block (family : UInt8) (srcBytes dstBytes : List UInt8) (src dst : SocketAddr) (transport : Transport) :
    List UInt8 :=
  let addrLen := srcBytes.length + dstBytes.length + 4
  v2Signature ++ [v2CmdProxy, family <<< 4 ||| transport.nibble] ++ beBytes 2 addrLen ++ srcBytes ++ dstBytes ++
    beBytes 2 src.port ++ beBytes 2 dst.port

def encodeV2 (src dst : SocketAddr) (transport : Transport) : Except String (List UInt8) :=
  match src.ip, dst.ip with
  | .v4 s, .v4 d => .ok (v2Block 1 (beBytes 4 s.toNat) (beBytes 4 d.toNat) src dst transport)
  | .v6 s, .v6 d => .ok (v2Block 2 (beBytes 16 s.toNat) (beBytes 16 d.toNat) src dst transport)
  | _, _ => .error "PROXY v2 的两端地址族必须一致（不能一边 IPv4 一边 IPv6）"

def encode (src dst : SocketAddr) (version : String) : Except String (List UInt8) :=
  if toAsciiLowercase version = "v1" then encodeV1 src dst else encodeV2 src dst .stream

def findCrlf : List UInt8 → Option Nat
  | 0x0D :: 0x0A :: _ => some 0
  | _ :: rest => (findCrlf rest).map (· + 1)
  | [] => none

def isWord (word : String) (text : List Char) : Bool :=
  text.map Char.toLower = word.toList.map Char.toLower

def parseV1Addr (ip port : List Char) (v6 : Bool) : Except String SocketAddr :=
  match IpAddr.parse ip with
  | none => .error ("PROXY v1 里的 IP 非法：" ++ (String.ofList ip).quote)
  | some addr =>
    let isIpv4 : Bool := match addr with
      | .v4 _ => true
      | .v6 _ => false
    if isIpv4 = v6 then
      .error ("PROXY v1 声明的是 " ++ (if v6 then "TCP6" else "TCP4") ++ "，却给了 " ++ ipText addr)
    else
      match parseUnsigned 65535 port with
      | none => .error ("PROXY v1 里的端口非法：" ++ (String.ofList port).quote)
      | some port => .ok ⟨addr, port⟩

def parseV1Line (line : List Char) : Except String Header :=
  let fields := line.splitOn ' '
  let field (i : Nat) := fields.getD i []
  if !isWord "PROXY" (field 0) then .error ("PROXY v1 头前缀非法：" ++ (String.ofList (field 0)).quote)
  else if isWord "UNKNOWN" (field 1) then .ok .unknown
  else
    let v6 := isWord "TCP6" (field 1)
    if !isWord "TCP4" (field 1) && !v6 then .error ("PROXY v1 不支持的协议：" ++ (String.ofList (field 1)).quote)
    else if 6 < fields.length then .error "PROXY v1 头字段过多"
    else do
      let src ← parseV1Addr (field 2) (field 4) v6
      let dst ← parseV1Addr (field 3) (field 5) v6
      return .proxy src dst .stream

/-- `none` while the line has not ended. -/
def decodeV1 (buf : List UInt8) : Except String (Option (Header × Nat)) :=
  match findCrlf buf with
  | none => if v1MaxLen < buf.length then .error "PROXY v1 头超过 107 字节仍未结束" else .ok none
  | some lineEnd =>
    match textOf (buf.take lineEnd) with
    | none => .error "PROXY v1 头不是合法 ASCII"
    | some line => (parseV1Line line.toList).map fun header => some (header, lineEnd + 2)

def v2Transport (proto : UInt8) : Except String Transport :=
  if proto = 1 then .ok .stream
  else if proto = 2 then .ok .datagram
  else .error ("PROXY v2 传输协议不支持：" ++ toString proto)

def v2Addrs (family : UInt8) (body : List UInt8) : Except String (SocketAddr × SocketAddr) :=
  let number (start width : Nat) := ofBeBytes ((body.drop start).take width)
  if family = 1 then
    if body.length < 12 then .error "PROXY v2 IPv4 地址块过短"
    else .ok (⟨.v4 (.ofNat 32 (number 0 4)), number 8 2⟩, ⟨.v4 (.ofNat 32 (number 4 4)), number 10 2⟩)
  else if family = 2 then
    if body.length < 36 then .error "PROXY v2 IPv6 地址块过短"
    else .ok (⟨.v6 (.ofNat 128 (number 0 16)), number 32 2⟩, ⟨.v6 (.ofNat 128 (number 16 16)), number 34 2⟩)
  else .error ("PROXY v2 地址族不支持：" ++ toString family ++ "（只实现了 IPv4 / IPv6）")

def decodeV2 (buf : List UInt8) : Except String (Header × Nat) :=
  if buf.length < 16 then .error "PROXY v2 头不足 16 字节"
  else if buf.take 12 ≠ v2Signature then .error "PROXY v2 签名不匹配"
  else
    let verCmd := buf.getD 12 0
    if verCmd >>> 4 ≠ 2 then .error ("PROXY v2 版本号应为 2，实际 " ++ toString (verCmd >>> 4))
    else
      let cmd := verCmd &&& 0x0f
      let famProto := buf.getD 13 0
      let total := 16 + ofBeBytes ((buf.drop 14).take 2)
      if buf.length < total then .error "PROXY v2 地址块被截断"
      else if cmd = 0 then .ok (.unknown, total)
      else if cmd ≠ 1 then .error ("PROXY v2 命令不支持：" ++ toString cmd)
      else do
        let transport ← v2Transport (famProto &&& 0x0f)
        let (src, dst) ← v2Addrs (famProto >>> 4) ((buf.take total).drop 16)
        return (.proxy src dst transport, total)

/-- `none` is no PROXY header, and a length of zero is one that is not complete. -/
def sniff (buf : List UInt8) : Option (Header × Nat) :=
  if buf.take 12 = v2Signature.take buf.length then
    if buf.length < 16 then some (.unknown, 0)
    else
      match decodeV2 buf with
      | .ok found => some found
      | .error _ => some (.unknown, 0)
  else
    let probe := min buf.length 6
    let lower (b : UInt8) : UInt8 := if 65 ≤ b ∧ b ≤ 90 then b + 32 else b
    if (buf.take probe).map lower = ((bytesOf "PROXY ").take probe).map lower then
      if probe < 6 then some (.unknown, 0)
      else
        match decodeV1 buf with
        | .ok (some found) => some found
        | .ok none => some (.unknown, 0)
        | .error _ => some (.unknown, 0)
    else none

def SameFamily : IpAddr → IpAddr → Prop
  | .v4 _, .v4 _ | .v6 _, .v6 _ => True
  | _, _ => False

instance (a b : IpAddr) : Decidable (SameFamily a b) :=
  match a, b with
  | .v4 _, .v4 _ | .v6 _, .v6 _ => .isTrue trivial
  | .v4 _, .v6 _ | .v6 _, .v4 _ => .isFalse id

def v1Fields (family : String) (src dst : SocketAddr) : List (List Char) :=
  ["PROXY".toList, family.toList, (ipText src.ip).toList, (ipText dst.ip).toList, Nat.toDigits 10 src.port,
    Nat.toDigits 10 dst.port]

def v1Text (family : String) (src dst : SocketAddr) : List Char :=
  [' '].intercalate (v1Fields family src dst)

def IsFieldChar (c : Char) : Prop :=
  isAscii c ∧ c ≠ ' ' ∧ c ≠ '\r'

theorem isFieldChar_of_isDigit {c : Char} (digit : isDigit 16 c) : IsFieldChar c := by
  refine ⟨isAscii_of_isDigit digit, ?_, ?_⟩
  · rintro rfl
    cases digit
  · rintro rfl
    cases digit

theorem isFieldChar_ipText {ip : IpAddr} {c : Char} (member : c ∈ (ipText ip).toList) : IsFieldChar c := by
  have points : IsFieldChar ':' ∧ IsFieldChar '.' :=
    ⟨⟨by rw [isAscii]; decide, by decide, by decide⟩, ⟨by rw [isAscii]; decide, by decide, by decide⟩⟩
  rcases isAddressChar_ipText member with digit | rfl | rfl
  · exact isFieldChar_of_isDigit digit
  · exact points.1
  · exact points.2

theorem isFieldChar_toDigits {n : Nat} {c : Char} (member : c ∈ Nat.toDigits 10 n) : IsFieldChar c :=
  isFieldChar_of_isDigit (isDigit_sixteen (isDigit_of_mem_toDigits (by decide) (by decide) n c member))

theorem isFieldChar_v1Fields {family : String} (isFamily : ∀ c ∈ family.toList, IsFieldChar c) {src dst : SocketAddr}
    {field : List Char} (isField : field ∈ v1Fields family src dst) {c : Char} (member : c ∈ field) : IsFieldChar c := by
  have proxy : ∀ c ∈ "PROXY".toList, c.toNat < 128 ∧ c ≠ ' ' ∧ c ≠ '\r' := forall_of_all (by decide)
  simp only [v1Fields, List.mem_cons, List.not_mem_nil, or_false] at isField
  rcases isField with rfl | rfl | rfl | rfl | rfl | rfl
  · exact proxy c member
  · exact isFamily c member
  · exact isFieldChar_ipText member
  · exact isFieldChar_ipText member
  · exact isFieldChar_toDigits member
  · exact isFieldChar_toDigits member

theorem splitOn_v1Text {family : String} (isFamily : ∀ c ∈ family.toList, IsFieldChar c) (src dst : SocketAddr) :
    (v1Text family src dst).splitOn ' ' = v1Fields family src dst :=
  List.splitOn_intercalate ' ' (fun _ isField member => (isFieldChar_v1Fields isFamily isField member).2.1 rfl)
    (List.cons_ne_nil _ _)

theorem mem_v1Text {family : String} (isFamily : ∀ c ∈ family.toList, IsFieldChar c) {src dst : SocketAddr} {c : Char}
    (member : c ∈ v1Text family src dst) : isAscii c ∧ c ≠ '\r' := by
  rcases mem_intercalate member with rfl | ⟨field, isField, inField⟩
  · exact ⟨by rw [isAscii]; decide, by decide⟩
  · have isFieldChar := isFieldChar_v1Fields isFamily isField inField
    exact ⟨isFieldChar.1, isFieldChar.2.2⟩

theorem bytesOf_v1Line {family : String} (isFamily : ∀ c ∈ family.toList, IsFieldChar c) (src dst : SocketAddr) :
    bytesOf ("PROXY " ++ family ++ " " ++ ipText src.ip ++ " " ++ ipText dst.ip ++ " " ++ toString src.port ++ " " ++
      toString dst.port ++ "\r\n") = (v1Text family src dst).map asciiByte ++ [0x0D, 0x0A] := by
  have text : "PROXY " ++ family ++ " " ++ ipText src.ip ++ " " ++ ipText dst.ip ++ " " ++ toString src.port ++ " " ++
      toString dst.port ++ "\r\n" = String.ofList (v1Text family src dst ++ ['\r', '\n']) := by
    refine String.toList_inj.mp ?_
    have first : "PROXY ".toList = "PROXY".toList ++ [' '] := rfl
    have space : " ".toList = [' '] := rfl
    have lineEnd : "\r\n".toList = ['\r', '\n'] := rfl
    simp only [String.toList_append, String.toList_ofList, first, space, lineEnd, v1Text, v1Fields,
      List.intercalate_cons_cons, List.intercalate_singleton, Nat.toString_eq_repr, Nat.toList_repr, List.append_assoc]
  rw [text, bytesOf_ofList, List.map_append]
  · rfl
  · intro c member
    rcases List.mem_append.mp member with inLine | inEnd
    · exact (mem_v1Text isFamily inLine).1
    · simp only [List.mem_cons, List.not_mem_nil, or_false] at inEnd
      rcases inEnd with rfl | rfl
      · rw [isAscii]
        decide
      · rw [isAscii]
        decide

theorem length_v1Text_le {family : String} (four : family.toList.length = 4) {src dst : SocketAddr}
    (srcPort : src.port < 65536) (dstPort : dst.port < 65536) : (v1Text family src dst).length ≤ 104 := by
  have proxy : "PROXY".toList.length = 5 := rfl
  have srcIp := length_ipText_le src.ip
  have dstIp := length_ipText_le dst.ip
  have srcDigits : (Nat.toDigits 10 src.port).length ≤ 5 :=
    length_toDigits_le (by decide) (by decide) (srcPort.trans (by decide))
  have dstDigits : (Nat.toDigits 10 dst.port).length ≤ 5 :=
    length_toDigits_le (by decide) (by decide) (dstPort.trans (by decide))
  simp only [v1Text, v1Fields, List.intercalate_cons_cons, List.intercalate_singleton, List.length_append,
    List.length_singleton, proxy, four]
  omega

theorem v1Line_eq {family : String} (isFamily : ∀ c ∈ family.toList, IsFieldChar c) (four : family.toList.length = 4)
    {src dst : SocketAddr} (srcPort : src.port < 65536) (dstPort : dst.port < 65536) :
    v1Line family src dst = .ok ((v1Text family src dst).map asciiByte ++ [0x0D, 0x0A]) := by
  have short := length_v1Text_le four srcPort dstPort
  rw [v1Line, bytesOf_v1Line isFamily, if_neg]
  rw [List.length_append, List.length_map, v1MaxLen]
  simp only [List.length_cons, List.length_nil]
  omega

theorem findCrlf_append {line : List UInt8} (noReturn : 0x0D ∉ line) (rest : List UInt8) :
    findCrlf (line ++ 0x0D :: 0x0A :: rest) = some line.length := by
  induction line with
  | nil => rfl
  | cons b line ih =>
    rw [List.mem_cons, not_or] at noReturn
    rw [List.cons_append, findCrlf, ih noReturn.2]
    · rfl
    · intro _ isReturn
      exact absurd isReturn.symm noReturn.1

theorem parseV1Addr_v4 (addr : Ipv4Addr) {port : Nat} (isPort : port < 65536) :
    parseV1Addr (ipText (.v4 addr)).toList (Nat.toDigits 10 port) false = .ok ⟨.v4 addr, port⟩ := by
  rw [parseV1Addr, parse_ipText]
  dsimp only
  rw [if_neg (by decide), parseUnsigned_toDigits (by omega)]

theorem parseV1Addr_v6 (addr : BitVec 128) {port : Nat} (isPort : port < 65536) :
    parseV1Addr (ipText (.v6 addr)).toList (Nat.toDigits 10 port) true = .ok ⟨.v6 addr, port⟩ := by
  rw [parseV1Addr, parse_ipText]
  dsimp only
  rw [if_neg (by decide), parseUnsigned_toDigits (by omega)]

theorem parseV1Line_of_fields {line family srcIp dstIp srcPort dstPort : List Char} {v6 : Bool} {src dst : SocketAddr}
    (split : line.splitOn ' ' = ["PROXY".toList, family, srcIp, dstIp, srcPort, dstPort])
    (notUnknown : isWord "UNKNOWN" family = false) (isV6 : isWord "TCP6" family = v6)
    (known : isWord "TCP4" family = !v6) (srcRead : parseV1Addr srcIp srcPort v6 = .ok src)
    (dstRead : parseV1Addr dstIp dstPort v6 = .ok dst) : parseV1Line line = .ok (.proxy src dst .stream) := by
  have isProxy : isWord "PROXY" "PROXY".toList = true := by decide
  rw [parseV1Line, split]
  simp only [List.getD_cons_zero, List.getD_cons_succ, isProxy, notUnknown, isV6, known, srcRead, dstRead,
    List.length_cons, List.length_nil]
  cases v6 with
  | false => rfl
  | true => rfl

theorem isFieldChar_tcp4 : ∀ c ∈ "TCP4".toList, IsFieldChar c := by
  have each : ∀ c ∈ "TCP4".toList, c.toNat < 128 ∧ c ≠ ' ' ∧ c ≠ '\r' := forall_of_all (by decide)
  exact each

theorem isFieldChar_tcp6 : ∀ c ∈ "TCP6".toList, IsFieldChar c := by
  have each : ∀ c ∈ "TCP6".toList, c.toNat < 128 ∧ c ≠ ' ' ∧ c ≠ '\r' := forall_of_all (by decide)
  exact each

theorem parseV1Line_tcp4 (s d : Ipv4Addr) {srcPort dstPort : Nat} (isSrcPort : srcPort < 65536)
    (isDstPort : dstPort < 65536) :
    parseV1Line (v1Text "TCP4" ⟨.v4 s, srcPort⟩ ⟨.v4 d, dstPort⟩) =
      .ok (.proxy ⟨.v4 s, srcPort⟩ ⟨.v4 d, dstPort⟩ .stream) :=
  parseV1Line_of_fields (splitOn_v1Text isFieldChar_tcp4 _ _) (by decide) (by decide) (by decide)
    (parseV1Addr_v4 s isSrcPort) (parseV1Addr_v4 d isDstPort)

theorem parseV1Line_tcp6 (s d : BitVec 128) {srcPort dstPort : Nat} (isSrcPort : srcPort < 65536)
    (isDstPort : dstPort < 65536) :
    parseV1Line (v1Text "TCP6" ⟨.v6 s, srcPort⟩ ⟨.v6 d, dstPort⟩) =
      .ok (.proxy ⟨.v6 s, srcPort⟩ ⟨.v6 d, dstPort⟩ .stream) :=
  parseV1Line_of_fields (splitOn_v1Text isFieldChar_tcp6 _ _) (by decide) (by decide) (by decide)
    (parseV1Addr_v6 s isSrcPort) (parseV1Addr_v6 d isDstPort)

theorem asciiByte_ne_return {text : List Char} (noReturn : ∀ c ∈ text, isAscii c ∧ c ≠ '\r') :
    0x0D ∉ text.map asciiByte := by
  intro member
  obtain ⟨c, inText, isReturn⟩ := List.mem_map.mp member
  obtain ⟨ascii, notReturn⟩ := noReturn c inText
  refine notReturn (Char.toNat_inj.mp ?_)
  have value := congrArg UInt8.toNat isReturn
  rw [isAscii] at ascii
  rw [asciiByte, UInt8.toNat_ofNat', Nat.mod_eq_of_lt (ascii.trans (by decide))] at value
  exact value

theorem bytesOf_proxy : bytesOf "PROXY " = [0x50, 0x52, 0x4F, 0x58, 0x59, 0x20] := rfl

theorem sniff_of_proxy {rest : List UInt8} {found : Header × Nat}
    (decoded : decodeV1 (bytesOf "PROXY " ++ rest) = .ok (some found)) :
    sniff (bytesOf "PROXY " ++ rest) = some found := by
  have notSignature : ¬ (bytesOf "PROXY " ++ rest).take 12 = v2Signature.take (bytesOf "PROXY " ++ rest).length := by
    rw [bytesOf_proxy, v2Signature]
    intro same
    have heads := congrArg List.head? same
    simp at heads
  have long : min (bytesOf "PROXY " ++ rest).length 6 = 6 := by
    rw [bytesOf_proxy, List.length_append]
    exact min_eq_right (Nat.le_add_right 6 _)
  have word : (bytesOf "PROXY " ++ rest).take 6 = (bytesOf "PROXY ").take 6 := rfl
  rw [sniff, if_neg notSignature]
  dsimp only
  rw [long, word, if_pos rfl, if_neg (by decide), decoded]

theorem sniff_v1 {family : String} (isFamily : ∀ c ∈ family.toList, IsFieldChar c) {src dst : SocketAddr}
    {header : Header} (read : parseV1Line (v1Text family src dst) = .ok header) (rest : List UInt8) :
    sniff ((v1Text family src dst).map asciiByte ++ [0x0D, 0x0A] ++ rest) =
      some (header, (v1Text family src dst).length + 2) := by
  have noReturn : 0x0D ∉ (v1Text family src dst).map asciiByte :=
    asciiByte_ne_return fun c member => mem_v1Text isFamily member
  have decoded : decodeV1 ((v1Text family src dst).map asciiByte ++ [0x0D, 0x0A] ++ rest) =
      .ok (some (header, (v1Text family src dst).length + 2)) := by
    have lineBytes : (v1Text family src dst).map asciiByte = bytesOf (String.ofList (v1Text family src dst)) :=
      (bytesOf_ofList fun c member => (mem_v1Text isFamily member).1).symm
    rw [decodeV1, List.append_assoc, List.cons_append, List.cons_append, List.nil_append, findCrlf_append noReturn]
    dsimp only
    rw [List.take_left, lineBytes, textOf_bytesOf]
    dsimp only
    rw [String.toList_ofList, read, ← lineBytes, List.length_map]
    rfl
  have begins : ∃ tail, (v1Text family src dst).map asciiByte ++ [0x0D, 0x0A] ++ rest = bytesOf "PROXY " ++ tail := by
    have first : bytesOf "PROXY " = ("PROXY".toList ++ [' ']).map asciiByte := rfl
    rw [v1Text, v1Fields, List.intercalate_cons_cons, first, List.map_append, List.append_assoc, List.append_assoc]
    exact ⟨_, rfl⟩
  obtain ⟨tail, begins⟩ := begins
  rw [begins] at decoded ⊢
  exact sniff_of_proxy decoded

/-- A line of text is written for two addresses of one family, and reads as them. -/
theorem encodeV1_spec {src dst : SocketAddr} (srcPort : src.port < 65536) (dstPort : dst.port < 65536)
    (same : SameFamily src.ip dst.ip) :
    ∃ head, encodeV1 src dst = .ok head ∧
      ∀ rest, sniff (head ++ rest) = some (.proxy src dst .stream, head.length) := by
  obtain ⟨srcIp, srcNumber⟩ := src
  obtain ⟨dstIp, dstNumber⟩ := dst
  cases srcIp with
  | v4 s =>
    cases dstIp with
    | v6 d => cases same
    | v4 d =>
      have line := v1Line_eq isFieldChar_tcp4 (by decide) srcPort dstPort
      have encoded : encodeV1 ⟨.v4 s, srcNumber⟩ ⟨.v4 d, dstNumber⟩ = _ := line
      refine ⟨_, encoded, fun rest => ?_⟩
      rw [sniff_v1 isFieldChar_tcp4 (parseV1Line_tcp4 s d srcPort dstPort), List.length_append, List.length_map]
      rfl
  | v6 s =>
    cases dstIp with
    | v4 d => cases same
    | v6 d =>
      have line := v1Line_eq isFieldChar_tcp6 (by decide) srcPort dstPort
      have encoded : encodeV1 ⟨.v6 s, srcNumber⟩ ⟨.v6 d, dstNumber⟩ = _ := line
      refine ⟨_, encoded, fun rest => ?_⟩
      rw [sniff_v1 isFieldChar_tcp6 (parseV1Line_tcp6 s d srcPort dstPort), List.length_append, List.length_map]
      rfl

theorem sniff_v2Block {family : UInt8} {srcBytes dstBytes : List UInt8} {src dst found : SocketAddr}
    {other : SocketAddr} {transport read : Transport} (short : srcBytes.length + dstBytes.length + 4 < 65536)
    (isTransport : v2Transport ((family <<< 4 ||| transport.nibble) &&& 0x0f) = .ok read)
    (addrs : v2Addrs ((family <<< 4 ||| transport.nibble) >>> 4)
      (srcBytes ++ dstBytes ++ beBytes 2 src.port ++ beBytes 2 dst.port) = .ok (found, other)) (rest : List UInt8) :
    sniff (v2Block family srcBytes dstBytes src dst transport ++ rest) =
      some (.proxy found other read, (v2Block family srcBytes dstBytes src dst transport).length) := by
  have block : v2Block family srcBytes dstBytes src dst transport ++ rest =
      v2Signature ++ (v2CmdProxy :: (family <<< 4 ||| transport.nibble) ::
        (beBytes 2 (srcBytes.length + dstBytes.length + 4) ++
          ((srcBytes ++ dstBytes ++ beBytes 2 src.port ++ beBytes 2 dst.port) ++ rest))) := by
    simp [v2Block, List.append_assoc]
  have bodyLength : (srcBytes ++ dstBytes ++ beBytes 2 src.port ++ beBytes 2 dst.port).length =
      srcBytes.length + dstBytes.length + 4 := by
    simp only [List.length_append, length_beBytes]
  have blockLength : (v2Block family srcBytes dstBytes src dst transport).length =
      16 + (srcBytes.length + dstBytes.length + 4) := by
    have signature : v2Signature.length = 12 := rfl
    simp only [v2Block, List.length_append, length_beBytes, signature, List.length_cons, List.length_nil]
    omega
  rw [block, blockLength]
  generalize srcBytes ++ dstBytes ++ beBytes 2 src.port ++ beBytes 2 dst.port = body at addrs bodyLength ⊢
  generalize srcBytes.length + dstBytes.length + 4 = addrLen at short bodyLength ⊢
  generalize family <<< 4 ||| transport.nibble = famProto at isTransport addrs ⊢
  have lengthBytes : ∀ later : List UInt8, (beBytes 2 addrLen ++ later).take 2 = beBytes 2 addrLen := fun later =>
    List.take_left' (length_beBytes 2 addrLen)
  have dropLength : ∀ later : List UInt8, (beBytes 2 addrLen ++ later).drop 2 = later := fun later =>
    List.drop_left' (length_beBytes 2 addrLen)
  have total : ofBeBytes (beBytes 2 addrLen) = addrLen := by
    rw [ofBeBytes_beBytes]
    exact Nat.mod_eq_of_lt short
  have decoded : decodeV2 (v2Signature ++ (v2CmdProxy :: famProto :: (beBytes 2 addrLen ++ (body ++ rest)))) =
      .ok (.proxy found other read, 16 + addrLen) := by
    have length : (v2Signature ++ (v2CmdProxy :: famProto :: (beBytes 2 addrLen ++ (body ++ rest)))).length =
        16 + addrLen + rest.length := by
      have signature : v2Signature.length = 12 := rfl
      simp only [List.length_append, List.length_cons, length_beBytes, signature, bodyLength]
      omega
    have first : (v2Signature ++ (v2CmdProxy :: famProto :: (beBytes 2 addrLen ++ (body ++ rest)))).take 12 = v2Signature :=
      rfl
    have version : (v2Signature ++ (v2CmdProxy :: famProto :: (beBytes 2 addrLen ++ (body ++ rest)))).getD 12 0 = 0x21 :=
      rfl
    have families : (v2Signature ++ (v2CmdProxy :: famProto :: (beBytes 2 addrLen ++ (body ++ rest)))).getD 13 0 =
        famProto := rfl
    have later : (v2Signature ++ (v2CmdProxy :: famProto :: (beBytes 2 addrLen ++ (body ++ rest)))).drop 14 =
        beBytes 2 addrLen ++ (body ++ rest) := rfl
    have content : ((v2Signature ++ (v2CmdProxy :: famProto :: (beBytes 2 addrLen ++ (body ++ rest)))).take
        (16 + addrLen)).drop 16 = body := by
      rw [List.drop_take, Nat.add_sub_cancel_left]
      have sixteen : (v2Signature ++ (v2CmdProxy :: famProto :: (beBytes 2 addrLen ++ (body ++ rest)))).drop 16 =
          body ++ rest := by
        rw [show 16 = 14 + 2 from rfl, ← List.drop_drop, later, dropLength]
      rw [sixteen, List.take_left' bodyLength]
    have isProxy : ¬ (0x21 : UInt8) &&& 0x0f = 0 ∧ ¬ (0x21 : UInt8) &&& 0x0f ≠ 1 ∧ ¬ (0x21 : UInt8) >>> 4 ≠ 2 := by
      decide
    rw [decodeV2, if_neg (by omega), if_neg (not_not.mpr first)]
    dsimp only
    rw [version, families, later, lengthBytes, total, if_neg isProxy.2.2, if_neg (by omega), if_neg isProxy.1,
      if_neg isProxy.2.1, content, isTransport, addrs]
    rfl
  have begins : (v2Signature ++ (v2CmdProxy :: famProto :: (beBytes 2 addrLen ++ (body ++ rest)))).take 12 =
      v2Signature.take (v2Signature ++ (v2CmdProxy :: famProto :: (beBytes 2 addrLen ++ (body ++ rest)))).length := by
    rw [List.take_of_length_le (l := v2Signature)]
    · rfl
    · rw [List.length_append]
      exact Nat.le_add_right _ _
  have long : ¬ (v2Signature ++ (v2CmdProxy :: famProto :: (beBytes 2 addrLen ++ (body ++ rest)))).length < 16 := by
    have signature : v2Signature.length = 12 := rfl
    simp only [List.length_append, List.length_cons, length_beBytes, signature]
    omega
  rw [sniff, if_pos begins, if_neg long, decoded]

theorem ofBeBytes_row (width s d sp dp : Nat) :
    let body := beBytes width s ++ beBytes width d ++ beBytes 2 sp ++ beBytes 2 dp
    ofBeBytes ((body.drop 0).take width) = s % 256 ^ width ∧
      ofBeBytes ((body.drop width).take width) = d % 256 ^ width ∧
      ofBeBytes ((body.drop (width + width)).take 2) = sp % 256 ^ 2 ∧
      ofBeBytes ((body.drop (width + width + 2)).take 2) = dp % 256 ^ 2 := by
  have number : ∀ (before later : List UInt8) (start width value : Nat), before.length = start →
      ofBeBytes (((before ++ (beBytes width value ++ later)).drop start).take width) = value % 256 ^ width := by
    intro before later start width value starts
    rw [List.drop_left' starts, List.take_left' (length_beBytes width value), ofBeBytes_beBytes]
  intro body
  have fromSecond : body = beBytes width s ++ (beBytes width d ++ (beBytes 2 sp ++ beBytes 2 dp)) := by
    simp only [body, List.append_assoc]
  have fromThird : body = (beBytes width s ++ beBytes width d) ++ (beBytes 2 sp ++ beBytes 2 dp) := by
    simp only [body, List.append_assoc]
  have fromFourth : body = (beBytes width s ++ beBytes width d ++ beBytes 2 sp) ++ (beBytes 2 dp ++ []) := by
    simp only [body, List.append_nil]
  refine ⟨?_, ?_, ?_, ?_⟩
  · rw [fromSecond]
    exact number [] _ 0 width s rfl
  · rw [fromSecond]
    exact number _ _ width width d (length_beBytes width s)
  · rw [fromThird]
    exact number _ _ (width + width) 2 sp (by simp only [List.length_append, length_beBytes])
  · rw [fromFourth]
    exact number _ _ (width + width + 2) 2 dp (by simp only [List.length_append, length_beBytes])

theorem ofNat_toNat_mod {width : Nat} (addr : BitVec width) : BitVec.ofNat width (addr.toNat % 2 ^ width) = addr := by
  rw [Nat.mod_eq_of_lt addr.isLt, BitVec.ofNat_toNat, BitVec.setWidth_eq]

theorem v2Addrs_v4 (s d : Ipv4Addr) {sp dp : Nat} (srcPort : sp < 65536) (dstPort : dp < 65536) :
    v2Addrs 1 (beBytes 4 s.toNat ++ beBytes 4 d.toNat ++ beBytes 2 sp ++ beBytes 2 dp) =
      .ok (⟨.v4 s, sp⟩, ⟨.v4 d, dp⟩) := by
  obtain ⟨first, second, third, fourth⟩ := ofBeBytes_row 4 s.toNat d.toNat sp dp
  have width : 256 ^ 4 = 2 ^ 32 := by decide
  have long : ¬ (beBytes 4 s.toNat ++ beBytes 4 d.toNat ++ beBytes 2 sp ++ beBytes 2 dp).length < 12 := by
    simp only [List.length_append, length_beBytes]
    decide
  rw [v2Addrs]
  dsimp only
  rw [if_pos rfl, if_neg long, first, second, third, fourth, Nat.mod_eq_of_lt (b := 256 ^ 2) srcPort,
    Nat.mod_eq_of_lt (b := 256 ^ 2) dstPort, width, ofNat_toNat_mod, ofNat_toNat_mod]

theorem v2Addrs_v6 (s d : BitVec 128) {sp dp : Nat} (srcPort : sp < 65536) (dstPort : dp < 65536) :
    v2Addrs 2 (beBytes 16 s.toNat ++ beBytes 16 d.toNat ++ beBytes 2 sp ++ beBytes 2 dp) =
      .ok (⟨.v6 s, sp⟩, ⟨.v6 d, dp⟩) := by
  obtain ⟨first, second, third, fourth⟩ := ofBeBytes_row 16 s.toNat d.toNat sp dp
  have width : 256 ^ 16 = 2 ^ 128 := by decide
  have long : ¬ (beBytes 16 s.toNat ++ beBytes 16 d.toNat ++ beBytes 2 sp ++ beBytes 2 dp).length < 36 := by
    simp only [List.length_append, length_beBytes]
    decide
  rw [v2Addrs]
  dsimp only
  rw [if_neg (by decide), if_pos rfl, if_neg long, first, second, third, fourth,
    Nat.mod_eq_of_lt (b := 256 ^ 2) srcPort, Nat.mod_eq_of_lt (b := 256 ^ 2) dstPort, width, ofNat_toNat_mod,
    ofNat_toNat_mod]

/-- A block is written for two addresses of one family, and reads as them. -/
theorem encodeV2_spec {src dst : SocketAddr} (srcPort : src.port < 65536) (dstPort : dst.port < 65536)
    (same : SameFamily src.ip dst.ip) :
    ∃ head, encodeV2 src dst .stream = .ok head ∧
      ∀ rest, sniff (head ++ rest) = some (.proxy src dst .stream, head.length) := by
  obtain ⟨srcIp, srcNumber⟩ := src
  obtain ⟨dstIp, dstNumber⟩ := dst
  cases srcIp with
  | v4 s =>
    cases dstIp with
    | v6 d => cases same
    | v4 d =>
      refine ⟨_, rfl, fun rest => sniff_v2Block ?_ rfl (v2Addrs_v4 s d srcPort dstPort) rest⟩
      simp only [length_beBytes]
      decide
  | v6 s =>
    cases dstIp with
    | v4 d => cases same
    | v6 d =>
      refine ⟨_, rfl, fun rest => sniff_v2Block ?_ rfl (v2Addrs_v6 s d srcPort dstPort) rest⟩
      simp only [length_beBytes]
      decide

theorem encode_spec {src dst : SocketAddr} (srcPort : src.port < 65536) (dstPort : dst.port < 65536)
    (same : SameFamily src.ip dst.ip) (version : String) :
    ∃ head, encode src dst version = .ok head ∧
      ∀ rest, sniff (head ++ rest) = some (.proxy src dst .stream, head.length) := by
  rw [encode]
  split
  · exact encodeV1_spec srcPort dstPort same
  · exact encodeV2_spec srcPort dstPort same

theorem encode_ne_ok {src dst : SocketAddr} (other : ¬ SameFamily src.ip dst.ip) (version : String) (head : List UInt8) :
    encode src dst version ≠ .ok head := by
  obtain ⟨srcIp, srcNumber⟩ := src
  obtain ⟨dstIp, dstNumber⟩ := dst
  rw [encode, encodeV1, encodeV2]
  cases srcIp with
  | v4 s =>
    cases dstIp with
    | v4 d => exact absurd trivial other
    | v6 d => split <;> exact nofun
  | v6 s =>
    cases dstIp with
    | v4 d => split <;> exact nofun
    | v6 d => exact absurd trivial other

end Nfrp.ProxyProtocol
