import Nfrp.Lib.Checked
import Nfrp.Client.ProxyProtocol
import Nfrp.Client.Remote
import Nfrp.Client.WorkConn

/-!
# Telling the local service who is there

The server says with each work connection where the visitor comes from; the client
puts a PROXY header in front of what the visitor sends.  Where the server does not
say what was connected to, the header says 127.0.0.1.
-/

namespace Nfrp.Client

open Lib Nfrp.NatHole Nfrp.ProxyProtocol

structure StartWorkConn where
  proxyName : String
  srcAddr : String := ""
  dstAddr : String := ""
  srcPort : Nat := 0
  dstPort : Nat := 0

def startWorkConn (proxyName : String) (peer : SocketAddr) (remotePort : Nat) : StartWorkConn where
  proxyName := proxyName
  srcAddr := ipText peer.ip
  srcPort := peer.port
  dstPort := remotePort

/-- What is neither of the two versions is no PROXY header at all. -/
def proxyProtocolVersion (transport own : String) : Option String :=
  let raw := if isBlank transport then trim own else trim transport
  if toAsciiLowercase raw = "v1" then some "v1"
  else if toAsciiLowercase raw = "v2" then some "v2"
  else none

section Flow

variable (lookup : String → Nat → List SocketAddr)

def resolveHost (host : String) (port : Nat) : Option SocketAddr :=
  resolveAddr lookup (host ++ ":" ++ toString port).toList

/-- The header of a connection, none if the server did not say where it comes from. -/
def proxyHeader (version : Option String) (start : StartWorkConn) : Except String (Option (List UInt8)) :=
  match version with
  | none => .ok none
  | some version =>
    if start.srcAddr = "" ∨ start.srcPort = 0 then .ok none
    else
      let dstIp := if isBlank start.dstAddr then "127.0.0.1" else start.dstAddr
      match resolveHost lookup start.srcAddr start.srcPort, resolveHost lookup dstIp start.dstPort with
      | none, _ => .error ("解析 PROXY 头源地址 " ++ start.srcAddr ++ " 失败")
      | some _, none => .error ("解析 PROXY 头目的地址 " ++ dstIp ++ " 失败")
      | some src, some dst =>
        ((encode src dst version).map some).mapError fun e =>
          "生成 PROXY " ++ version ++ " 头失败: protocol error: " ++ e

variable (serverConfigFromPem : String → String → Except String Unit)
  (hmacSha1 : List UInt8 → List UInt8 → Vector UInt8 20) (c : Ciphers Block (List UInt8)) (cfg : ClientConfig)
  (p : ProxyConfig) (version : Option String) (start : StartWorkConn)

/-- What the local service receives of a connection, of which `leftover` was read
already; none if the connection goes elsewhere. -/
def localService (leftover rest : List UInt8) : Except String (Option (List UInt8)) :=
  match workConnFlow serverConfigFromPem hmacSha1 cfg p with
  | .error e => .error e
  | .ok (.forward t) =>
    (proxyHeader lookup version start).map fun header =>
      some (header.getD [] ++ (WorkConn.forward t).received c leftover rest)
  | .ok _ => .ok none

end Flow

/-- A resolver answers a numeric address with that address. -/
def Numeric (lookup : String → Nat → List SocketAddr) : Prop :=
  ∀ host ip port, IpAddr.parse host.toList = some ip → (lookup host port).head? = some ⟨ip, port⟩

theorem ip_eq_some {text : List Char} {ip : IpAddr} (read : IpAddr.parse text = some ip) :
    (∃ addr, ip = .v4 addr ∧ Reader.ipv4 text = some (addr, [])) ∨
      ∃ addr, ip = .v6 addr ∧ Reader.ipv4 text = none ∧ Reader.ipv6 text = some (addr, []) := by
  rw [IpAddr.parse, Reader.whole_eq_some, Reader.ip, Reader.or, Reader.map, Reader.bind] at read
  cases dotted : Reader.ipv4 text with
  | some found =>
    obtain ⟨addr, rest⟩ := found
    rw [dotted] at read
    obtain ⟨rfl, rfl⟩ := Prod.mk.inj (Option.some.inj read)
    exact .inl ⟨addr, rfl, rfl⟩
  | none =>
    rw [dotted, Option.bind_none, Option.none_or, Reader.map, Reader.bind] at read
    obtain ⟨⟨addr, rest⟩, groups, same⟩ := Option.bind_eq_some_iff.mp read
    obtain ⟨rfl, rfl⟩ := Prod.mk.inj (Option.some.inj same)
    exact .inr ⟨addr, rfl, rfl, groups⟩

theorem head?_of_ipv6 {text rest : List Char} {addr : BitVec 128} (read : Reader.ipv6 text = some (addr, rest)) :
    ∃ c tail, text = c :: tail ∧ c ≠ '[' := by
  cases text with
  | nil => cases read
  | cons c tail =>
    refine ⟨c, tail, rfl, ?_⟩
    rintro rfl
    cases read

/-- The host is found whether or not its text has colons in it. -/
theorem resolveHost_numeric {lookup : String → Nat → List SocketAddr} (numeric : Numeric lookup) {host : String}
    {ip : IpAddr} (read : IpAddr.parse host.toList = some ip) {port : Nat} (isPort : port < 65536) :
    resolveHost lookup host port = some ⟨ip, port⟩ := by
  have text : (host ++ ":" ++ toString port).toList = host.toList ++ ':' :: Nat.toDigits 10 port := by
    have colon : ":".toList = [':'] := rfl
    rw [String.toList_append, String.toList_append, Nat.toString_eq_repr, Nat.toList_repr, colon, List.append_assoc,
      List.singleton_append]
  have isHead : ∀ c ∈ (':' :: Nat.toDigits 10 port).head?, c = ':' := fun c same => (Option.some.inj same).symm
  have dotted := stopsAt_ipv4 (c := ':') (by decide) (by decide) host.toList _ isHead
  rw [resolveHost, resolveAddr, text]
  rcases ip_eq_some read with ⟨addr, rfl, whole⟩ | ⟨addr, rfl, notDotted, whole⟩
  · have parsed : SocketAddr.parse (host.toList ++ ':' :: Nat.toDigits 10 port) = some ⟨.v4 addr, port⟩ := by
      rw [SocketAddr.parse, Reader.whole_eq_some, Reader.socketAddr, Reader.or, Reader.socketAddrV4, Reader.bind,
        dotted, whole, Option.map_some, Option.bind_some, Reader.map, Reader.bind]
      dsimp only
      rw [List.nil_append, Reader.port_toDigits isPort]
      rfl
    rw [parsed]
  · have notParsed : SocketAddr.parse (host.toList ++ ':' :: Nat.toDigits 10 port) = none := by
      obtain ⟨c, tail, isText, notBracket⟩ := head?_of_ipv6 whole
      have noBracket : Reader.given '[' (host.toList ++ ':' :: Nat.toDigits 10 port) = none := by
        rw [isText, List.cons_append, Reader.given, if_neg notBracket]
      rw [SocketAddr.parse, Reader.whole, Reader.socketAddr, Reader.or, Reader.socketAddrV4, Reader.bind, dotted,
        notDotted, Option.map_none, Option.bind_none, Option.none_or, Reader.socketAddrV6, Reader.bind, noBracket]
      rfl
    have noColon : ':' ∉ Nat.toDigits 10 port := notMem_toDigits (by decide) (by decide) (by decide) port
    rw [notParsed]
    dsimp only
    rw [rsplitOnce_append noColon]
    dsimp only
    rw [parseUnsigned_toDigits (by omega), Option.bind_some, String.ofList_toList]
    exact numeric host _ port read

/-- A server that says where a connection comes from, and, if it likes, what was
connected to. -/
structure Announces (start : StartWorkConn) (visitor : SocketAddr) (dst : Option IpAddr) : Prop where
  srcAddr : IpAddr.parse start.srcAddr.toList = some visitor.ip
  srcPort : start.srcPort = visitor.port
  isPort : 0 < visitor.port ∧ visitor.port < 65536
  dstAddr : match dst with
    | none => isBlank start.dstAddr = true
    | some ip => IpAddr.parse start.dstAddr.toList = some ip ∧ isBlank start.dstAddr = false
  dstPort : start.dstPort < 65536

/-- Every relay of the server says where a connection comes from, and none says what
was connected to. -/
theorem announces_startWorkConn (proxyName : String) {visitor : SocketAddr}
    (isPort : 0 < visitor.port ∧ visitor.port < 65536) {remotePort : Nat} (isRemotePort : remotePort < 65536) :
    Announces (startWorkConn proxyName visitor remotePort) visitor none :=
  ⟨parse_ipText visitor.ip, rfl, isPort, rfl, isRemotePort⟩

def loopback : IpAddr := .v4 0x7F000001

variable {lookup : String → Nat → List SocketAddr} {start : StartWorkConn} {visitor : SocketAddr} {dst : Option IpAddr}

theorem srcAddr_ne_empty (announces : Announces start visitor dst) : start.srcAddr ≠ "" := by
  intro empty
  have read := announces.srcAddr
  rw [empty] at read
  cases read

theorem proxyHeader_eq (numeric : Numeric lookup) (announces : Announces start visitor dst) (version : String) :
    proxyHeader lookup (some version) start =
      ((encode visitor ⟨dst.getD loopback, start.dstPort⟩ version).map some).mapError fun e =>
        "生成 PROXY " ++ version ++ " 头失败: protocol error: " ++ e := by
  have given : ¬ (start.srcAddr = "" ∨ start.srcPort = 0) := by
    rw [announces.srcPort]
    rintro (empty | zero)
    · exact srcAddr_ne_empty announces empty
    · exact absurd zero (Nat.pos_iff_ne_zero.mp announces.isPort.1)
  have src : resolveHost lookup start.srcAddr start.srcPort = some visitor := by
    rw [announces.srcPort]
    exact resolveHost_numeric numeric announces.srcAddr announces.isPort.2
  have dstFound : resolveHost lookup (if isBlank start.dstAddr then "127.0.0.1" else start.dstAddr) start.dstPort =
      some ⟨dst.getD loopback, start.dstPort⟩ := by
    have isDst := announces.dstAddr
    cases dst with
    | none =>
      rw [if_pos isDst]
      exact resolveHost_numeric numeric (by decide +kernel) announces.dstPort
    | some ip =>
      rw [isDst.2, if_neg Bool.false_ne_true]
      exact resolveHost_numeric numeric isDst.1 announces.dstPort
  rw [proxyHeader]
  dsimp only
  rw [if_neg given, src, dstFound]

/-- No header is sent only where the server did not say where the connection comes
from. -/
theorem proxyHeader_eq_none_iff (lookup : String → Nat → List SocketAddr) (version : String) (start : StartWorkConn) :
    proxyHeader lookup (some version) start = .ok none ↔ start.srcAddr = "" ∨ start.srcPort = 0 := by
  rw [proxyHeader]
  dsimp only
  split
  next none => exact ⟨fun _ => none, fun _ => rfl⟩
  next given =>
    refine ⟨fun noHeader => ?_, fun none => absurd none given⟩
    split at noHeader
    · cases noHeader
    · cases noHeader
    · obtain ⟨_, _, same⟩ := map_eq_ok_iff.mp (mapError_eq_ok_iff.mp noHeader)
      cases same

section Named

variable (serverConfigFromPem : String → String → Except String Unit)
  (hmacSha1 : List UInt8 → List UInt8 → Vector UInt8 20) (c : Ciphers Block (List UInt8)) (cfg : ClientConfig)
  (p : ProxyConfig)

/-- Where the connection goes to the local service, this receives a header that reads
as the visitor, and then what it would receive without one. -/
def Named (lookup : String → Nat → List SocketAddr) (version : Option String) (start : StartWorkConn)
    (visitor : SocketAddr) : Prop :=
  ∀ t, workConnFlow serverConfigFromPem hmacSha1 cfg p = .ok (.forward t) → ∀ leftover rest,
    ∃ head header, localService lookup serverConfigFromPem hmacSha1 c cfg p version start leftover rest =
        .ok (some (head ++ (WorkConn.forward t).received c leftover rest)) ∧
      sniff (head ++ (WorkConn.forward t).received c leftover rest) = some (header, head.length) ∧
      header.src = some visitor

theorem exists_forward_iff :
    (∃ t, workConnFlow serverConfigFromPem hmacSha1 cfg p = .ok (.forward t)) ↔
      ¬ (p.proxyType = "udp" ∨ p.proxyType = "sudp") ∧ pluginKind p = "" := by
  have noPlugin : Plugin.fromProxy serverConfigFromPem p = none ↔ pluginKind p = "" := plugin_fromProxy_eq_none_iff
  rw [workConnFlow, ← noPlugin]
  split
  next datagrams => exact ⟨fun ⟨_, same⟩ => (nomatch same), fun both => absurd datagrams both.1⟩
  next stream =>
    cases plugin : Plugin.fromProxy serverConfigFromPem p with
    | none => exact ⟨fun _ => ⟨stream, rfl⟩, fun _ => ⟨_, rfl⟩⟩
    | some built =>
      refine ⟨fun ⟨_, same⟩ => ?_, fun both => (nomatch both.2)⟩
      cases built with
      | error e => cases same
      | ok plugin =>
        obtain ⟨_, _, other⟩ := map_eq_ok_iff.mp same
        cases other

variable {serverConfigFromPem hmacSha1 c cfg p}

theorem localService_eq {t : Transform Block} (flow : workConnFlow serverConfigFromPem hmacSha1 cfg p = .ok (.forward t))
    (lookup : String → Nat → List SocketAddr) (version : Option String) (start : StartWorkConn)
    (leftover rest : List UInt8) :
    localService lookup serverConfigFromPem hmacSha1 c cfg p version start leftover rest =
      (proxyHeader lookup version start).map fun header =>
        some (header.getD [] ++ (WorkConn.forward t).received c leftover rest) := by
  rw [localService, flow]

theorem named_of_sameFamily (numeric : Numeric lookup) (announces : Announces start visitor dst)
    (same : SameFamily visitor.ip (dst.getD loopback)) (version : String) :
    Named serverConfigFromPem hmacSha1 c cfg p lookup (some version) start visitor := by
  intro t flow leftover rest
  obtain ⟨head, encoded, sniffed⟩ : ∃ head, encode visitor ⟨dst.getD loopback, start.dstPort⟩ version = .ok head ∧ _ :=
    encode_spec announces.isPort.2 announces.dstPort same version
  refine ⟨head, _, ?_, sniffed _, rfl⟩
  rw [localService_eq flow, proxyHeader_eq numeric announces, encoded]
  rfl

theorem localService_of_families (numeric : Numeric lookup) (announces : Announces start visitor dst)
    (other : ¬ SameFamily visitor.ip (dst.getD loopback)) {t : Transform Block}
    (flow : workConnFlow serverConfigFromPem hmacSha1 cfg p = .ok (.forward t)) (version : String)
    (leftover rest : List UInt8) (received : Option (List UInt8)) :
    localService lookup serverConfigFromPem hmacSha1 c cfg p (some version) start leftover rest ≠ .ok received := by
  rw [localService_eq flow, proxyHeader_eq numeric announces]
  intro served
  obtain ⟨_, headed, _⟩ := map_eq_ok_iff.mp served
  obtain ⟨head, encoded, _⟩ := map_eq_ok_iff.mp (mapError_eq_ok_iff.mp headed)
  exact encode_ne_ok other version head encoded

theorem named_iff (numeric : Numeric lookup) (announces : Announces start visitor dst) (version : String) :
    Named serverConfigFromPem hmacSha1 c cfg p lookup (some version) start visitor ↔
      (¬ (p.proxyType = "udp" ∨ p.proxyType = "sudp") → pluginKind p = "" →
        SameFamily visitor.ip (dst.getD loopback)) := by
  constructor
  · intro named stream noPlugin
    obtain ⟨t, flow⟩ := (exists_forward_iff serverConfigFromPem hmacSha1 cfg p).mpr ⟨stream, noPlugin⟩
    by_contra other
    obtain ⟨head, header, served, -⟩ := named t flow [] []
    exact localService_of_families numeric announces other flow version [] [] _ served
  · intro families t flow
    obtain ⟨stream, noPlugin⟩ := (exists_forward_iff serverConfigFromPem hmacSha1 cfg p).mp ⟨t, flow⟩
    exact named_of_sameFamily numeric announces (families stream noPlugin) version t flow

end Named

/-- Where the server says where a visitor comes from, the local service is told, if
and only if what was connected to, or 127.0.0.1 where the server does not say it, is
an address of the same family; the relays of this server never say it.  A header is
left out only where the server did not say where the visitor comes from. -/
theorem visitor_named_iff (serverConfigFromPem : String → String → Except String Unit)
    (hmacSha1 : List UInt8 → List UInt8 → Vector UInt8 20) (c : Ciphers Block (List UInt8)) (cfg : ClientConfig)
    (p : ProxyConfig) (numeric : Numeric lookup) (transport own : String) (version : String)
    (isVersion : proxyProtocolVersion transport own = some version) :
    (∀ start visitor dst, Announces start visitor dst →
      (Named serverConfigFromPem hmacSha1 c cfg p lookup (proxyProtocolVersion transport own) start visitor ↔
        (¬ (p.proxyType = "udp" ∨ p.proxyType = "sudp") → pluginKind p = "" →
          SameFamily visitor.ip (dst.getD loopback)))) ∧
    (∀ proxyName remotePort visitor, remotePort < 65536 → 0 < visitor.port ∧ visitor.port < 65536 →
      Announces (startWorkConn proxyName visitor remotePort) visitor none) ∧
    ∀ start, proxyHeader lookup (proxyProtocolVersion transport own) start = .ok none ↔
      start.srcAddr = "" ∨ start.srcPort = 0 := by
  rw [isVersion]
  exact ⟨fun start visitor dst announces => named_iff numeric announces version,
    fun proxyName remotePort visitor isRemotePort isPort => announces_startWorkConn proxyName isPort isRemotePort,
    proxyHeader_eq_none_iff lookup version⟩

theorem numeric_numericLookup : Numeric Process.numericLookup := by
  intro host ip port read
  rw [Process.numericLookup, read]
  rfl

def noCiphers : Ciphers Block (List UInt8) where
  cipher _ := .identity
  compression := .identity

def behindHeader : ProxyConfig where
  name := "web"
  localAddr := "127.0.0.1:80"
  remotePort := 6000

def visitor4 : SocketAddr := ⟨.v4 0xCB007107, 51000⟩

def visitor6 : SocketAddr := ⟨.v6 0x20010db8000000000000000000000007, 51000⟩

theorem visitor4_named :
    Named (fun _ _ => .ok ()) (fun _ _ => .replicate 20 0) noCiphers {} behindHeader Process.numericLookup
      (proxyProtocolVersion "" "v1") (startWorkConn "web" visitor4 6000) visitor4 := by
  obtain ⟨iff, announces, -⟩ := visitor_named_iff (fun _ _ => .ok ()) (fun _ _ => .replicate 20 0) noCiphers {}
    behindHeader numeric_numericLookup "" "v1" "v1" (by decide +kernel)
  exact (iff _ visitor4 none (announces "web" 6000 visitor4 (by decide) (by decide))).mpr fun _ _ => trivial

/-- A visitor with an IPv6 address, at a relay of this server. -/
theorem visitor6_not_named :
    (startWorkConn "web" visitor6 6000).srcAddr = "2001:db8::7" ∧
      ¬ Named (fun _ _ => .ok ()) (fun _ _ => .replicate 20 0) noCiphers {} behindHeader Process.numericLookup
        (proxyProtocolVersion "" "v1") (startWorkConn "web" visitor6 6000) visitor6 := by
  have version : proxyProtocolVersion "" "v1" = some "v1" := by decide +kernel
  have announces : Announces (startWorkConn "web" visitor6 6000) visitor6 none :=
    announces_startWorkConn "web" (by decide) (by decide)
  refine ⟨by decide +kernel, ?_⟩
  rw [version, named_iff numeric_numericLookup announces]
  intro families
  exact families (by decide) (by decide +kernel)

end Nfrp.Client
