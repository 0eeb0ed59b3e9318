import Nfrp.Lib.Spelling
import Nfrp.Udp.Packet

/-!
# Which visitor a datagram belongs to

The sessions of a UDP proxy are kept by the text of an address.  The text is taken as it came, so
an IPv6 address has as many keys as spellings, and what is no address may be spelled like the key
of one that is.
-/

namespace Nfrp.Udp

open Lib hiding SocketAddr
open Nfrp.NatHole Nfrp.P2p

theorem octet_canonical {index n : Nat} {text rest : List Char} (read : Reader.ipv4Octet index text = some (n, rest)) :
    text = (if index = 0 then [] else ['.']) ++ (Nat.toDigits 10 n ++ rest) ∧ n ≤ 255 := by
  rw [Reader.ipv4Octet, Reader.separated] at read
  split at read
  · next isFirst =>
    rw [if_pos isFirst]
    exact Reader.number_canonical read
  · next isLater =>
    rw [if_neg isLater]
    obtain ⟨⟨_, left⟩, isDot, readNumber⟩ := Option.bind_eq_some_iff.mp read
    obtain ⟨spelled, small⟩ := Reader.number_canonical readNumber
    cases text with
    | nil => cases isDot
    | cons head tail =>
      rw [Reader.given] at isDot
      split at isDot
      · next same =>
        obtain ⟨-, rfl⟩ := Prod.mk.inj (Option.some.inj isDot)
        exact ⟨congrArg₂ List.cons same spelled, small⟩
      · cases isDot

theorem ipv4_canonical {text rest : List Char} {addr : Ipv4Addr} (read : Reader.ipv4 text = some (addr, rest)) :
    text = (v4Text addr).toList ++ rest := by
  obtain ⟨⟨a, afterA⟩, readA, read⟩ := Option.bind_eq_some_iff.mp read
  obtain ⟨⟨b, afterB⟩, readB, read⟩ := Option.bind_eq_some_iff.mp read
  obtain ⟨⟨c, afterC⟩, readC, read⟩ := Option.bind_eq_some_iff.mp read
  obtain ⟨⟨d, afterD⟩, readD, same⟩ := Option.bind_eq_some_iff.mp read
  obtain ⟨rfl, rfl⟩ := Prod.mk.inj (Option.some.inj same)
  obtain ⟨isA, smallA⟩ := octet_canonical readA
  obtain ⟨isB, smallB⟩ := octet_canonical readB
  obtain ⟨isC, smallC⟩ := octet_canonical readC
  obtain ⟨isD, smallD⟩ := octet_canonical readD
  dsimp only at isA isB isC isD
  have octets (shift : Nat) : (BitVec.ofNat 32 (((a * 256 + b) * 256 + c) * 256 + d) >>> shift).toNat =
      (((a * 256 + b) * 256 + c) * 256 + d) / 2 ^ shift := by
    rw [BitVec.toNat_ushiftRight, BitVec.toNat_ofNat, Nat.shiftRight_eq_div_pow, Nat.mod_eq_of_lt (by omega)]
  have last : (BitVec.ofNat 32 (((a * 256 + b) * 256 + c) * 256 + d)).toNat = ((a * 256 + b) * 256 + c) * 256 + d := by
    rw [BitVec.toNat_ofNat, Nat.mod_eq_of_lt (by omega)]
  rw [toList_v4Text, octets, octets, octets, last, isA, isB, isC, isD]
  have first : (((a * 256 + b) * 256 + c) * 256 + d) / 2 ^ 24 % 256 = a := by omega
  have second : (((a * 256 + b) * 256 + c) * 256 + d) / 2 ^ 16 % 256 = b := by omega
  have third : (((a * 256 + b) * 256 + c) * 256 + d) / 2 ^ 8 % 256 = c := by omega
  have fourth : (((a * 256 + b) * 256 + c) * 256 + d) % 256 = d := by omega
  rw [first, second, third, fourth]
  simp

theorem parse_v4_canonical {text : List Char} {addr : Ipv4Addr} (parsed : IpAddr.parse text = some (.v4 addr)) :
    text = (v4Text addr).toList := by
  rcases Option.or_eq_some_iff.mp (Reader.whole_eq_some.mp parsed) with readV4 | ⟨-, readV6⟩
  · obtain ⟨⟨found, left⟩, read, same⟩ := Option.bind_eq_some_iff.mp readV4
    obtain ⟨isAddr, rfl⟩ := Prod.mk.inj (Option.some.inj same)
    obtain rfl := IpAddr.v4.inj isAddr
    exact (ipv4_canonical read).trans (List.append_nil _)
  · obtain ⟨⟨found, left⟩, -, same⟩ := Option.bind_eq_some_iff.mp readV6
    cases (Prod.mk.inj (Option.some.inj same)).1

theorem isAddressChar_of_parse {text : List Char} {ip : IpAddr} (parsed : IpAddr.parse text = some ip) :
    ∀ c ∈ text, IsAddressChar c := by
  have spelled : Reader.Spelled IsAddressChar Reader.ip :=
    .ip (fun _ digit => .inl (isDigit_sixteen digit)) (fun _ => .inl) (.inr (.inr rfl)) (.inr (.inl rfl))
  obtain ⟨taken, isText, areGood⟩ := spelled (Reader.whole_eq_some.mp parsed)
  rw [isText, List.append_nil]
  exact areGood

namespace UdpAddr

variable {a b : UdpAddr}

def bracketed (a : UdpAddr) : List Char :=
  '[' :: (a.ip.toList ++ if a.zone = "" then [] else '%' :: a.zone.toList) ++ [']']

def host (a : UdpAddr) : List Char :=
  match IpAddr.parse a.ip.toList with
  | some (.v6 _) => a.bracketed
  | _ => a.ip.toList

theorem toList_key (a : UdpAddr) : a.key.toList = a.host ++ ':' :: Nat.toDigits 10 a.port.toNat := by
  unfold key host
  cases IpAddr.parse a.ip.toList with
  | none => simp [toString, Nat.toList_repr]
  | some ip =>
    cases ip with
    | v4 addr => simp [toString, Nat.toList_repr]
    | v6 addr =>
      simp only [bracketed]
      split
      · simp [toString, Nat.toList_repr]
      · simp [toString, Nat.toList_repr]

theorem key_eq_iff : a.key = b.key ↔ a.host = b.host ∧ a.port = b.port := by
  have noColon : ∀ n, ':' ∉ Nat.toDigits 10 n := fun n member =>
    absurd (isDigit_of_mem_toDigits (by decide) (by decide) n ':' member) (by decide)
  rw [← String.toList_inj, toList_key, toList_key]
  constructor
  · intro same
    have parts := congrArg (rsplitOnce ':') same
    rw [rsplitOnce_append (noColon _), rsplitOnce_append (noColon _)] at parts
    obtain ⟨sameHost, samePort⟩ := Prod.mk.inj (Option.some.inj parts)
    refine ⟨sameHost, UInt16.toNat_inj.mp ?_⟩
    rw [← ofDigits_toDigits (by decide : 1 < 10) (by decide) a.port.toNat, samePort,
      ofDigits_toDigits (by decide) (by decide)]
  · rintro ⟨sameHost, samePort⟩
    rw [sameHost, samePort]

theorem bracketed_inj {ip other : IpAddr} (parsedA : IpAddr.parse a.ip.toList = some ip)
    (parsedB : IpAddr.parse b.ip.toList = some other) :
    a.bracketed = b.bracketed ↔ a.ip = b.ip ∧ a.zone = b.zone := by
  constructor
  · intro same
    have inner := List.append_cancel_right (List.cons.inj same).2
    have ended : ∀ zone : String, ∀ c ∈ (if zone = "" then [] else '%' :: zone.toList).head?, (c != '%') = false := by
      intro zone c isHead
      split at isHead
      · cases isHead
      · rw [← Option.some.inj isHead]
        rfl
    have unmarked : ∀ {text : List Char} {ip : IpAddr}, IpAddr.parse text = some ip →
        text.takeWhile (· != '%') = text := by
      intro text ip parsed
      apply List.takeWhile_eq_self_iff.mpr
      intro c member
      apply bne_iff_ne.mpr
      rintro rfl
      exact absurd (isAddressChar_of_parse parsed '%' member) (by rw [IsAddressChar]; decide)
    have sameIp := congrArg (List.takeWhile (· != '%')) inner
    rw [(Reader.takeWhile_of_stopped (ended _)).1, (Reader.takeWhile_of_stopped (ended _)).1, unmarked parsedA,
      unmarked parsedB] at sameIp
    rw [sameIp] at inner
    have sameZone := List.append_cancel_left inner
    refine ⟨String.toList_inj.mp sameIp, ?_⟩
    split at sameZone
    · next emptyA =>
      split at sameZone
      · next emptyB => rw [emptyA, emptyB]
      · cases sameZone
    · split at sameZone
      · cases sameZone
      · exact String.toList_inj.mp (List.cons.inj sameZone).2
  · rintro ⟨sameIp, sameZone⟩
    rw [bracketed, bracketed, sameIp, sameZone]

theorem host_v4 {addr : Ipv4Addr} (parsed : IpAddr.parse a.ip.toList = some (.v4 addr)) :
    a.host = (v4Text addr).toList := by
  unfold host
  rw [parsed]
  exact parse_v4_canonical parsed

theorem host_v6 {addr : BitVec 128} (parsed : IpAddr.parse a.ip.toList = some (.v6 addr)) : a.host = a.bracketed := by
  unfold host
  rw [parsed]

theorem host_none (unparsed : IpAddr.parse a.ip.toList = none) : a.host = a.ip.toList := by
  unfold host
  rw [unparsed]

theorem v4Text_ne_bracketed (addr : Ipv4Addr) (b : UdpAddr) : (v4Text addr).toList ≠ b.bracketed := by
  intro same
  have isBracket : '[' ∈ (v4Text addr).toList := same ▸ List.mem_cons_self
  exact absurd (isAddressChar_v4Text isBracket) (by rw [IsAddressChar]; decide)

structure Endpoint where
  ip : IpAddr
  port : UInt16
  zone : String
  deriving DecidableEq

def endpoint (a : UdpAddr) : Option Endpoint :=
  (IpAddr.parse a.ip.toList).map fun ip => ⟨ip, a.port, a.zone⟩

/-- Keys are equal where endpoints are, and what denotes none has a key of its own. -/
structure Told (a b : UdpAddr) : Prop where
  same : a.endpoint.isSome → b.endpoint.isSome → (a.key = b.key ↔ a.endpoint = b.endpoint)
  apart : a.endpoint.isSome ≠ b.endpoint.isSome → a.key ≠ b.key

/-- One zone for an IPv4 address, one spelling for an IPv6 address, and none in brackets for what is
no address. -/
def Plain (a b : UdpAddr) : Prop :=
  match IpAddr.parse a.ip.toList, IpAddr.parse b.ip.toList with
  | some (.v4 ip), some (.v4 other) => ip = other → a.port = b.port → a.zone = b.zone
  | some (.v6 ip), some (.v6 other) => ip = other → a.port = b.port → a.zone = b.zone → a.ip = b.ip
  | none, some (.v6 _) => a.port = b.port → a.ip.toList ≠ b.bracketed
  | some (.v6 _), none => a.port = b.port → b.ip.toList ≠ a.bracketed
  | _, _ => True

def Bare : SocketAddr → Prop
  | .v4 _ _ => True
  | .v6 _ _ flowinfo scopeId => flowinfo = 0 ∧ scopeId = 0

theorem Told.symm (told : Told a b) : Told b a where
  same isSomeB isSomeA := eq_comm.trans ((told.same isSomeA isSomeB).trans eq_comm)
  apart different := (told.apart different.symm).symm

theorem told_of_parsed {ip other : IpAddr} (parsedA : IpAddr.parse a.ip.toList = some ip)
    (parsedB : IpAddr.parse b.ip.toList = some other) :
    Told a b ↔ (a.key = b.key ↔ ip = other ∧ a.port = b.port ∧ a.zone = b.zone) := by
  have isA : a.endpoint = some ⟨ip, a.port, a.zone⟩ := congrArg (Option.map _) parsedA
  have isB : b.endpoint = some ⟨other, b.port, b.zone⟩ := congrArg (Option.map _) parsedB
  have equal : a.endpoint = b.endpoint ↔ ip = other ∧ a.port = b.port ∧ a.zone = b.zone := by
    rw [isA, isB, Option.some_inj, Endpoint.mk.injEq]
  constructor
  · intro told
    exact (told.same (by rw [isA]; rfl) (by rw [isB]; rfl)).trans equal
  · intro same
    refine ⟨fun _ _ => same.trans equal.symm, ?_⟩
    intro different
    rw [isA, isB] at different
    exact absurd rfl different

theorem told_of_unparsed {other : IpAddr} (unparsed : IpAddr.parse a.ip.toList = none)
    (parsed : IpAddr.parse b.ip.toList = some other) : Told a b ↔ a.key ≠ b.key := by
  have isA : a.endpoint = none := congrArg (Option.map _) unparsed
  have isB : b.endpoint = some ⟨other, b.port, b.zone⟩ := congrArg (Option.map _) parsed
  constructor
  · intro told
    apply told.apart
    rw [isA, isB]
    exact Bool.false_ne_true
  · intro different
    refine ⟨?_, fun _ => different⟩
    intro isSome
    rw [isA] at isSome
    cases isSome

theorem told_of_none (unparsed : IpAddr.parse a.ip.toList = none) (alsoUnparsed : IpAddr.parse b.ip.toList = none) :
    Told a b := by
  have isA : a.endpoint = none := congrArg (Option.map _) unparsed
  have isB : b.endpoint = none := congrArg (Option.map _) alsoUnparsed
  constructor
  · intro isSome
    rw [isA] at isSome
    cases isSome
  · intro different
    rw [isA, isB] at different
    exact absurd rfl different

/-- What is no address may only be spelled like the key of an IPv6 address. -/
theorem key_ne_iff_of_unparsed {other : IpAddr} (unparsed : IpAddr.parse a.ip.toList = none)
    (parsed : IpAddr.parse b.ip.toList = some other) :
    a.key ≠ b.key ↔ (∃ addr, other = .v6 addr) → a.port = b.port → a.ip.toList ≠ b.bracketed := by
  rw [Ne, key_eq_iff, host_none unparsed]
  cases other with
  | v4 addr =>
    apply iff_of_true
    · rintro ⟨sameText, -⟩
      rw [sameText, host_v4 parsed, ← parse_v4_canonical parsed] at unparsed
      cases unparsed.symm.trans parsed
    · rintro ⟨other, isV6⟩
      cases isV6
  | v6 addr =>
    rw [host_v6 parsed]
    constructor
    · intro different _ samePort sameText
      exact different ⟨sameText, samePort⟩
    · rintro plain ⟨sameText, samePort⟩
      exact plain ⟨addr, rfl⟩ samePort sameText

theorem told_iff_plain_of_unparsed {other : IpAddr} (unparsed : IpAddr.parse a.ip.toList = none)
    (parsed : IpAddr.parse b.ip.toList = some other) : (Told a b ↔ Plain a b) ∧ (Told b a ↔ Plain b a) := by
  have turned : Told b a ↔ Told a b := ⟨Told.symm, Told.symm⟩
  rw [turned, told_of_unparsed unparsed parsed, key_ne_iff_of_unparsed unparsed parsed]
  unfold Plain
  rw [unparsed, parsed]
  cases other with
  | v4 addr => simp
  | v6 addr => simp [eq_comm]

theorem toList_v4Text_inj {addr other : Ipv4Addr} : (v4Text addr).toList = (v4Text other).toList ↔ addr = other := by
  constructor
  · intro same
    have read := parse_ipText (.v4 addr)
    rw [ipText, same] at read
    exact IpAddr.v4.inj (Option.some.inj (read.symm.trans (parse_ipText (.v4 other))))
  · rintro rfl
    rfl

/-- Two IPv6 addresses are told apart where one address has one spelling. -/
theorem told_iff_of_v6 {addr other : BitVec 128} (parsedA : IpAddr.parse a.ip.toList = some (.v6 addr))
    (parsedB : IpAddr.parse b.ip.toList = some (.v6 other)) :
    Told a b ↔ (addr = other → a.port = b.port → a.zone = b.zone → a.ip = b.ip) := by
  have sameAddr : a.ip = b.ip → addr = other := by
    intro same
    rw [same, parsedB] at parsedA
    exact (IpAddr.v6.inj (Option.some.inj parsedA)).symm
  rw [told_of_parsed parsedA parsedB, key_eq_iff, host_v6 parsedA, host_v6 parsedB, bracketed_inj parsedA parsedB]
  constructor
  · intro told same samePort sameZone
    exact (told.mpr ⟨congrArg IpAddr.v6 same, samePort, sameZone⟩).1.1
  · intro plain
    constructor
    · rintro ⟨⟨sameIp, sameZone⟩, samePort⟩
      exact ⟨congrArg IpAddr.v6 (sameAddr sameIp), samePort, sameZone⟩
    · rintro ⟨same, samePort, sameZone⟩
      exact ⟨⟨plain (IpAddr.v6.inj same) samePort sameZone, sameZone⟩, samePort⟩

theorem told_iff_plain_of_parsed {ip other : IpAddr} (parsedA : IpAddr.parse a.ip.toList = some ip)
    (parsedB : IpAddr.parse b.ip.toList = some other) : Told a b ↔ Plain a b := by
  unfold Plain
  rw [parsedA, parsedB]
  cases ip with
  | v4 addr =>
    rw [told_of_parsed parsedA parsedB, key_eq_iff, host_v4 parsedA]
    cases other with
    | v4 other => simp [host_v4 parsedB, toList_v4Text_inj]
    | v6 other => simp [host_v6 parsedB, v4Text_ne_bracketed]
  | v6 addr =>
    cases other with
    | v4 other =>
      rw [told_of_parsed parsedA parsedB, key_eq_iff, host_v6 parsedA, host_v4 parsedB]
      simp [(v4Text_ne_bracketed other a).symm]
    | v6 other => exact told_iff_of_v6 parsedA parsedB

theorem told_iff_plain (a b : UdpAddr) : Told a b ↔ Plain a b := by
  cases parsedA : IpAddr.parse a.ip.toList with
  | none =>
    cases parsedB : IpAddr.parse b.ip.toList with
    | none =>
      unfold Plain
      rw [parsedA, parsedB]
      exact iff_of_true (told_of_none parsedA parsedB) trivial
    | some other => exact (told_iff_plain_of_unparsed parsedA parsedB).1
  | some ip =>
    cases parsedB : IpAddr.parse b.ip.toList with
    | none => exact (told_iff_plain_of_unparsed parsedB parsedA).2
    | some other => exact told_iff_plain_of_parsed parsedA parsedB

theorem toSocket_fromSocket_iff (s : SocketAddr) : (fromSocket s).toSocket = some s ↔ Bare s := by
  rw [toSocket_fromSocket, Option.some_inj]
  cases s with
  | v4 addr port => exact iff_of_true rfl trivial
  | v6 addr port flowinfo scopeId =>
    change SocketAddr.v6 addr port 0 0 = .v6 addr port flowinfo scopeId ↔ _
    rw [SocketAddr.v6.injEq, Bare]
    constructor
    · rintro ⟨-, -, rfl, rfl⟩
      exact ⟨rfl, rfl⟩
    · rintro ⟨rfl, rfl⟩
      exact ⟨rfl, rfl, rfl, rfl⟩

/-- Two addresses are told apart by their keys, and the address of a socket comes back, exactly where
the addresses are plain and the socket's has no scope. -/
theorem identifies_iff (a b : UdpAddr) (s : SocketAddr) :
    Told a b ∧ (fromSocket s).toSocket = some s ↔ Plain a b ∧ Bare s :=
  and_congr (told_iff_plain a b) (toSocket_fromSocket_iff s)

/-- A visitor at the IPv6 loopback address, as it is spelled here. -/
def loopback (ip : String) : UdpAddr where
  ip := ip

/-- One address in two spellings is two visitors. -/
theorem not_told_spelled :
    ¬∀ (a b : UdpAddr) (s : SocketAddr), Told a b ∧ (fromSocket s).toSocket = some s := by
  intro told
  have short : IpAddr.parse (loopback "::1").ip.toList = some (.v6 1) := by decide
  have long : IpAddr.parse (loopback "0::1").ip.toList = some (.v6 1) := by decide
  have plain := (told_iff_plain _ _).mp (told (loopback "::1") (loopback "0::1") (.v4 0 0)).1
  rw [Plain, short, long] at plain
  exact absurd (plain rfl rfl rfl) (by decide)

end UdpAddr

end Nfrp.Udp
