import Nfrp.Lib.Ip

/-!
# Where a proxy connects to

A proxy that came from the server may only connect to this host.  The validator
cuts the host out of the address and wants a literal loopback address; the
connector resolves the address as it stands.
-/

namespace Nfrp.Client

open Lib

def isPortText (port : List Char) : Bool :=
  port ≠ [] && port.all (isDigit 10)

/-- The host of `host:port`; what is not of that form is a host as a whole. -/
def localAddrHost (addr : List Char) : List Char :=
  let a := trimmed addr
  if a.head? = some '[' then
    match splitOnce ']' a.tail with
    | none => a
    | some (host, after) => if after = [] ∨ after.head? = some ':' ∧ isPortText after.tail then host else a
  else if a.count ':' ≠ 1 then a
  else
    match rsplitOnce ':' a with
    | some (h, port) => if isPortText port then h else a
    | none => a

/-- A literal loopback address; a name is none, whatever it resolves to. -/
def isLoopbackHost (host : List Char) : Bool :=
  (IpAddr.parse (trimmed host)).any IpAddr.isLoopback

/-- The first address that is found.  `lookup` is the resolver of the system; it
is asked only for what is no socket address. -/
def resolveAddr (lookup : String → Nat → List SocketAddr) (addr : List Char) : Option SocketAddr :=
  match SocketAddr.parse addr with
  | some found => some found
  | none =>
    match rsplitOnce ':' addr with
    | none => none
    | some (host, port) => (parseUnsigned 65535 port).bind fun port => (lookup (String.ofList host) port).head?

/-- The resolver is not asked: the address is a socket address, or has no port
that could be one. -/
def NotLookedUp (addr : List Char) : Prop :=
  (SocketAddr.parse addr).isSome ∨ ∀ parts ∈ rsplitOnce ':' addr, parseUnsigned 65535 parts.2 = none

/-- Whatever the resolver answers, the connection goes to a loopback address. -/
def StaysLocal (addr : List Char) : Prop :=
  ∀ lookup, ∀ found ∈ resolveAddr lookup addr, found.ip.isLoopback

theorem ip_of_ipv4 {text rest : List Char} {addr : Ipv4Addr} (read : Reader.ipv4 text = some (addr, rest)) :
    IpAddr.parse text = if rest = [] then some (.v4 addr) else none := by
  have first : Reader.ip text = some (.v4 addr, rest) := by
    rw [Reader.ip, Reader.or, Reader.map, Reader.bind, read]
    rfl
  rw [IpAddr.parse, Reader.whole, first]
  rfl

theorem port_eq_some {text : List Char} {n : Nat} (read : Reader.port text = some (n, [])) :
    ∃ digits, text = ':' :: digits ∧ ∀ c ∈ digits, isDigit 10 c := by
  cases text with
  | nil => cases read
  | cons head digits =>
    simp only [Reader.port, Reader.bind, Reader.given] at read
    split at read
    next isColon =>
      refine ⟨digits, by rw [isColon], ?_⟩
      rw [Option.bind_some, Reader.number, Option.map_eq_some_iff] at read
      obtain ⟨_, _, same⟩ := read
      have nothing := (Prod.mk.inj same).2
      exact List.dropWhile_eq_nil_iff.mp nothing
    · cases read

theorem stopsAt_ipv4 {c : Char} (notDigit : isDigit 10 c = false) (notDot : '.' ≠ c) :
    Reader.StopsAt (· = c) Reader.ipv4 :=
  .ipv4 (fun _ same => same ▸ notDigit) notDot

theorem stopsAt_ipv6 {c : Char} (notDigit : isDigit 10 c = false) (notHex : isDigit 16 c = false)
    (notDot : '.' ≠ c) (notColon : ':' ≠ c) : Reader.StopsAt (· = c) Reader.ipv6 :=
  .ipv6 (fun _ same => same ▸ notDigit) (fun _ same => same ▸ notHex) notDot notColon

theorem isLoopbackHost_of_ipv4 {text rest : List Char} {addr : Ipv4Addr}
    (read : Reader.ipv4 text = some (addr, rest)) (isTrimmed : trimmed text = text) :
    isLoopbackHost text = (rest = [] && (IpAddr.v4 addr).isLoopback) := by
  rw [isLoopbackHost, isTrimmed, ip_of_ipv4 read]
  by_cases whole : rest = []
  · simp [whole]
  · simp [whole]

/-- An IPv4 socket address that is accepted is a loopback address. -/
theorem isLoopback_of_socketAddrV4 {text : List Char} {found : SocketAddr}
    (read : Reader.socketAddrV4 text = some (found, [])) (isTrimmed : trimmed text = text)
    (accepted : isLoopbackHost (localAddrHost text)) : found.ip.isLoopback := by
  obtain ⟨⟨addr, rest⟩, readAddr, readPort⟩ := Option.bind_eq_some_iff.mp read
  obtain ⟨⟨n, left⟩, readNumber, same⟩ := Option.bind_eq_some_iff.mp readPort
  obtain ⟨rfl, rfl⟩ := Prod.mk.inj (Option.some.inj same)
  obtain ⟨digits, rfl, areDigits⟩ := port_eq_some readNumber
  obtain ⟨host, rfl⟩ := Reader.Consumes.ipv4 readAddr
  have notWhole : ¬ isLoopbackHost (host ++ ':' :: digits) := by
    rw [isLoopbackHost_of_ipv4 readAddr isTrimmed]
    simp
  have noBracket : (host ++ ':' :: digits).head? ≠ some '[' := by
    intro bracket
    have isHead : ∀ c ∈ (host ++ ':' :: digits).head?, c = '[' := fun c isHead =>
      Option.some.inj (isHead.symm.trans bracket)
    rw [(stopsAt_ipv4 (c := '[') (by decide) (by decide)).eq_none rfl isHead] at readAddr
    cases readAddr
  have noColon : ':' ∉ digits := by
    intro member
    have isDigitToo := areDigits ':' member
    exact absurd isDigitToo (by decide)
  rw [localAddrHost, isTrimmed] at accepted
  simp only [noBracket, if_false, rsplitOnce_append noColon] at accepted
  split at accepted
  · exact absurd accepted notWhole
  split at accepted
  · have atColon : ∀ c ∈ (':' :: digits).head?, c = ':' := fun c isHead => (Option.some.inj isHead).symm
    obtain ⟨left, readHost, nothing⟩ :=
      (stopsAt_ipv4 (c := ':') (by decide) (by decide)).exists_of_append atColon readAddr
    obtain rfl := List.self_eq_append_left.mp nothing
    have hostTrimmed : trimmed host = host :=
      Reader.trimmed_of_whole (.ipv4 (fun c blank => Reader.isDigit_of_isWhitespace blank 10) (by decide)) rfl
        (Reader.whole_eq_some.mpr readHost)
    rw [isLoopbackHost_of_ipv4 readHost hostTrimmed] at accepted
    simpa using accepted
  · exact absurd accepted notWhole

theorem stopsAt_blank_ipv6 : Reader.StopsAt (isWhitespace ·) Reader.ipv6 :=
  .ipv6 (fun _ blank => Reader.isDigit_of_isWhitespace blank 10)
    (fun _ blank => Reader.isDigit_of_isWhitespace blank 16) (by decide) (by decide)

/-- What is left of a text that begins with an IPv6 address still begins with it
when the white space around it goes. -/
theorem ipv6_trimmed {text left : List Char} {addr : BitVec 128} (read : Reader.ipv6 text = some (addr, left)) :
    ∃ rest, Reader.ipv6 (trimmed text) = some (addr, rest) := by
  obtain ⟨before, after, parts, blankBefore, blankAfter⟩ := exists_trimmed text
  cases before with
  | nil =>
    rw [parts, List.nil_append] at read
    obtain ⟨rest, readTrimmed, -⟩ := stopsAt_blank_ipv6.exists_of_append
      (fun c isHead => blankAfter c (List.mem_of_mem_head? isHead)) read
    exact ⟨rest, readTrimmed⟩
  | cons c _ =>
    have blank : ∀ head ∈ text.head?, isWhitespace head := by
      intro head isHead
      rw [parts, List.cons_append, List.cons_append, List.head?_cons] at isHead
      rw [← Option.some.inj isHead]
      exact blankBefore c List.mem_cons_self
    rw [stopsAt_blank_ipv6.eq_none rfl blank] at read
    cases read

/-- A text that begins with an IPv6 address is a host only if that is loopback. -/
theorem isLoopback_of_ipv6 {text left : List Char} {addr : BitVec 128}
    (read : Reader.ipv6 text = some (addr, left)) (accepted : isLoopbackHost text) :
    (IpAddr.v6 addr).isLoopback := by
  obtain ⟨rest, readTrimmed⟩ := ipv6_trimmed read
  rw [isLoopbackHost, Option.any_eq_true] at accepted
  obtain ⟨ip, isIp, loopback⟩ := accepted
  rw [IpAddr.parse, Reader.whole_eq_some, Reader.ip, Reader.or, Option.or_eq_some_iff] at isIp
  rcases isIp with dotted | ⟨-, grouped⟩
  · obtain ⟨⟨_, _⟩, readDotted, -⟩ := Option.bind_eq_some_iff.mp dotted
    rw [Reader.ipv6_of_ipv4 readDotted] at readTrimmed
    cases readTrimmed
  · obtain ⟨⟨_, _⟩, readGrouped, same⟩ := Option.bind_eq_some_iff.mp grouped
    rw [readTrimmed] at readGrouped
    obtain ⟨rfl, -⟩ := Prod.mk.inj (Option.some.inj readGrouped)
    rw [← (Prod.mk.inj (Option.some.inj same)).1] at loopback
    exact loopback

theorem not_isLoopbackHost_bracket {text : List Char} (isTrimmed : trimmed text = text)
    (bracket : text.head? = some '[') : ¬ isLoopbackHost text := by
  have stopped : ∀ c ∈ text.head?, c = '[' := fun c isHead => Option.some.inj (isHead.symm.trans bracket)
  have dotted := (stopsAt_ipv4 (c := '[') (by decide) (by decide)).eq_none rfl stopped
  have grouped := (stopsAt_ipv6 (c := '[') (by decide) (by decide) (by decide) (by decide)).eq_none rfl stopped
  rw [isLoopbackHost, isTrimmed, IpAddr.parse, Reader.whole, Reader.ip, Reader.or, Reader.map, Reader.map,
    Reader.bind, Reader.bind, dotted, grouped]
  exact Bool.false_ne_true

/-- An IPv6 socket address that is accepted is a loopback address. -/
theorem isLoopback_of_socketAddrV6 {text : List Char} {found : SocketAddr}
    (read : Reader.socketAddrV6 text = some (found, [])) (isTrimmed : trimmed text = text)
    (accepted : isLoopbackHost (localAddrHost text)) : found.ip.isLoopback := by
  cases text with
  | nil => cases read
  | cons head tail =>
    rw [Reader.socketAddrV6] at read
    obtain ⟨⟨_, rest⟩, bracket, read⟩ := Option.bind_eq_some_iff.mp read
    rw [Reader.given] at bracket
    split at bracket
    swap
    · cases bracket
    next isBracket =>
      subst isBracket
      obtain ⟨-, rfl⟩ := Prod.mk.inj (Option.some.inj bracket)
      obtain ⟨⟨addr, afterAddr⟩, readAddr, read⟩ := Option.bind_eq_some_iff.mp read
      have isAddr : found.ip = .v6 addr := by
        obtain ⟨_, _, read⟩ := Option.bind_eq_some_iff.mp read
        obtain ⟨_, _, read⟩ := Option.bind_eq_some_iff.mp read
        obtain ⟨_, _, same⟩ := Option.bind_eq_some_iff.mp read
        rw [← (Prod.mk.inj (Option.some.inj same)).1]
      have notWhole := not_isLoopbackHost_bracket isTrimmed rfl
      rw [isAddr]
      rw [localAddrHost, isTrimmed] at accepted
      simp only [List.head?_cons, if_true, List.tail_cons] at accepted
      split at accepted
      · exact absurd accepted notWhole
      next host after parts =>
        split at accepted
        swap
        · exact absurd accepted notWhole
        obtain ⟨rfl, -⟩ := splitOnce_eq_some parts
        have atBracket : ∀ c ∈ (']' :: after).head?, c = ']' := fun c isHead => (Option.some.inj isHead).symm
        obtain ⟨left, readHost, -⟩ := (stopsAt_ipv6 (c := ']') (by decide) (by decide) (by decide)
          (by decide)).exists_of_append atBracket readAddr
        exact isLoopback_of_ipv6 readHost accepted

theorem isLoopback_of_socketAddr {text : List Char} {found : SocketAddr}
    (parsed : SocketAddr.parse text = some found) (accepted : isLoopbackHost (localAddrHost text)) :
    found.ip.isLoopback := by
  have isTrimmed := Reader.trimmed_of_whole Reader.stopsAt_socketAddr rfl parsed
  rw [SocketAddr.parse, Reader.whole_eq_some, Reader.socketAddr, Reader.or, Option.or_eq_some_iff] at parsed
  rcases parsed with readV4 | ⟨-, readV6⟩
  · exact isLoopback_of_socketAddrV4 readV4 isTrimmed accepted
  · exact isLoopback_of_socketAddrV6 readV6 isTrimmed accepted

/-- An accepted address stays local exactly if the resolver is not asked. -/
theorem staysLocal_iff {text : List Char} (accepted : isLoopbackHost (localAddrHost text)) :
    StaysLocal text ↔ NotLookedUp text := by
  cases parsed : SocketAddr.parse text with
  | some found =>
    refine iff_of_true ?_ (.inl (by rw [parsed]; rfl))
    intro lookup other isFound
    rw [resolveAddr, parsed] at isFound
    rw [← Option.some.inj isFound]
    exact isLoopback_of_socketAddr parsed accepted
  | none =>
    simp only [StaysLocal, NotLookedUp, resolveAddr, parsed, Option.isSome_none, Bool.false_eq_true, false_or]
    cases parts : rsplitOnce ':' text with
    | none => simp
    | some split =>
      cases isPort : parseUnsigned 65535 split.2 with
      | none => simp [isPort]
      | some port =>
        refine iff_of_false ?_ ?_
        · intro stays
          have outside : ¬ (IpAddr.v4 0x08080808#32).isLoopback := by decide
          exact outside (stays (fun _ port => [⟨.v4 0x08080808#32, port⟩]) ⟨.v4 0x08080808#32, port⟩
            (by simp [isPort]))
        · intro notLookedUp
          cases isPort.symm.trans (notLookedUp split rfl)

end Nfrp.Client
