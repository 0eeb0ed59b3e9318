import Mathlib.Algebra.Group.Nat.Defs
import Nfrp.Lib.Reader

/-!
IP addresses and the text they are read from.

The readers follow the address parser of the Rust standard library: greedy
numbers, no octal numbers in an IPv4 address, an IPv4 address at the end of an
IPv6 address, at least one group for `::`.
-/

namespace Nfrp.Lib

abbrev Ipv4Addr := BitVec 32

instance : LawfulBEq Ipv4Addr := inferInstance

inductive IpAddr where
  | v4 (addr : Ipv4Addr)
  | v6 (addr : BitVec 128)
  deriving DecidableEq, Repr

structure SocketAddr where
  ip : IpAddr
  port : Nat
  deriving DecidableEq, Repr

def IpAddr.isLoopback : IpAddr → Bool
  | .v4 addr => addr >>> 24 == 127
  | .v6 addr => addr == 1

def digitValue (radix : Nat) (c : Char) : Option Nat :=
  let value :=
    if '0' ≤ c ∧ c ≤ '9' then some (c.toNat - '0'.toNat)
    else if 'a' ≤ c ∧ c ≤ 'z' then some (c.toNat - 'a'.toNat + 10)
    else if 'A' ≤ c ∧ c ≤ 'Z' then some (c.toNat - 'A'.toNat + 10)
    else none
  value.filter (· < radix)

def isDigit (radix : Nat) (c : Char) : Bool :=
  (digitValue radix c).isSome

def ofDigits (radix : Nat) (digits : List Char) : Nat :=
  digits.foldl (fun value c => value * radix + (digitValue radix c).getD 0) 0

/-- The digits of a number, and whether they make one of the kind wanted. -/
def numberOf (radix : Nat) (maxDigits : Option Nat) (allowZeroPrefix : Bool) (limit : Nat)
    (digits : List Char) : Option Nat :=
  if maxDigits.any (· < digits.length) then none
  else if digits = [] then none
  else if !allowZeroPrefix && digits.head? == some '0' && 1 < digits.length then none
  else if limit < ofDigits radix digits then none
  else some (ofDigits radix digits)

namespace Reader

variable {α : Type} {stop : Char → Prop}

def number (radix : Nat) (maxDigits : Option Nat) (allowZeroPrefix : Bool) (limit : Nat) : Reader Nat :=
  fun text =>
    (numberOf radix maxDigits allowZeroPrefix limit (text.takeWhile (isDigit radix))).map fun value =>
      (value, text.dropWhile (isDigit radix))

/-- All but the first of several things are preceded by a separator. -/
def separated (c : Char) (index : Nat) (reader : Reader α) : Reader α :=
  if index = 0 then reader else (given c).bind fun _ => reader

def ipv4Octet (index : Nat) : Reader Nat :=
  separated '.' index (number 10 (some 3) false 255)

def ipv4 : Reader Ipv4Addr :=
  (ipv4Octet 0).bind fun a => (ipv4Octet 1).bind fun b => (ipv4Octet 2).bind fun c =>
    (ipv4Octet 3).map fun d => BitVec.ofNat 32 (((a * 256 + b) * 256 + c) * 256 + d)

def ipv4Groups (index : Nat) : Reader (List Nat × Bool) :=
  (separated ':' index ipv4).map fun addr => ([addr.toNat / 65536, addr.toNat % 65536], true)

/-- Up to so many groups, and whether the last two were an IPv4 address. -/
def groups : (remaining index : Nat) → Reader (List Nat × Bool)
  | 0, _ => pure ([], false)
  | remaining + 1, index =>
    let group := (separated ':' index (number 16 (some 4) true 65535)).bind fun value =>
      (groups remaining (index + 1)).map fun found => (value :: found.1, found.2)
    if remaining = 0 then group.or (pure ([], false))
    else (ipv4Groups index).or (group.or (pure ([], false)))

def ofGroups (found : List Nat) : BitVec 128 :=
  BitVec.ofNat 128 (found.foldl (fun value group => value * 65536 + group) 0)

/-- The groups after `::`, at most one less than are missing. -/
def ipv6Tail (head : List Nat) : Reader (BitVec 128) :=
  (given ':').bind fun _ => (given ':').bind fun _ => (groups (7 - head.length) 0).map fun tail =>
    ofGroups (head ++ List.replicate (8 - head.length - tail.1.length) 0 ++ tail.1)

def ipv6 : Reader (BitVec 128) :=
  (groups 8 0).bind fun head =>
    if head.1.length = 8 then pure (ofGroups head.1)
    else if head.2 then fun _ => none
    else ipv6Tail head.1

def ip : Reader IpAddr :=
  (ipv4.map .v4).or (ipv6.map .v6)

def port : Reader Nat :=
  (given ':').bind fun _ => number 10 none true 65535

/-- The scope of an IPv6 address, zero if it has none. -/
def scopeId : Reader Nat :=
  ((given '%').bind fun _ => number 10 none true 4294967295).or (pure 0)

def socketAddrV4 : Reader SocketAddr :=
  ipv4.bind fun addr => port.map fun n => ⟨.v4 addr, n⟩

/-- The scope has no meaning here. -/
def socketAddrV6 : Reader SocketAddr :=
  (given '[').bind fun _ => ipv6.bind fun addr => scopeId.bind fun _ => (given ']').bind fun _ =>
    port.map fun n => ⟨.v6 addr, n⟩

def socketAddr : Reader SocketAddr :=
  socketAddrV4.or socketAddrV6

theorem takeWhile_of_stopped {p : Char → Bool} {text rest : List Char} (stopped : ∀ c ∈ rest.head?, p c = false) :
    (text ++ rest).takeWhile p = text.takeWhile p ∧ (text ++ rest).dropWhile p = text.dropWhile p ++ rest := by
  induction text with
  | nil =>
    cases rest with
    | nil => exact ⟨rfl, rfl⟩
    | cons head tail =>
      have fails := stopped head rfl
      simp [fails]
  | cons head tail ih =>
    by_cases passes : p head
    · simp [passes, ih.1, ih.2]
    · simp [passes]

theorem StopsAt.number {radix : Nat} (stops : ∀ c, stop c → isDigit radix c = false) (maxDigits : Option Nat)
    (allowZeroPrefix : Bool) (limit : Nat) :
    StopsAt stop (number radix maxDigits allowZeroPrefix limit) := by
  intro text rest stopped
  have notDigit : ∀ c ∈ rest.head?, isDigit radix c = false := fun c member => stops c (stopped c member)
  obtain ⟨taken, left⟩ := @takeWhile_of_stopped _ text _ notDigit
  simp only [Reader.number]
  rw [taken, left, Option.map_map]
  rfl

theorem Consumes.number (radix : Nat) (maxDigits : Option Nat) (allowZeroPrefix : Bool) (limit : Nat) :
    Consumes (number radix maxDigits allowZeroPrefix limit) := by
  intro text value rest read
  obtain ⟨found, -, same⟩ := Option.map_eq_some_iff.mp read
  obtain ⟨-, rfl⟩ := Prod.mk.inj same
  exact List.dropWhile_suffix _

theorem StopsAt.separated {c : Char} (goesOn : ¬ stop c) (index : Nat) {reader : Reader α}
    (stops : StopsAt stop reader) : StopsAt stop (separated c index reader) := by
  unfold Reader.separated
  split
  · exact stops
  · exact (StopsAt.given goesOn).bind fun _ => stops

theorem Consumes.separated (c : Char) (index : Nat) {reader : Reader α} (consumes : Consumes reader) :
    Consumes (separated c index reader) := by
  unfold Reader.separated
  split
  · exact consumes
  · exact (Consumes.given c).bind fun _ => consumes

section Ipv4

variable (decimal : ∀ c, stop c → isDigit 10 c = false) (dot : ¬ stop '.')

include decimal dot

theorem StopsAt.ipv4Octet (index : Nat) : StopsAt stop (ipv4Octet index) :=
  .separated dot index (.number decimal _ _ _)

theorem StopsAt.ipv4 : StopsAt stop ipv4 := by
  have octet := StopsAt.ipv4Octet decimal dot
  exact (octet 0).bind fun _ => (octet 1).bind fun _ => (octet 2).bind fun _ => (octet 3).map

end Ipv4

theorem Consumes.ipv4 : Consumes ipv4 := by
  have octet : ∀ index, Consumes (ipv4Octet index) := fun index => .separated '.' index (.number _ _ _ _)
  exact (octet 0).bind fun _ => (octet 1).bind fun _ => (octet 2).bind fun _ => (octet 3).map

section Ipv6

variable (decimal : ∀ c, stop c → isDigit 10 c = false) (hexadecimal : ∀ c, stop c → isDigit 16 c = false)
  (dot : ¬ stop '.') (colon : ¬ stop ':')

include decimal hexadecimal dot colon

theorem StopsAt.groups (remaining index : Nat) : StopsAt stop (groups remaining index) := by
  induction remaining generalizing index with
  | zero => exact .pure _
  | succ remaining ih =>
    have group : StopsAt stop ((Reader.separated ':' index (Reader.number 16 (some 4) true 65535)).bind
        fun value => (Reader.groups remaining (index + 1)).map fun found => (value :: found.1, found.2)) :=
      (StopsAt.separated colon index (.number hexadecimal _ _ _)).bind fun _ =>
        (ih (index + 1)).map
    rw [Reader.groups]
    split
    · exact group.or (.pure _)
    · exact (StopsAt.separated colon index (.ipv4 decimal dot)).map.or (group.or (.pure _))

theorem StopsAt.ipv6 : StopsAt stop ipv6 := by
  refine (StopsAt.groups decimal hexadecimal dot colon 8 0).bind fun head => ?_
  split
  · exact .pure _
  split
  · exact fun _ _ _ => rfl
  · exact (StopsAt.given colon).bind fun _ => (StopsAt.given colon).bind fun _ =>
      (StopsAt.groups decimal hexadecimal dot colon _ 0).map

end Ipv6

/-- A dotted address is read by the first of the two readers. -/
theorem ipv6_of_ipv4 {text rest : List Char} {addr : Ipv4Addr} (read : ipv4 text = some (addr, rest)) :
    ipv6 text = none := by
  have first : groups 8 0 text = some (([addr.toNat / 65536, addr.toNat % 65536], true), rest) := by
    rw [groups, if_neg (by decide), Reader.or, ipv4Groups, Reader.map, Reader.bind, separated, if_pos rfl, read]
    rfl
  rw [ipv6, Reader.bind, first]
  rfl

theorem isDigit_of_isWhitespace {c : Char} (blank : isWhitespace c) (radix : Nat) : isDigit radix c = false := by
  have le_iff (a b : Char) : a ≤ b ↔ a.toNat ≤ b.toNat := Iff.rfl
  simp only [isWhitespace, Bool.or_eq_true, Bool.and_eq_true, decide_eq_true_eq, beq_iff_eq] at blank
  have notNumber : ¬ ('0' ≤ c ∧ c ≤ '9') := by
    simp only [le_iff, Char.reduceToNat]
    omega
  have notLower : ¬ ('a' ≤ c ∧ c ≤ 'z') := by
    simp only [le_iff, Char.reduceToNat]
    omega
  have notUpper : ¬ ('A' ≤ c ∧ c ≤ 'Z') := by
    simp only [le_iff, Char.reduceToNat]
    omega
  rw [isDigit, digitValue]
  simp only [notNumber, notLower, notUpper, if_false]
  rfl

theorem StopsAt.port {stop : Char → Prop} (decimal : ∀ c, stop c → isDigit 10 c = false) (colon : ¬ stop ':') :
    StopsAt stop port :=
  (StopsAt.given colon).bind fun _ => .number decimal _ _ _

theorem stopsAt_socketAddr : StopsAt (isWhitespace ·) socketAddr := by
  have decimal : ∀ c : Char, isWhitespace c → isDigit 10 c = false := fun c blank => isDigit_of_isWhitespace blank 10
  have hexadecimal : ∀ c : Char, isWhitespace c → isDigit 16 c = false :=
    fun c blank => isDigit_of_isWhitespace blank 16
  have thePort := StopsAt.port decimal (by decide)
  refine .or ((StopsAt.ipv4 decimal (by decide)).bind fun _ => thePort.map) ?_
  have scope : StopsAt (fun c : Char => isWhitespace c) scopeId :=
    .or ((StopsAt.given (by decide)).bind fun _ => .number decimal _ _ _) (.pure 0)
  exact (StopsAt.given (by decide)).bind fun _ =>
    (StopsAt.ipv6 decimal hexadecimal (by decide) (by decide)).bind fun _ => scope.bind fun _ =>
      (StopsAt.given (by decide)).bind fun _ => thePort.map

end Reader

def Ipv4Addr.parse (text : List Char) : Option Ipv4Addr :=
  Reader.ipv4.whole text

def IpAddr.parse (text : List Char) : Option IpAddr :=
  Reader.ip.whole text

def SocketAddr.parse (text : List Char) : Option SocketAddr :=
  Reader.socketAddr.whole text

/-- An unsigned number, which may have a plus sign. -/
def parseUnsigned (limit : Nat) (text : List Char) : Option Nat :=
  (Reader.number 10 none true limit).whole (if text.head? = some '+' then text.tail else text)

end Nfrp.Lib
