import Nfrp.Server.AddressText

/-!
# The addresses of sockets

An IPv6 address comes with a flow label and a scope.  Its text tells the scope where
there is one, and never the flow label.
-/

namespace Nfrp.P2p

open Lib Nfrp.NatHole

inductive SocketAddr where
  | v4 (addr : Ipv4Addr) (port : UInt16)
  | v6 (addr : BitVec 128) (port : UInt16) (flowinfo scopeId : UInt32)
  deriving DecidableEq, Repr

namespace SocketAddr

def new (ip : IpAddr) (port : UInt16) : SocketAddr :=
  match ip with
  | .v4 addr => v4 addr port
  | .v6 addr => v6 addr port 0 0

def ip : SocketAddr → IpAddr
  | v4 addr _ => .v4 addr
  | v6 addr _ _ _ => .v6 addr

def port : SocketAddr → UInt16
  | v4 _ port => port
  | v6 _ port _ _ => port

def setPort (a : SocketAddr) (port : UInt16) : SocketAddr :=
  match a with
  | v4 addr _ => v4 addr port
  | v6 addr _ flowinfo scopeId => v6 addr port flowinfo scopeId

@[simp]
theorem ip_new (ip : IpAddr) (port : UInt16) : (new ip port).ip = ip := by
  cases ip <;> rfl

@[simp]
theorem ip_setPort (a : SocketAddr) (port : UInt16) : (a.setPort port).ip = a.ip := by
  cases a <;> rfl

def text : SocketAddr → String
  | v4 addr port => ipText (.v4 addr) ++ ":" ++ toString port.toNat
  | v6 addr port _ scopeId =>
    if scopeId = 0 then "[" ++ ipText (.v6 addr) ++ "]:" ++ toString port.toNat
    else "[" ++ ipText (.v6 addr) ++ "%" ++ toString scopeId.toNat ++ "]:" ++ toString port.toNat

def readV4 : Reader SocketAddr :=
  Reader.ipv4.bind fun addr => Reader.port.map fun port => v4 addr (UInt16.ofNat port)

def readV6 : Reader SocketAddr :=
  (Reader.given '[').bind fun _ => Reader.ipv6.bind fun addr => Reader.scopeId.bind fun scopeId =>
    (Reader.given ']').bind fun _ => Reader.port.map fun port =>
      v6 addr (UInt16.ofNat port) 0 (UInt32.ofNat scopeId)

def parse (text : List Char) : Option SocketAddr :=
  (readV4.or readV6).whole text

/-- The address with what its text does not tell left out. -/
def withoutFlow : SocketAddr → SocketAddr
  | v4 addr port => v4 addr port
  | v6 addr port _ scopeId => v6 addr port 0 scopeId

def IsPlain (a : SocketAddr) : Prop := a.withoutFlow = a

instance (a : SocketAddr) : Decidable a.IsPlain := inferInstanceAs (Decidable (_ = _))

/-- The scope in the text of an address, and the bracket behind it. -/
def scopeText (scopeId : UInt32) : List Char :=
  if scopeId = 0 then [] else '%' :: Nat.toDigits 10 scopeId.toNat

theorem toList_text_v4 (addr : Ipv4Addr) (port : UInt16) :
    (v4 addr port).text.toList = (v4Text addr).toList ++ ':' :: Nat.toDigits 10 port.toNat := by
  have colon : ":".toList = [':'] := rfl
  simp only [text, ipText, String.toList_append, Nat.toString_eq_repr, Nat.toList_repr, colon, List.append_assoc,
    List.singleton_append]

theorem toList_text_v6 (addr : BitVec 128) (port : UInt16) (flowinfo scopeId : UInt32) :
    (v6 addr port flowinfo scopeId).text.toList =
      '[' :: ((ipText (.v6 addr)).toList ++ (scopeText scopeId ++ ']' :: ':' :: Nat.toDigits 10 port.toNat)) := by
  have opening : "[".toList = ['['] := rfl
  have percent : "%".toList = ['%'] := rfl
  have closing : "]:".toList = [']', ':'] := rfl
  rw [text, scopeText]
  split
  · simp only [String.toList_append, Nat.toString_eq_repr, Nat.toList_repr, opening, closing, List.append_assoc,
      List.cons_append, List.nil_append]
  · simp only [String.toList_append, Nat.toString_eq_repr, Nat.toList_repr, opening, percent, closing,
      List.append_assoc, List.cons_append, List.nil_append]

theorem scopeId_scopeText (scopeId : UInt32) (rest : List Char) :
    Reader.scopeId (scopeText scopeId ++ ']' :: rest) = some (scopeId.toNat, ']' :: rest) := by
  rw [scopeText]
  split
  next none =>
    rw [none]
    rfl
  next =>
    have ends : ∀ c ∈ (']' :: rest).head?, isDigit 10 c = false := by
      intro c isHead
      obtain rfl := Option.some.inj isHead
      decide
    have number : Reader.number 10 none true 4294967295 (Nat.toDigits 10 scopeId.toNat ++ ']' :: rest) =
        some (scopeId.toNat, ']' :: rest) :=
      Reader.number_toDigits (by decide) (by decide) (fun k same => (nomatch (same : none = some k)))
        (Nat.le_of_lt_succ scopeId.toNat_lt) true ends
    rw [List.cons_append, Reader.scopeId, Reader.or, Reader.bind, Reader.given, if_pos rfl, Option.bind_some, number]
    rfl

theorem parse_text (a : SocketAddr) : parse a.text.toList = some a.withoutFlow := by
  have readPort : ∀ port : UInt16, Reader.port (':' :: Nat.toDigits 10 port.toNat) = some (port.toNat, []) :=
    fun port => Reader.port_toDigits port.toNat_lt
  rw [parse, Reader.whole_eq_some, Reader.or]
  cases a with
  | v4 addr port =>
    have ends : ∀ c ∈ (':' :: Nat.toDigits 10 port.toNat).head?, isDigit 10 c = false := by
      intro c isHead
      obtain rfl := Option.some.inj isHead
      decide
    rw [toList_text_v4, readV4, Reader.bind, ipv4_v4Text addr ends, Option.bind_some, Reader.map, Reader.bind]
    dsimp only
    rw [readPort, Option.bind_some, UInt16.ofNat_toNat]
    rfl
  | v6 addr port flowinfo scopeId =>
    have stops : Reader.StopsAt (fun c => c = ']' ∨ c = '%') Reader.ipv6 := by
      have isStop : ∀ radix ∈ [10, 16], ∀ c, c = ']' ∨ c = '%' → isDigit radix c = false := by
        rintro radix member c (rfl | rfl)
        · revert radix
          decide
        · revert radix
          decide
      exact Reader.StopsAt.ipv6 (isStop 10 (by simp)) (isStop 16 (by simp)) (by decide) (by decide)
    have stopped : ∀ c ∈ (scopeText scopeId ++ ']' :: ':' :: Nat.toDigits 10 port.toNat).head?, c = ']' ∨ c = '%' := by
      intro c isHead
      rw [scopeText] at isHead
      split at isHead
      · exact .inl (Option.some.inj isHead).symm
      · exact .inr (Option.some.inj isHead).symm
    have readAddr := stops (ipText (.v6 addr)).toList _ stopped
    rw [ipv6_v6Text] at readAddr
    have notV4 : readV4 (v6 addr port flowinfo scopeId).text.toList = none := by
      rw [toList_text_v6]
      rfl
    rw [notV4, Option.none_or, toList_text_v6, readV6, Reader.bind, Reader.given, if_pos rfl, Option.bind_some,
      Reader.bind]
    dsimp only
    rw [readAddr, Option.map_some, Option.bind_some, Reader.bind, List.nil_append, scopeId_scopeText, Option.bind_some,
      Reader.bind, Reader.given, if_pos rfl, Option.bind_some, Reader.map, Reader.bind]
    dsimp only
    rw [readPort, Option.bind_some, UInt16.ofNat_toNat, UInt32.ofNat_toNat]
    rfl

theorem isPlain_of_parse {text : List Char} {a : SocketAddr} (isText : parse text = some a) : a.IsPlain := by
  have bound {α β : Type} {first : Reader α} {next : α → Reader β} {text : List Char} {found : β × List Char}
      (read : first.bind next text = some found) : ∃ value rest, next value rest = some found :=
    let ⟨value, _, later⟩ := Option.bind_eq_some_iff.mp read
    ⟨value.1, value.2, later⟩
  rw [parse, Reader.whole_eq_some, Reader.or, Option.or_eq_some_iff] at isText
  rcases isText with isV4 | ⟨-, isV6⟩
  · obtain ⟨addr, rest, isV4⟩ := bound isV4
    obtain ⟨port, rest, isV4⟩ := bound isV4
    obtain ⟨rfl, -⟩ := Prod.mk.inj (Option.some.inj isV4)
    rfl
  · obtain ⟨_, rest, isV6⟩ := bound isV6
    obtain ⟨addr, rest, isV6⟩ := bound isV6
    obtain ⟨scopeId, rest, isV6⟩ := bound isV6
    obtain ⟨_, rest, isV6⟩ := bound isV6
    obtain ⟨port, rest, isV6⟩ := bound isV6
    obtain ⟨rfl, -⟩ := Prod.mk.inj (Option.some.inj isV6)
    rfl

/-- As many bytes as the text of an address can have: eight groups of four digits, a
scope of ten and a port of five. -/
def maxTextLen : Nat := 58

theorem isAscii_scopeText {scopeId : UInt32} {c : Char} (member : c ∈ scopeText scopeId) : isAscii c := by
  rw [scopeText] at member
  split at member
  · cases member
  · rcases List.mem_cons.mp member with rfl | digit
    · rw [isAscii]
      decide
    · exact isAscii_of_isDigit (isDigit_of_mem_toDigits (by decide) (by decide) _ c digit)

theorem length_bytesOf_text (a : SocketAddr) : (bytesOf a.text).length = a.text.toList.length := by
  have ascii : ∀ c ∈ a.text.toList, isAscii c := by
    have points : ∀ c ∈ ['[', ']', ':'], isAscii c := by simp [isAscii]
    have digits : ∀ n, ∀ c ∈ Nat.toDigits 10 n, isAscii c := fun n c member =>
      isAscii_of_isDigit (isDigit_of_mem_toDigits (by decide) (by decide) n c member)
    intro c member
    cases a with
    | v4 addr port =>
      rw [toList_text_v4, List.mem_append, List.mem_cons] at member
      rcases member with inAddr | rfl | inPort
      · exact isAscii_ipText (show c ∈ (ipText (.v4 addr)).toList from inAddr)
      · exact points _ (by simp)
      · exact digits _ c inPort
    | v6 addr port flowinfo scopeId =>
      rw [toList_text_v6, List.mem_cons, List.mem_append, List.mem_append, List.mem_cons, List.mem_cons] at member
      rcases member with rfl | inAddr | inScope | rfl | rfl | inPort
      · exact points _ (by simp)
      · exact isAscii_ipText inAddr
      · exact isAscii_scopeText inScope
      · exact points _ (by simp)
      · exact points _ (by simp)
      · exact digits _ c inPort
  rw [← String.ofList_toList (s := a.text), bytesOf_ofList ascii, List.length_map, String.toList_ofList]

theorem length_bytesOf_text_le (a : SocketAddr) : (bytesOf a.text).length ≤ maxTextLen := by
  have portDigits : ∀ port : UInt16, (Nat.toDigits 10 port.toNat).length ≤ 5 := fun port =>
    length_toDigits_le (by decide) (by decide) (port.toNat_lt.trans (by decide))
  rw [length_bytesOf_text, maxTextLen]
  cases a with
  | v4 addr port =>
    have short := length_v4Text_le addr
    have digits := portDigits port
    rw [toList_text_v4, List.length_append, List.length_cons]
    omega
  | v6 addr port flowinfo scopeId =>
    have short := length_ipText_le (.v6 addr)
    have digits := portDigits port
    have scope : (scopeText scopeId).length ≤ 11 := by
      have digits : (Nat.toDigits 10 scopeId.toNat).length ≤ 10 :=
        length_toDigits_le (by decide) (by decide) (scopeId.toNat_lt.trans (by decide))
      rw [scopeText]
      split
      · exact Nat.zero_le _
      · rw [List.length_cons]
        omega
    rw [toList_text_v6, List.length_cons, List.length_append, List.length_append, List.length_cons, List.length_cons]
    omega

end SocketAddr

end Nfrp.P2p
