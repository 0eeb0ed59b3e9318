import Nfrp.Lib.Numerals
import Nfrp.Server.NatFeature

/-!
# Reading an address that was written

The server writes an address with the longest run of zeros left out; whoever reads
it gets the same address.
-/

namespace Nfrp.NatHole

open Lib

theorem toList_v4Text (addr : Ipv4Addr) :
    (v4Text addr).toList = Nat.toDigits 10 ((addr >>> 24).toNat % 256) ++ '.' ::
      (Nat.toDigits 10 ((addr >>> 16).toNat % 256) ++ '.' ::
        (Nat.toDigits 10 ((addr >>> 8).toNat % 256) ++ '.' :: Nat.toDigits 10 (addr.toNat % 256))) := by
  simp [v4Text, toString, Nat.toList_repr]

theorem ipv4Octet_toDigits (index : Nat) {n : Nat} (isOctet : n < 256) {rest : List Char}
    (ends : ∀ c ∈ rest.head?, isDigit 10 c = false) :
    Reader.ipv4Octet index ((if index = 0 then [] else ['.']) ++ Nat.toDigits 10 n ++ rest) = some (n, rest) := by
  have read : Reader.number 10 (some 3) false 255 (Nat.toDigits 10 n ++ rest) = some (n, rest) :=
    Reader.number_toDigits (by decide) (by decide) (fun k same => by cases same; omega) (by omega) false ends
  rw [Reader.ipv4Octet, Reader.separated]
  split
  · rw [List.nil_append]
    exact read
  · exact read

theorem ipv4_v4Text (addr : Ipv4Addr) {rest : List Char} (ends : ∀ c ∈ rest.head?, isDigit 10 c = false) :
    Reader.ipv4 ((v4Text addr).toList ++ rest) = some (addr, rest) := by
  have dot : ∀ text : List Char, ∀ c ∈ ('.' :: text).head?, isDigit 10 c = false := by
    intro text c isHead
    obtain rfl := Option.some.inj isHead
    decide
  have octet : ∀ n, n % 256 < 256 := fun n => Nat.mod_lt n (by decide)
  rw [toList_v4Text, List.append_assoc, List.cons_append, List.append_assoc, List.cons_append, List.append_assoc,
    List.cons_append]
  have first := ipv4Octet_toDigits 0 (octet (addr >>> 24).toNat) (dot
    (Nat.toDigits 10 ((addr >>> 16).toNat % 256) ++ '.' ::
        (Nat.toDigits 10 ((addr >>> 8).toNat % 256) ++ '.' :: (Nat.toDigits 10 (addr.toNat % 256) ++ rest))))
  have second := ipv4Octet_toDigits 1 (octet (addr >>> 16).toNat) (dot
    (Nat.toDigits 10 ((addr >>> 8).toNat % 256) ++ '.' :: (Nat.toDigits 10 (addr.toNat % 256) ++ rest)))
  have third := ipv4Octet_toDigits 2 (octet (addr >>> 8).toNat)
    (dot (Nat.toDigits 10 (addr.toNat % 256) ++ rest))
  have fourth := ipv4Octet_toDigits 3 (octet addr.toNat) ends
  have whole : BitVec.ofNat 32 (((((addr >>> 24).toNat % 256) * 256 + (addr >>> 16).toNat % 256) * 256 +
      (addr >>> 8).toNat % 256) * 256 + addr.toNat % 256) = addr := by
    refine BitVec.eq_of_toNat_eq ?_
    simp only [BitVec.toNat_ushiftRight, Nat.shiftRight_eq_div_pow, BitVec.toNat_ofNat]
    have below := addr.isLt
    omega
  rw [if_pos rfl, List.nil_append] at first
  simp only [if_neg (by decide : ¬ (1 : Nat) = 0), if_neg (by decide : ¬ (2 : Nat) = 0),
    if_neg (by decide : ¬ (3 : Nat) = 0), List.cons_append, List.nil_append] at second third fourth
  simp only [Reader.ipv4, Reader.bind, Reader.map, first, second, third, fourth, Option.bind_some, Reader.pure, whole]

/-- Groups as they are written from the given index on: all but the first after a
colon. -/
def groupsFrom : Nat → List Nat → List Char
  | _, [] => []
  | index, g :: groups => (if index = 0 then [] else [':']) ++ Nat.toDigits 16 g ++ groupsFrom (index + 1) groups

theorem groupsFrom_succ (index : Nat) (groups : List Nat) :
    groupsFrom (index + 1) groups = groups.flatMap fun g => ':' :: Nat.toDigits 16 g := by
  induction groups generalizing index with
  | nil => rfl
  | cons g groups ih =>
    rw [groupsFrom, if_neg (Nat.succ_ne_zero index), ih]
    rfl

theorem toList_groupsText (groups : List Nat) : (groupsText groups).toList = groupsFrom 0 groups := by
  have joined : ∀ (first : List Char) (rest : List (List Char)),
      [':'].intercalate (first :: rest) = first ++ rest.flatMap (':' :: ·) := by
    intro first rest
    induction rest generalizing first with
    | nil => simp [List.intercalate]
    | cons second rest ih =>
      rw [List.intercalate_cons_cons, ih]
      simp
  rw [groupsText, String.toList_intercalate, List.map_map]
  cases groups with
  | nil => rfl
  | cons g groups =>
    have digits : (String.toList ∘ fun g => String.ofList (Nat.toDigits 16 g)) = Nat.toDigits 16 :=
      funext fun g => String.toList_ofList
    have colon : ":".toList = [':'] := rfl
    rw [digits, colon, List.map_cons, joined, groupsFrom, if_pos rfl, List.nil_append, groupsFrom_succ, List.flatMap_map]

theorem notMem_toDigits {c : Char} {radix : Nat} (base : 1 < radix) (known : radix ≤ 16)
    (notDigit : isDigit radix c = false) (n : Nat) : c ∉ Nat.toDigits radix n := by
  intro member
  rw [isDigit_of_mem_toDigits base known n c member] at notDigit
  cases notDigit

theorem notMem_groupsFrom {c : Char} (notHex : isDigit 16 c = false) (notColon : c ≠ ':') (index : Nat)
    (groups : List Nat) : c ∉ groupsFrom index groups := by
  induction groups generalizing index with
  | nil => exact List.not_mem_nil
  | cons g groups ih =>
    rw [groupsFrom, List.append_assoc, List.mem_append, List.mem_append, not_or, not_or]
    refine ⟨?_, notMem_toDigits (by decide) (by decide) notHex g, ih _⟩
    split
    · exact List.not_mem_nil
    · simpa using notColon

theorem ipv4_eq_none {text : List Char} (noDot : '.' ∉ text) : Reader.ipv4 text = none := by
  rw [Reader.ipv4, Reader.bind]
  cases first : Reader.ipv4Octet 0 text with
  | none => rfl
  | some found =>
    obtain ⟨a, rest⟩ := found
    have left : rest <:+ text := (Reader.Consumes.separated '.' 0 (.number 10 (some 3) false 255)) first
    have noMore : Reader.ipv4Octet 1 rest = none := by
      rw [Reader.ipv4Octet, Reader.separated, if_neg (by decide), Reader.bind]
      cases rest with
      | nil => rfl
      | cons c rest =>
        have notDot : c ≠ '.' := fun same => noDot (left.subset (same ▸ List.mem_cons_self))
        rw [Reader.given, if_neg notDot]
        rfl
    rw [Option.bind_some, Reader.bind, noMore]
    rfl

theorem ipv4Groups_eq_none {text : List Char} (noDot : '.' ∉ text) (index : Nat) :
    Reader.ipv4Groups index text = none := by
  rw [Reader.ipv4Groups, Reader.map, Reader.bind, Reader.separated]
  split
  · rw [ipv4_eq_none noDot]
    rfl
  · rw [Reader.bind]
    cases text with
    | nil => rfl
    | cons c text =>
      rw [Reader.given]
      split
      · rw [Option.bind_some, ipv4_eq_none fun member => noDot (List.mem_cons_of_mem _ member)]
        rfl
      · rfl

def NoGroup (index : Nat) (text : List Char) : Prop :=
  Reader.separated ':' index (Reader.number 16 (some 4) true 65535) text = none

theorem groups_succ {text : List Char} (noDot : '.' ∉ text) (remaining index : Nat) :
    Reader.groups (remaining + 1) index text =
      (((Reader.separated ':' index (Reader.number 16 (some 4) true 65535)).bind fun value =>
        (Reader.groups remaining (index + 1)).map fun found => (value :: found.1, found.2)).or
          (Reader.pure ([], false))) text := by
  rw [Reader.groups]
  split
  · rfl
  · rw [Reader.or, ipv4Groups_eq_none noDot, Option.none_or]

theorem groups_of_noGroup {text : List Char} (noDot : '.' ∉ text) {index : Nat} (ends : NoGroup index text)
    (remaining : Nat) : Reader.groups remaining index text = some (([], false), text) := by
  cases remaining with
  | zero => rfl
  | succ remaining =>
    rw [groups_succ noDot, Reader.or, Reader.bind, ends]
    rfl

theorem head?_groupsFrom_succ {index : Nat} {groups : List Nat} {rest : List Char}
    (ends : ∀ c ∈ rest.head?, isDigit 16 c = false) :
    ∀ c ∈ (groupsFrom (index + 1) groups ++ rest).head?, isDigit 16 c = false := by
  cases groups with
  | nil => exact ends
  | cons g groups =>
    intro c isHead
    rw [groupsFrom, if_neg (Nat.succ_ne_zero index)] at isHead
    obtain rfl := Option.some.inj isHead
    decide

/-- Groups that are written are read, up to what is no group. -/
theorem groups_groupsFrom {groups : List Nat} {rest : List Char} (areGroups : ∀ g ∈ groups, g < 65536)
    (noDot : '.' ∉ rest) (ends : ∀ c ∈ rest.head?, isDigit 16 c = false) {remaining index : Nat}
    (fits : groups.length ≤ remaining) (stops : groups.length = remaining ∨ NoGroup (index + groups.length) rest) :
    Reader.groups remaining index (groupsFrom index groups ++ rest) = some ((groups, false), rest) := by
  induction groups generalizing remaining index with
  | nil =>
    rcases stops with all | ends
    · rw [← all]
      rfl
    · exact groups_of_noGroup noDot ends remaining
  | cons g groups ih =>
    obtain ⟨remaining, rfl⟩ : ∃ m, remaining = m + 1 := ⟨remaining - 1, by rw [List.length_cons] at fits; omega⟩
    have whole : '.' ∉ groupsFrom index (g :: groups) ++ rest := by
      rw [List.mem_append, not_or]
      exact ⟨notMem_groupsFrom (by decide) (by decide) _ _, noDot⟩
    have isGroup : g < 65536 := areGroups g List.mem_cons_self
    have number : Reader.number 16 (some 4) true 65535 (Nat.toDigits 16 g ++ (groupsFrom (index + 1) groups ++ rest)) =
        some (g, groupsFrom (index + 1) groups ++ rest) :=
      Reader.number_toDigits (by decide) (by decide) (fun k same => by cases same; omega) (by omega) true
        (head?_groupsFrom_succ ends)
    have first : Reader.separated ':' index (Reader.number 16 (some 4) true 65535)
        (groupsFrom index (g :: groups) ++ rest) = some (g, groupsFrom (index + 1) groups ++ rest) := by
      rw [groupsFrom, List.append_assoc, List.append_assoc, Reader.separated]
      split
      · exact number
      · exact number
    have later : Reader.groups remaining (index + 1) (groupsFrom (index + 1) groups ++ rest) =
        some ((groups, false), rest) :=
      ih (fun g member => areGroups g (List.mem_cons_of_mem _ member)) (by simpa using fits)
        (by simpa [Nat.add_assoc, Nat.add_comm 1] using stops)
    rw [groups_succ whole, Reader.or, Reader.bind, first, Option.bind_some, Reader.map, Reader.bind, later]
    rfl

theorem noGroup_colon (index : Nat) (rest : List Char) : NoGroup index (':' :: ':' :: rest) := by
  rw [NoGroup, Reader.separated]
  split
  · rfl
  · rfl

theorem noGroup_nil (index : Nat) : NoGroup index [] := by
  rw [NoGroup, Reader.separated]
  split
  · rfl
  · rfl

theorem ipv6_groupsFrom {groups : List Nat} (areGroups : ∀ g ∈ groups, g < 65536) (eight : groups.length = 8) :
    Reader.ipv6 (groupsFrom 0 groups) = some (Reader.ofGroups groups, []) := by
  have read : Reader.groups 8 0 (groupsFrom 0 groups ++ []) = some ((groups, false), []) :=
    groups_groupsFrom areGroups List.not_mem_nil (fun c isHead => (nomatch isHead)) eight.le (.inl eight)
  rw [List.append_nil] at read
  rw [Reader.ipv6, Reader.bind, read, Option.bind_some, if_pos eight]
  rfl

/-- At most six groups, and zeros for the others where the two colons stand. -/
theorem ipv6_compressed {head tail : List Nat} (areHead : ∀ g ∈ head, g < 65536) (areTail : ∀ g ∈ tail, g < 65536)
    (six : head.length + tail.length ≤ 6) :
    Reader.ipv6 (groupsFrom 0 head ++ ':' :: ':' :: groupsFrom 0 tail) =
      some (Reader.ofGroups (head ++ List.replicate (8 - head.length - tail.length) 0 ++ tail), []) := by
  have noDot : '.' ∉ ':' :: ':' :: groupsFrom 0 tail := by
    have inTail := notMem_groupsFrom (by decide : isDigit 16 '.' = false) (by decide) 0 tail
    simpa using inTail
  have colon : ∀ c ∈ (':' :: ':' :: groupsFrom 0 tail).head?, isDigit 16 c = false := by
    intro c isHead
    obtain rfl := Option.some.inj isHead
    decide
  have readHead : Reader.groups 8 0 (groupsFrom 0 head ++ ':' :: ':' :: groupsFrom 0 tail) =
      some ((head, false), ':' :: ':' :: groupsFrom 0 tail) :=
    groups_groupsFrom areHead noDot colon (by omega) (.inr (noGroup_colon _ _))
  have readTail : Reader.groups (7 - head.length) 0 (groupsFrom 0 tail ++ []) = some ((tail, false), []) :=
    groups_groupsFrom areTail List.not_mem_nil (fun c isHead => (nomatch isHead)) (by omega) (.inr (noGroup_nil _))
  rw [List.append_nil] at readTail
  rw [Reader.ipv6, Reader.bind, readHead, Option.bind_some, if_neg (by dsimp only; omega), if_neg Bool.false_ne_true,
    Reader.ipv6Tail, Reader.bind, Reader.given, if_pos rfl, Option.bind_some, Reader.bind, Reader.given, if_pos rfl,
    Option.bind_some, Reader.map, Reader.bind, readTail]
  rfl

/-- An IPv4 address within the one kind of IPv6 addresses that are written with a
dotted end. -/
theorem ipv6_mapped (addr : Ipv4Addr) :
    Reader.ipv6 ("::ffff:".toList ++ (v4Text addr).toList) =
      some (Reader.ofGroups [0, 0, 0, 0, 0, 65535, addr.toNat / 65536, addr.toNat % 65536], []) := by
  have dotted : Reader.ipv4 ((v4Text addr).toList ++ []) = some (addr, []) :=
    ipv4_v4Text addr fun c isHead => (nomatch isHead)
  rw [List.append_nil] at dotted
  have colons : ∀ text, Reader.groups 8 0 (':' :: text) = some (([], false), ':' :: text) := fun text => rfl
  have notDotted : ∀ text, Reader.ipv4Groups 0 ('f' :: text) = none := fun text => rfl
  have ffff : ∀ text, Reader.separated ':' 0 (Reader.number 16 (some 4) true 65535) ('f' :: 'f' :: 'f' :: 'f' :: ':' :: text) =
      some (65535, ':' :: text) := fun text => rfl
  have lastTwo : Reader.groups 6 1 (':' :: (v4Text addr).toList) =
      some (([addr.toNat / 65536, addr.toNat % 65536], true), []) := by
    have dottedGroups : Reader.ipv4Groups 1 (':' :: (v4Text addr).toList) =
        some (([addr.toNat / 65536, addr.toNat % 65536], true), []) := by
      rw [Reader.ipv4Groups, Reader.map, Reader.bind, Reader.separated, if_neg (by decide), Reader.bind, Reader.given,
        if_pos rfl, Option.bind_some, dotted]
      rfl
    rw [Reader.groups, if_neg (by decide), Reader.or, dottedGroups]
    rfl
  have tail : Reader.groups 7 0 ('f' :: 'f' :: 'f' :: 'f' :: ':' :: (v4Text addr).toList) =
      some (([65535, addr.toNat / 65536, addr.toNat % 65536], true), []) := by
    rw [Reader.groups, if_neg (by decide), Reader.or, notDotted, Option.none_or, Reader.or, Reader.bind, ffff,
      Option.bind_some, Reader.map, Reader.bind, lastTwo]
    rfl
  have start : "::ffff:".toList = [':', ':', 'f', 'f', 'f', 'f', ':'] := rfl
  rw [start, Reader.ipv6, Reader.bind]
  simp only [List.cons_append, List.nil_append]
  rw [colons, Option.bind_some]
  dsimp only [List.length_nil]
  rw [if_neg (by decide), if_neg Bool.false_ne_true, Reader.ipv6Tail, Reader.bind, Reader.given, if_pos rfl,
    Option.bind_some, Reader.bind, Reader.given, if_pos rfl, Option.bind_some, Reader.map, Reader.bind]
  dsimp only [List.length_nil]
  rw [tail]
  rfl

theorem longestZeros_le (groups : List Nat) :
    (longestZeros groups).2 ≤ ((groups.drop (longestZeros groups).1).takeWhile (· = 0)).length := by
  have general : ∀ (starts : List Nat) (longest : Nat × Nat),
      longest.2 ≤ ((groups.drop longest.1).takeWhile (· = 0)).length →
      let found := starts.foldl (fun longest start =>
        let length := ((groups.drop start).takeWhile (· = 0)).length
        if longest.2 < length then (start, length) else longest) longest
      found.2 ≤ ((groups.drop found.1).takeWhile (· = 0)).length := by
    intro starts
    induction starts with
    | nil => exact fun _ holds => holds
    | cons start starts ih =>
      intro longest holds
      refine ih _ ?_
      dsimp only
      split
      · exact le_rfl
      · exact holds
  exact general _ _ (Nat.zero_le _)

theorem longestZeros_split (groups : List Nat) :
    groups = groups.take (longestZeros groups).1 ++ List.replicate (longestZeros groups).2 0 ++
      groups.drop ((longestZeros groups).1 + (longestZeros groups).2) := by
  have zeros := longestZeros_le groups
  generalize longestZeros groups = found at zeros
  obtain ⟨start, length⟩ := found
  dsimp only at zeros ⊢
  have run : (groups.drop start).take length = List.replicate length 0 := by
    have isPrefix : ((groups.drop start).takeWhile (· = 0)).take length = (groups.drop start).take length := by
      obtain ⟨rest, split⟩ := List.takeWhile_prefix (p := fun g : Nat => decide (g = 0)) (l := groups.drop start)
      conv_rhs => rw [← split]
      rw [List.take_append_of_le_length zeros]
    rw [← isPrefix, List.eq_replicate_iff, List.length_take, min_eq_left zeros]
    refine ⟨rfl, fun g member => ?_⟩
    have isZero := List.mem_takeWhile_imp (List.mem_of_mem_take member)
    exact of_decide_eq_true isZero
  rw [← run, List.append_assoc, ← List.drop_drop, List.take_append_drop, List.take_append_drop]

def groupsOf (addr : BitVec 128) : List Nat :=
  (List.range 8).map fun i => (addr >>> (112 - 16 * i)).toNat % 65536

theorem ofGroups_groupsOf (addr : BitVec 128) : Reader.ofGroups (groupsOf addr) = addr := by
  refine BitVec.eq_of_toNat_eq ?_
  have below := addr.isLt
  simp only [Reader.ofGroups, groupsOf, List.range, List.range.loop, List.map_cons, List.map_nil, List.foldl_cons,
    List.foldl_nil, BitVec.toNat_ushiftRight, Nat.shiftRight_eq_div_pow, BitVec.toNat_ofNat]
  omega

theorem lt_of_mem_groupsOf {addr : BitVec 128} {g : Nat} (member : g ∈ groupsOf addr) : g < 65536 := by
  obtain ⟨i, -, rfl⟩ := List.mem_map.mp member
  exact Nat.mod_lt _ (by decide)

theorem ipText_v6 {addr : BitVec 128} (notMapped : ¬ addr >>> 32 = 0xffff) :
    ipText (.v6 addr) =
      if 1 < (longestZeros (groupsOf addr)).2 then
        groupsText ((groupsOf addr).take (longestZeros (groupsOf addr)).1) ++ "::" ++
          groupsText ((groupsOf addr).drop ((longestZeros (groupsOf addr)).1 + (longestZeros (groupsOf addr)).2))
      else groupsText (groupsOf addr) := by
  rw [ipText, if_neg notMapped]
  rfl

theorem ipv6_v6Text (addr : BitVec 128) : Reader.ipv6 (ipText (.v6 addr)).toList = some (addr, []) := by
  by_cases isMapped : addr >>> 32 = 0xffff
  · rw [ipText, if_pos isMapped, String.toList_append, ipv6_mapped]
    refine congrArg (fun found => some (found, [])) (BitVec.eq_of_toNat_eq ?_)
    have upper : (addr >>> 32).toNat = 65535 := congrArg BitVec.toNat isMapped
    have below := addr.isLt
    simp only [BitVec.toNat_ushiftRight, Nat.shiftRight_eq_div_pow, BitVec.toNat_ofNat, BitVec.truncate_eq_setWidth,
      BitVec.toNat_setWidth, Reader.ofGroups, List.foldl_cons, List.foldl_nil] at upper ⊢
    omega
  · rw [ipText_v6 isMapped]
    have areGroups : ∀ g ∈ groupsOf addr, g < 65536 := fun g member => lt_of_mem_groupsOf member
    have eight : (groupsOf addr).length = 8 := by rw [groupsOf, List.length_map, List.length_range]
    split
    next twoOrMore =>
      have split := longestZeros_split (groupsOf addr)
      have lengths := congrArg List.length split
      rw [List.length_append, List.length_append, List.length_replicate, eight] at lengths
      have two : "::".toList = [':', ':'] := rfl
      rw [String.toList_append, String.toList_append, toList_groupsText, toList_groupsText, two, List.append_assoc,
        List.cons_append, List.cons_append, List.nil_append,
        ipv6_compressed (fun g member => areGroups g (List.mem_of_mem_take member))
          (fun g member => areGroups g (List.mem_of_mem_drop member)) (by omega)]
      have missing : 8 - ((groupsOf addr).take (longestZeros (groupsOf addr)).1).length -
          ((groupsOf addr).drop ((longestZeros (groupsOf addr)).1 + (longestZeros (groupsOf addr)).2)).length =
          (longestZeros (groupsOf addr)).2 := by omega
      rw [missing, ← split, ofGroups_groupsOf]
    · rw [toList_groupsText, ipv6_groupsFrom areGroups eight, ofGroups_groupsOf]

theorem parse_ipText (ip : IpAddr) : IpAddr.parse (ipText ip).toList = some ip := by
  rw [IpAddr.parse, Reader.whole_eq_some, Reader.ip]
  cases ip with
  | v4 addr =>
    have read : Reader.ipv4 ((v4Text addr).toList ++ []) = some (addr, []) :=
      ipv4_v4Text addr fun c isHead => (nomatch isHead)
    rw [List.append_nil] at read
    rw [Reader.or, Reader.map, Reader.bind, ipText, read]
    rfl
  | v6 addr =>
    have read := ipv6_v6Text addr
    have notDotted : Reader.ipv4 (ipText (.v6 addr)).toList = none := by
      cases dotted : Reader.ipv4 (ipText (.v6 addr)).toList with
      | none => rfl
      | some found => cases (Reader.ipv6_of_ipv4 dotted).symm.trans read
    rw [Reader.or, Reader.map, Reader.bind, notDotted, Reader.map, Reader.bind, read]
    rfl

def IsAddressChar (c : Char) : Prop :=
  isDigit 16 c ∨ c = ':' ∨ c = '.'

theorem isDigit_sixteen {c : Char} (digit : isDigit 10 c) : isDigit 16 c := by
  rw [isDigit, digitValue, Option.isSome_filter, Option.any_eq_true] at digit ⊢
  obtain ⟨value, found, below⟩ := digit
  exact ⟨value, found, decide_eq_true ((of_decide_eq_true below).trans (by decide))⟩

theorem isAddressChar_v4Text {addr : Ipv4Addr} {c : Char} (member : c ∈ (v4Text addr).toList) : IsAddressChar c := by
  have octet : ∀ n, c ∈ Nat.toDigits 10 n → IsAddressChar c := fun n inOctet =>
    .inl (isDigit_sixteen (isDigit_of_mem_toDigits (by decide) (by decide) n c inOctet))
  rw [toList_v4Text] at member
  simp only [List.mem_append, List.mem_cons] at member
  rcases member with digit | dot | digit | dot | digit | dot | digit
  · exact octet _ digit
  · exact .inr (.inr dot)
  · exact octet _ digit
  · exact .inr (.inr dot)
  · exact octet _ digit
  · exact .inr (.inr dot)
  · exact octet _ digit

theorem isAddressChar_groupsFrom {index : Nat} {groups : List Nat} {c : Char} (member : c ∈ groupsFrom index groups) :
    IsAddressChar c := by
  by_contra other
  simp only [IsAddressChar, not_or] at other
  exact notMem_groupsFrom (by simpa using other.1) other.2.1 index groups member

theorem isAddressChar_ipText {ip : IpAddr} {c : Char} (member : c ∈ (ipText ip).toList) : IsAddressChar c := by
  cases ip with
  | v4 addr => exact isAddressChar_v4Text member
  | v6 addr =>
    by_cases isMapped : addr >>> 32 = 0xffff
    · have start : ∀ c ∈ "::ffff:".toList, isDigit 16 c ∨ c = ':' ∨ c = '.' := forall_of_all (by decide)
      rw [ipText, if_pos isMapped, String.toList_append, List.mem_append] at member
      exact member.elim (start c) isAddressChar_v4Text
    · rw [ipText_v6 isMapped] at member
      split at member
      · have two : ∀ c ∈ "::".toList, c = ':' := forall_of_all (by decide)
        rw [String.toList_append, String.toList_append, toList_groupsText, toList_groupsText, List.mem_append,
          List.mem_append] at member
        rcases member with (head | colon) | tail
        · exact isAddressChar_groupsFrom head
        · exact .inr (.inl (two c colon))
        · exact isAddressChar_groupsFrom tail
      · rw [toList_groupsText] at member
        exact isAddressChar_groupsFrom member

theorem length_toDigits_le {radix k n : Nat} (base : 1 < radix) (some : 0 < k) (below : n < radix ^ k) :
    (Nat.toDigits radix n).length ≤ k :=
  (Nat.length_toDigits_le_iff base some).mpr below

theorem length_v4Text_le (addr : Ipv4Addr) : (v4Text addr).toList.length ≤ 15 := by
  have octet : ∀ n, (Nat.toDigits 10 (n % 256)).length ≤ 3 := fun n =>
    length_toDigits_le (by decide) (by decide) ((Nat.mod_lt n (by decide)).trans (by decide))
  have a := octet (addr >>> 24).toNat
  have b := octet (addr >>> 16).toNat
  have c := octet (addr >>> 8).toNat
  have d := octet addr.toNat
  rw [toList_v4Text]
  simp only [List.length_append, List.length_cons]
  omega

theorem length_groupsFrom_le {groups : List Nat} (areGroups : ∀ g ∈ groups, g < 65536) (index : Nat) :
    (groupsFrom index groups).length + (if index = 0 ∧ groups ≠ [] then 1 else 0) ≤ 5 * groups.length := by
  induction groups generalizing index with
  | nil => simp [groupsFrom]
  | cons g groups ih =>
    have later := ih (fun g member => areGroups g (List.mem_cons_of_mem _ member)) (index + 1)
    have digits : (Nat.toDigits 16 g).length ≤ 4 :=
      length_toDigits_le (by decide) (by decide) (areGroups g List.mem_cons_self)
    rw [groupsFrom, List.length_append, List.length_append, List.length_cons]
    by_cases first : index = 0
    · simp [first] at later ⊢
      omega
    · simp [first] at later ⊢
      omega

theorem length_ipText_le (ip : IpAddr) : (ipText ip).toList.length ≤ 39 := by
  cases ip with
  | v4 addr => exact (length_v4Text_le addr).trans (by decide)
  | v6 addr =>
    by_cases isMapped : addr >>> 32 = 0xffff
    · have dotted := length_v4Text_le (addr.truncate 32)
      have start : "::ffff:".toList.length = 7 := rfl
      rw [ipText, if_pos isMapped, String.toList_append, List.length_append]
      omega
    · have areGroups : ∀ g ∈ groupsOf addr, g < 65536 := fun g member => lt_of_mem_groupsOf member
      have eight : (groupsOf addr).length = 8 := by rw [groupsOf, List.length_map, List.length_range]
      rw [ipText_v6 isMapped]
      split
      next twoOrMore =>
        have lengths := congrArg List.length (longestZeros_split (groupsOf addr))
        have head := length_groupsFrom_le
          (fun g member => areGroups g (List.mem_of_mem_take (i := (longestZeros (groupsOf addr)).1) member)) 0
        have tail := length_groupsFrom_le (fun g member => areGroups g (List.mem_of_mem_drop
          (i := (longestZeros (groupsOf addr)).1 + (longestZeros (groupsOf addr)).2) member)) 0
        have two : "::".toList.length = 2 := rfl
        rw [List.length_append, List.length_append, List.length_replicate, eight] at lengths
        rw [String.toList_append, String.toList_append, toList_groupsText, toList_groupsText, List.length_append,
          List.length_append]
        omega
      · have all := length_groupsFrom_le areGroups 0
        have some : groupsOf addr ≠ [] := by
          intro empty
          rw [empty] at eight
          cases eight
        rw [if_pos ⟨rfl, some⟩, eight] at all
        rw [toList_groupsText]
        omega

theorem isAscii_ipText {ip : IpAddr} {c : Char} (member : c ∈ (ipText ip).toList) : isAscii c := by
  rcases isAddressChar_ipText member with digit | rfl | rfl
  · exact isAscii_of_isDigit digit
  · rw [isAscii]
    decide
  · rw [isAscii]
    decide

end Nfrp.NatHole
