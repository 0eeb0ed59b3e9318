import Nfrp.Lib.Ascii

/-!
Text cut at byte offsets.

A text is stored as UTF-8, and a slice of it is given by the offsets of its first byte
and of the byte behind it.  There is none where an offset lies inside a character.
Hexadecimal text is read pair by pair, and so up to the first pair that is none.
-/

namespace Nfrp.Lib

def utf8Length (text : List Char) : Nat :=
  (text.map Char.utf8Size).sum

def dropBytes : Nat → List Char → Option (List Char)
  | 0, text => some text
  | _ + 1, [] => none
  | offset + 1, c :: rest =>
    if c.utf8Size ≤ offset + 1 then dropBytes (offset + 1 - c.utf8Size) rest else none

def takeBytes : Nat → List Char → Option (List Char)
  | 0, _ => some []
  | _ + 1, [] => none
  | offset + 1, c :: rest =>
    if c.utf8Size ≤ offset + 1 then (takeBytes (offset + 1 - c.utf8Size) rest).map (c :: ·) else none

def sliceText (text : List Char) (start stop : Nat) : Option (List Char) :=
  if start ≤ stop then (dropBytes start text).bind (takeBytes (stop - start)) else none

theorem dropBytes_cons {c : Char} {rest : List Char} {offset : Nat} (covers : c.utf8Size ≤ offset) :
    dropBytes offset (c :: rest) = dropBytes (offset - c.utf8Size) rest := by
  have positive := c.utf8Size_pos
  obtain ⟨offset, rfl⟩ := Nat.exists_eq_succ_of_ne_zero (show offset ≠ 0 by omega)
  rw [dropBytes, if_pos covers]

theorem dropBytes_add (text : List Char) (first second : Nat) {rest : List Char}
    (dropped : dropBytes first text = some rest) : dropBytes (first + second) text = dropBytes second rest := by
  induction text generalizing first with
  | nil =>
    cases first with
    | zero =>
      obtain rfl := Option.some.inj dropped
      rw [Nat.zero_add]
    | succ first => cases dropped
  | cons c text ih =>
    cases first with
    | zero =>
      obtain rfl := Option.some.inj dropped
      rw [Nat.zero_add]
    | succ first =>
      rw [dropBytes] at dropped
      split at dropped
      next covers =>
        have further : first + 1 + second - c.utf8Size = first + 1 - c.utf8Size + second := by omega
        rw [dropBytes_cons (by omega), further]
        exact ih _ dropped
      · cases dropped

/-- Two bytes as an octet; they are two digits, or none. -/
def hexOctet : List Char → Option UInt8
  | [high, low] => hexByte high low
  | _ => none

/-- So many pairs from one on, up to the first that is no octet. -/
def unhexPairs (text : List Char) : (count i : Nat) → Option (Option (List UInt8))
  | 0, _ => some (some [])
  | count + 1, i =>
    (sliceText text (i * 2) (i * 2 + 2)).bind fun pair =>
      match hexOctet pair with
      | none => some none
      | some octet => (unhexPairs text count (i + 1)).map (Option.map (octet :: ·))

def unhexChecked (text : List Char) : Option (Option (List UInt8)) :=
  if utf8Length text % 2 ≠ 0 then some none else unhexPairs text (utf8Length text / 2) 0

/-- Behind pairs of digits, a character begins inside a pair and goes on behind it. -/
def Straddled : List Char → Prop
  | [] => False
  | [c] => 2 < c.utf8Size
  | high :: low :: rest =>
    2 < high.utf8Size ∨ high.utf8Size = 1 ∧ 1 < low.utf8Size ∨ (hexByte high low).isSome ∧ Straddled rest

def decideStraddled : (text : List Char) → Decidable (Straddled text)
  | [] => inferInstanceAs (Decidable False)
  | [c] => inferInstanceAs (Decidable (2 < c.utf8Size))
  | high :: low :: rest =>
    let _ := decideStraddled rest
    inferInstanceAs (Decidable (2 < high.utf8Size ∨ high.utf8Size = 1 ∧ 1 < low.utf8Size ∨
      (hexByte high low).isSome ∧ Straddled rest))

instance : DecidablePred Straddled := decideStraddled

theorem utf8Size_of_hexValue {c : Char} {value : Nat} (isDigit : hexValue c = some value) : c.utf8Size = 1 := by
  have below : c.toNat ≤ 'f'.toNat := by
    rw [hexValue] at isDigit
    split at isDigit
    next decimal => exact (show c.toNat ≤ '9'.toNat from decimal.2).trans (by decide)
    split at isDigit
    next lower => exact lower.2
    split at isDigit
    next upper => exact (show c.toNat ≤ 'F'.toNat from upper.2).trans (by decide)
    · cases isDigit
  exact utf8Size_of_ascii (below.trans_lt (by decide))

theorem utf8Size_of_hexByte {high low : Char} {octet : UInt8} (isOctet : hexByte high low = some octet) :
    high.utf8Size = 1 ∧ low.utf8Size = 1 := by
  rw [hexByte] at isOctet
  split at isOctet
  next isPlus =>
    obtain ⟨value, isDigit, -⟩ := Option.map_eq_some_iff.mp isOctet
    exact ⟨by rw [isPlus]; rfl, utf8Size_of_hexValue isDigit⟩
  · obtain ⟨value, isDigit, rest⟩ := Option.bind_eq_some_iff.mp isOctet
    obtain ⟨other, isOther, -⟩ := Option.map_eq_some_iff.mp rest
    exact ⟨utf8Size_of_hexValue isDigit, utf8Size_of_hexValue isOther⟩

def hexPairs : (count : Nat) → List Char → Option (Option (List UInt8))
  | 0, _ => some (some [])
  | count + 1, text =>
    (takeBytes 2 text).bind fun pair =>
      match hexOctet pair with
      | none => some none
      | some octet => (hexPairs count (text.drop 2)).map (Option.map (octet :: ·))

theorem takeBytes_singles {high low : Char} (isHigh : high.utf8Size = 1) (isLow : low.utf8Size = 1) (rest : List Char) :
    takeBytes 2 (high :: low :: rest) = some [high, low] ∧ dropBytes 2 (high :: low :: rest) = some rest := by
  rw [takeBytes, isHigh, if_pos (by decide), takeBytes, isLow, if_pos (by decide), takeBytes, dropBytes, isHigh,
    if_pos (by decide), dropBytes, isLow, if_pos (by decide), dropBytes]
  exact ⟨rfl, rfl⟩

theorem takeBytes_two_cons {high : Char} {rest pair : List Char} (taken : takeBytes 2 (high :: rest) = some pair) :
    (high.utf8Size = 2 ∧ pair = [high]) ∨
      ∃ low more, rest = low :: more ∧ high.utf8Size = 1 ∧ low.utf8Size = 1 ∧ pair = [high, low] := by
  have positive := high.utf8Size_pos
  rw [takeBytes] at taken
  split at taken
  next covers =>
    by_cases double : high.utf8Size = 2
    · rw [double, takeBytes] at taken
      exact .inl ⟨double, (Option.some.inj taken).symm⟩
    · have single : high.utf8Size = 1 := by omega
      rw [single] at taken
      cases rest with
      | nil => cases taken
      | cons low more =>
        have alsoPositive := low.utf8Size_pos
        rw [takeBytes] at taken
        split at taken
        next alsoCovers =>
          have alsoSingle : low.utf8Size = 1 := by omega
          rw [alsoSingle, takeBytes] at taken
          exact .inr ⟨low, more, rfl, single, alsoSingle, (Option.some.inj taken).symm⟩
        · cases taken
  · cases taken

theorem dropBytes_two {text pair : List Char} (taken : takeBytes 2 text = some pair) {octet : UInt8}
    (isOctet : hexOctet pair = some octet) : dropBytes 2 text = some (text.drop 2) := by
  cases text with
  | nil => cases taken
  | cons high rest =>
    rcases takeBytes_two_cons taken with ⟨-, rfl⟩ | ⟨low, more, rfl, isHigh, isLow, -⟩
    · cases isOctet
    · exact (takeBytes_singles isHigh isLow more).2

theorem unhexPairs_eq (text : List Char) (count : Nat) {i : Nat} {rest : List Char}
    (dropped : dropBytes (i * 2) text = some rest) : unhexPairs text count i = hexPairs count rest := by
  induction count generalizing i rest with
  | zero => rfl
  | succ count ih =>
    have isSlice : sliceText text (i * 2) (i * 2 + 2) = takeBytes 2 rest := by
      rw [sliceText, if_pos (Nat.le_add_right _ _), dropped, Option.bind_some, Nat.add_sub_cancel_left]
    rw [unhexPairs, hexPairs, isSlice]
    refine Option.bind_congr fun pair taken => ?_
    cases isOctet : hexOctet pair with
    | none => rfl
    | some octet =>
      have next : dropBytes ((i + 1) * 2) text = some (rest.drop 2) := by
        rw [Nat.succ_mul, dropBytes_add text (i * 2) 2 dropped]
        exact dropBytes_two taken isOctet
      rw [ih next]

theorem unhexPairs_start (text : List Char) (count : Nat) : unhexPairs text count 0 = hexPairs count text := by
  apply unhexPairs_eq
  rw [Nat.zero_mul, dropBytes]

theorem takeBytes_wide {c : Char} (wide : 2 < c.utf8Size) (rest : List Char) : takeBytes 2 (c :: rest) = none := by
  rw [takeBytes, if_neg (by omega)]

theorem takeBytes_double {c : Char} (double : c.utf8Size = 2) (rest : List Char) :
    takeBytes 2 (c :: rest) = some [c] := by
  rw [takeBytes, double, if_pos (Nat.le_refl _), takeBytes]
  rfl

theorem takeBytes_half {high low : Char} (isHigh : high.utf8Size = 1) (wide : 1 < low.utf8Size) (rest : List Char) :
    takeBytes 2 (high :: low :: rest) = none := by
  rw [takeBytes, isHigh, if_pos (by decide), takeBytes, if_neg (by omega)]
  rfl

theorem hexPairs_eq {text : List Char} {count : Nat} (whole : utf8Length text = 2 * count) :
    hexPairs count text = if Straddled text then none else some (unhex text) := by
  induction count generalizing text with
  | zero =>
    cases text with
    | nil => rfl
    | cons c rest =>
      have positive := c.utf8Size_pos
      rw [utf8Length, List.map_cons, List.sum_cons] at whole
      omega
  | succ count ih =>
    match text with
    | [] => cases whole
    | [c] =>
      have isSize : c.utf8Size = 2 * (count + 1) := whole
      by_cases wide : 2 < c.utf8Size
      · rw [hexPairs, takeBytes_wide wide, if_pos (show Straddled [c] from wide)]
        rfl
      · have double : c.utf8Size = 2 := by omega
        rw [hexPairs, takeBytes_double double, if_neg (show ¬Straddled [c] from wide)]
        rfl
    | high :: low :: rest =>
      have positive := high.utf8Size_pos
      have lowPositive := low.utf8Size_pos
      rw [utf8Length, List.map_cons, List.map_cons, List.sum_cons, List.sum_cons] at whole
      rw [hexPairs]
      by_cases wide : 2 < high.utf8Size
      · rw [takeBytes_wide wide, if_pos (.inl wide)]
        rfl
      by_cases double : high.utf8Size = 2
      · have noOctet : hexByte high low = none := by
          rw [Option.eq_none_iff_forall_ne_some]
          intro octet isOctet
          cases double.symm.trans (utf8Size_of_hexByte isOctet).1
        have notStraddled : ¬Straddled (high :: low :: rest) := by
          rw [Straddled, noOctet, double]
          simp
        rw [takeBytes_double double, if_neg notStraddled, unhex, noOctet]
        rfl
      have single : high.utf8Size = 1 := by omega
      by_cases alsoWide : 1 < low.utf8Size
      · rw [takeBytes_half single alsoWide, if_pos (.inr (.inl ⟨single, alsoWide⟩))]
        rfl
      have alsoSingle : low.utf8Size = 1 := by omega
      rw [(takeBytes_singles single alsoSingle rest).1, Option.bind_some, unhex]
      cases isOctet : hexByte high low with
      | none =>
        have notStraddled : ¬Straddled (high :: low :: rest) := by
          rw [Straddled, isOctet]
          simp [single, alsoSingle]
        rw [hexOctet, isOctet, if_neg notStraddled]
        rfl
      | some octet =>
        have sameStraddled : Straddled (high :: low :: rest) ↔ Straddled rest := by
          rw [Straddled, isOctet]
          simp [single, alsoSingle]
        have isRest : utf8Length rest = 2 * count := by
          rw [utf8Length]
          omega
        rw [hexOctet, isOctet]
        show (hexPairs count rest).map (Option.map (octet :: ·)) = _
        rw [ih isRest, Option.bind_some]
        by_cases straddled : Straddled rest
        · rw [if_pos straddled, if_pos (sameStraddled.mpr straddled)]
          rfl
        · rw [if_neg straddled, if_neg (sameStraddled.not.mpr straddled)]
          rfl

theorem utf8Length_of_unhex {text : List Char} {octets : List UInt8} (read : unhex text = some octets) :
    utf8Length text = 2 * octets.length := by
  induction text using unhex.induct generalizing octets with
  | case1 =>
    obtain rfl := Option.some.inj read
    rfl
  | case2 c => cases read
  | case3 high low rest ih =>
    obtain ⟨octet, isOctet, more⟩ := Option.bind_eq_some_iff.mp read
    obtain ⟨later, isLater, rfl⟩ := Option.map_eq_some_iff.mp more
    obtain ⟨isHigh, isLow⟩ := utf8Size_of_hexByte isOctet
    have recursive := ih isLater
    rw [utf8Length] at recursive
    rw [utf8Length, List.map_cons, List.map_cons, List.sum_cons, List.sum_cons, isHigh, isLow, recursive,
      List.length_cons]
    omega

theorem unhexChecked_eq (text : List Char) :
    unhexChecked text = if utf8Length text % 2 = 0 ∧ Straddled text then none else some (unhex text) := by
  rw [unhexChecked]
  by_cases even : utf8Length text % 2 = 0
  · have whole : utf8Length text = 2 * (utf8Length text / 2) := (Nat.mul_div_cancel' (Nat.dvd_of_mod_eq_zero even)).symm
    rw [if_neg (not_not.mpr even), unhexPairs_start, hexPairs_eq whole]
    simp only [even, true_and]
  · have unread : unhex text = none := by
      rw [Option.eq_none_iff_forall_ne_some]
      intro octets read
      rw [utf8Length_of_unhex read] at even
      omega
    rw [if_pos even, if_neg (fun both => even both.1), unread]

end Nfrp.Lib
