import Nfrp.Lib.Numerals

/-!
What a text that was read is made of.

A number without leading zeros has one spelling.  An address is spelled with few characters,
whichever of its spellings it is.
-/

namespace Nfrp.Lib

theorem exists_digitChar {c : Char} (digit : isDigit 10 c) : ∃ d < 10, d.digitChar = c ∧ digitValue 10 c = some d := by
  rw [isDigit, Option.isSome_iff_exists] at digit
  obtain ⟨d, isValue⟩ := digit
  obtain ⟨found, below⟩ := Option.filter_eq_some_iff.mp isValue
  have small : d < 10 := of_decide_eq_true below
  refine ⟨d, small, ?_, isValue⟩
  have codes : ∀ d < 10, d.digitChar.toNat = '0'.toNat + d := by decide
  split at found
  · next bounds =>
    have start : '0'.toNat ≤ c.toNat := bounds.1
    apply Char.toNat_inj.mp
    rw [codes d small, ← Option.some.inj found, Nat.add_sub_cancel' start]
  · split at found
    · exact absurd (Option.some.inj found) (by omega)
    · split at found
      · exact absurd (Option.some.inj found) (by omega)
      · cases found

/-- Digits that do not begin with a zero, unless it is the only one, are those of their number. -/
theorem toDigits_ofDigits {digits : List Char} (nonempty : digits ≠ []) (areDigits : ∀ c ∈ digits, isDigit 10 c)
    (noZero : digits.head? = some '0' → digits.length = 1) : Nat.toDigits 10 (ofDigits 10 digits) = digits := by
  induction digits using List.reverseRecOn with
  | nil => exact absurd rfl nonempty
  | append_singleton digits c ih =>
    obtain ⟨d, small, isChar, isValue⟩ := exists_digitChar (areDigits c (by simp))
    have value : ofDigits 10 (digits ++ [c]) = ofDigits 10 digits * 10 + d := by
      rw [ofDigits, List.foldl_append, ← ofDigits]
      simp [isValue]
    rw [value]
    by_cases isFirst : digits = []
    · subst isFirst
      rw [ofDigits, List.foldl_nil, Nat.zero_mul, Nat.zero_add, Nat.toDigits_of_lt_base small, isChar, List.nil_append]
    · have notZero : digits.head? ≠ some '0' := by
        intro isZero
        have only := noZero (by rw [List.head?_append_of_ne_nil _ isFirst, isZero])
        rw [List.length_append, List.length_singleton] at only
        exact isFirst (List.length_eq_zero_iff.mp (Nat.succ.inj only))
      have earlier := ih isFirst (fun c member => areDigits c (List.mem_append_left _ member))
        fun isZero => absurd isZero notZero
      have positive : ofDigits 10 digits ≠ 0 := by
        intro isZero
        rw [isZero, Nat.toDigits_zero] at earlier
        exact notZero (earlier ▸ rfl)
      rw [Nat.toDigits_of_base_le (by decide) (by omega), show (ofDigits 10 digits * 10 + d) / 10 = ofDigits 10 digits by omega,
        show (ofDigits 10 digits * 10 + d) % 10 = d by omega, earlier, isChar]

theorem Reader.number_canonical {maxDigits : Option Nat} {limit n : Nat} {text rest : List Char}
    (read : Reader.number 10 maxDigits false limit text = some (n, rest)) :
    text = Nat.toDigits 10 n ++ rest ∧ n ≤ limit := by
  obtain ⟨value, isNumber, same⟩ := Option.map_eq_some_iff.mp read
  obtain ⟨rfl, rfl⟩ := Prod.mk.inj same
  rw [numberOf] at isNumber
  split at isNumber
  · cases isNumber
  split at isNumber
  · cases isNumber
  split at isNumber
  · cases isNumber
  split at isNumber
  · cases isNumber
  next nonempty noZero inRange =>
  obtain rfl := Option.some.inj isNumber
  have spelled := toDigits_ofDigits nonempty (fun c member => List.mem_takeWhile_imp member) (by
    intro isZero
    simp only [isZero, Bool.not_false, beq_self_eq_true, Bool.and_self, Bool.true_and, decide_eq_true_eq] at noZero
    have positive := List.length_pos_iff.mpr nonempty
    omega)
  rw [spelled, List.takeWhile_append_dropWhile]
  exact ⟨rfl, Nat.le_of_not_lt inRange⟩

namespace Reader

variable {α β : Type} {good : Char → Prop}

/-- What is read is spelled with good characters. -/
def Spelled (good : Char → Prop) (reader : Reader α) : Prop :=
  ∀ ⦃text value rest⦄, reader text = some (value, rest) → ∃ taken, text = taken ++ rest ∧ ∀ c ∈ taken, good c

theorem Spelled.pure (value : α) : Spelled good (pure value) := by
  intro text other rest read
  cases read
  exact ⟨[], rfl, fun _ isNone => absurd isNone List.not_mem_nil⟩

theorem Spelled.bind {first : Reader α} {next : α → Reader β} (firstSpelled : Spelled good first)
    (nextSpelled : ∀ value, Spelled good (next value)) : Spelled good (first.bind next) := by
  intro text value rest read
  obtain ⟨⟨found, middle⟩, readFirst, readNext⟩ := Option.bind_eq_some_iff.mp read
  obtain ⟨taken, rfl, areGood⟩ := firstSpelled readFirst
  obtain ⟨more, isMiddle, areGoodMore⟩ := nextSpelled found readNext
  refine ⟨taken ++ more, ?_, List.forall_mem_append.mpr ⟨areGood, areGoodMore⟩⟩
  rw [show middle = more ++ rest from isMiddle, List.append_assoc]

theorem Spelled.map {change : α → β} {first : Reader α} (spelled : Spelled good first) :
    Spelled good (first.map change) :=
  spelled.bind fun _ => .pure _

theorem Spelled.or {first second : Reader α} (firstSpelled : Spelled good first)
    (secondSpelled : Spelled good second) : Spelled good (first.or second) := by
  intro text value rest read
  rcases Option.or_eq_some_iff.mp read with readFirst | ⟨-, readSecond⟩
  · exact firstSpelled readFirst
  · exact secondSpelled readSecond

theorem Spelled.given {c : Char} (isGood : good c) : Spelled good (given c) := by
  intro text value rest read
  cases text with
  | nil => cases read
  | cons head tail =>
    rw [Reader.given] at read
    split at read
    · next same =>
      obtain ⟨-, rfl⟩ := Prod.mk.inj (Option.some.inj read)
      exact ⟨[head], rfl, fun other member => List.mem_singleton.mp member ▸ same ▸ isGood⟩
    · cases read

theorem Spelled.number {radix : Nat} (digits : ∀ c, isDigit radix c → good c) (maxDigits : Option Nat)
    (allowZeroPrefix : Bool) (limit : Nat) : Spelled good (number radix maxDigits allowZeroPrefix limit) := by
  intro text value rest read
  obtain ⟨found, -, same⟩ := Option.map_eq_some_iff.mp read
  obtain ⟨-, rfl⟩ := Prod.mk.inj same
  exact ⟨_, List.takeWhile_append_dropWhile.symm, fun c member => digits c (List.mem_takeWhile_imp member)⟩

theorem Spelled.separated {c : Char} (isGood : good c) (index : Nat) {reader : Reader α}
    (spelled : Spelled good reader) : Spelled good (separated c index reader) := by
  unfold Reader.separated
  split
  · exact spelled
  · exact (Spelled.given isGood).bind fun _ => spelled

section Addresses

variable (decimal : ∀ c, isDigit 10 c → good c) (hexadecimal : ∀ c, isDigit 16 c → good c) (dot : good '.')
  (colon : good ':')

include decimal dot in
theorem Spelled.ipv4 : Spelled good ipv4 := by
  have octet : ∀ index, Spelled good (ipv4Octet index) := fun index => .separated dot index (.number decimal _ _ _)
  exact (octet 0).bind fun _ => (octet 1).bind fun _ => (octet 2).bind fun _ => (octet 3).map

include decimal hexadecimal dot colon

theorem Spelled.groups (remaining index : Nat) : Spelled good (groups remaining index) := by
  induction remaining generalizing index with
  | zero => exact .pure _
  | succ remaining ih =>
    have group : Spelled good ((Reader.separated ':' index (Reader.number 16 (some 4) true 65535)).bind
        fun value => (Reader.groups remaining (index + 1)).map fun found => (value :: found.1, found.2)) :=
      (Spelled.separated colon index (.number hexadecimal _ _ _)).bind fun _ =>
        (ih (index + 1)).map
    rw [Reader.groups]
    split
    · exact group.or (.pure _)
    · exact (Spelled.separated colon index (.ipv4 decimal dot)).map.or (group.or (.pure _))

theorem Spelled.ipv6 : Spelled good ipv6 := by
  refine (Spelled.groups decimal hexadecimal dot colon 8 0).bind fun head => ?_
  split
  · exact .pure _
  split
  · intro _ _ _ read
    cases read
  · exact (Spelled.given colon).bind fun _ => (Spelled.given colon).bind fun _ =>
      (Spelled.groups decimal hexadecimal dot colon _ 0).map

theorem Spelled.ip : Spelled good ip :=
  (Spelled.ipv4 decimal dot).map.or (Spelled.ipv6 decimal hexadecimal dot colon).map

end Addresses

end Reader

end Nfrp.Lib
