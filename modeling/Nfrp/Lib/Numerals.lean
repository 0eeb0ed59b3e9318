import Nfrp.Lib.Ascii
import Nfrp.Lib.Ip

/-!
Numbers written out and read back.

`Nat.toDigits` writes a number without a leading zero; the readers of numbers take
it up to the first character that is no digit.
-/

namespace Nfrp.Lib

variable {radix n : Nat}

theorem digitValue_digitChar (digit : n < radix) (known : radix ≤ 16) : digitValue radix n.digitChar = some n := by
  have values : ∀ n < 16, (if '0' ≤ n.digitChar ∧ n.digitChar ≤ '9' then some (n.digitChar.toNat - '0'.toNat)
      else if 'a' ≤ n.digitChar ∧ n.digitChar ≤ 'z' then some (n.digitChar.toNat - 'a'.toNat + 10)
      else if 'A' ≤ n.digitChar ∧ n.digitChar ≤ 'Z' then some (n.digitChar.toNat - 'A'.toNat + 10) else none) = some n := by
    decide
  rw [digitValue, values n (digit.trans_le known)]
  exact Option.filter_eq_some_iff.mpr ⟨rfl, decide_eq_true digit⟩

/-- Over the digits of a number: the last digit, and those of the rest before it. -/
theorem toDigits_induction {motive : Nat → List Char → Prop} (base : 1 < radix)
    (short : ∀ d < radix, motive d [d.digitChar])
    (longer : ∀ m d, 0 < m → d < radix → motive m (Nat.toDigits radix m) →
      motive (radix * m + d) (Nat.toDigits radix m ++ [d.digitChar])) (n : Nat) :
    motive n (Nat.toDigits radix n) := by
  induction n using Nat.strongRecOn with
  | ind n ih =>
    by_cases small : n < radix
    · rw [Nat.toDigits_of_lt_base small]
      exact short n small
    · have large : radix ≤ n := not_lt.mp small
      have fewer : n / radix < n := Nat.div_lt_self (by omega) base
      rw [Nat.toDigits_of_base_le base large]
      have step := longer (n / radix) (n % radix) (Nat.div_pos large (by omega)) (Nat.mod_lt _ (by omega))
        (ih _ fewer)
      rwa [Nat.div_add_mod] at step

theorem ofDigits_toDigits (base : 1 < radix) (known : radix ≤ 16) (n : Nat) :
    ofDigits radix (Nat.toDigits radix n) = n := by
  induction n using toDigits_induction base with
  | short d digit => simp [ofDigits, digitValue_digitChar digit known]
  | longer m d _ digit ih =>
    rw [ofDigits, List.foldl_append, ← ofDigits, ih]
    simp [digitValue_digitChar digit known, Nat.mul_comm]

theorem isDigit_of_mem_toDigits (base : 1 < radix) (known : radix ≤ 16) (n : Nat) :
    ∀ c ∈ Nat.toDigits radix n, isDigit radix c := by
  have isDigitChar : ∀ d < radix, isDigit radix d.digitChar = true := by
    intro d digit
    rw [isDigit, digitValue_digitChar digit known]
    rfl
  induction n using toDigits_induction base with
  | short d digit => exact fun c member => List.mem_singleton.mp member ▸ isDigitChar d digit
  | longer m d _ digit ih =>
    intro c member
    rcases List.mem_append.mp member with earlier | last
    · exact ih c earlier
    · exact List.mem_singleton.mp last ▸ isDigitChar d digit

theorem head?_toDigits (base : 1 < radix) (known : radix ≤ 16) (positive : 0 < n) :
    (Nat.toDigits radix n).head? ≠ some '0' := by
  have notZero : ∀ d < 16, 0 < d → d.digitChar ≠ '0' := by decide
  induction n using toDigits_induction base with
  | short d digit =>
    rw [List.head?_cons]
    exact fun same => notZero d (digit.trans_le known) positive (Option.some.inj same)
  | longer m d more digit ih =>
    rw [List.head?_append_of_ne_nil _ Nat.toDigits_ne_nil]
    exact ih more

theorem numberOf_toDigits (base : 1 < radix) (known : radix ≤ 16) {maxDigits : Option Nat} {limit : Nat}
    (short : ∀ k ∈ maxDigits, 0 < k ∧ n < radix ^ k) (below : n ≤ limit) (allowZeroPrefix : Bool) :
    numberOf radix maxDigits allowZeroPrefix limit (Nat.toDigits radix n) = some n := by
  have fits : ¬ maxDigits.any (· < (Nat.toDigits radix n).length) := by
    cases maxDigits with
    | none => exact Bool.false_ne_true
    | some k =>
      have bounds := short k rfl
      simpa using (Nat.length_toDigits_le_iff base bounds.1).mpr bounds.2
  have noZeroPrefix : ¬ (!allowZeroPrefix && (Nat.toDigits radix n).head? == some '0' &&
      1 < (Nat.toDigits radix n).length) := by
    rcases Nat.eq_zero_or_pos n with rfl | positive
    · simp [Nat.toDigits_zero]
    · simp [head?_toDigits base known positive]
  rw [numberOf, if_neg fits, if_neg Nat.toDigits_ne_nil, if_neg noZeroPrefix, ofDigits_toDigits base known,
    if_neg (not_lt.mpr below)]

/-- A number that is written is read, up to what is no digit. -/
theorem Reader.number_toDigits (base : 1 < radix) (known : radix ≤ 16) {maxDigits : Option Nat} {limit : Nat}
    (short : ∀ k ∈ maxDigits, 0 < k ∧ n < radix ^ k) (below : n ≤ limit) (allowZeroPrefix : Bool) {rest : List Char}
    (ends : ∀ c ∈ rest.head?, isDigit radix c = false) :
    Reader.number radix maxDigits allowZeroPrefix limit (Nat.toDigits radix n ++ rest) = some (n, rest) := by
  have all := isDigit_of_mem_toDigits base known n
  have stopped := @takeWhile_of_stopped (isDigit radix) (Nat.toDigits radix n) rest ends
  rw [Reader.number, stopped.1, stopped.2, List.takeWhile_eq_self_iff.mpr all, List.dropWhile_eq_nil_iff.mpr all,
    numberOf_toDigits base known short below]
  rfl

theorem Reader.port_toDigits {port : Nat} (isPort : port < 65536) :
    Reader.port (':' :: Nat.toDigits 10 port) = some (port, []) := by
  have number : Reader.number 10 none true 65535 (Nat.toDigits 10 port ++ []) = some (port, []) :=
    Reader.number_toDigits (by decide) (by decide) (fun k same => (nomatch (same : none = some k))) (by omega) true
      (fun c isHead => (nomatch isHead))
  rw [List.append_nil] at number
  rw [Reader.port, Reader.bind, Reader.given, if_pos rfl, Option.bind_some, number]

theorem parseUnsigned_toDigits {n limit : Nat} (below : n ≤ limit) :
    parseUnsigned limit (Nat.toDigits 10 n) = some n := by
  have noSign : (Nat.toDigits 10 n).head? ≠ some '+' := by
    intro isHead
    have digit := isDigit_of_mem_toDigits (by decide) (by decide) n '+' (List.mem_of_mem_head? isHead)
    exact absurd digit (by decide)
  have read : Reader.number 10 none true limit (Nat.toDigits 10 n ++ []) = some (n, []) :=
    Reader.number_toDigits (by decide) (by decide) (fun k same => (nomatch (same : none = some k))) below true
      (fun c isHead => (nomatch isHead))
  rw [List.append_nil] at read
  rw [parseUnsigned, if_neg noSign, Reader.whole_eq_some, read]

theorem isAscii_of_isDigit {c : Char} (digit : isDigit radix c) : isAscii c := by
  have le_iff (a b : Char) : a ≤ b ↔ a.toNat ≤ b.toNat := Iff.rfl
  have range : ('0' ≤ c ∧ c ≤ '9') ∨ ('a' ≤ c ∧ c ≤ 'z') ∨ ('A' ≤ c ∧ c ≤ 'Z') := by
    by_contra none
    simp only [not_or] at none
    rw [isDigit, digitValue] at digit
    simp [none.1, none.2.1, none.2.2] at digit
  simp only [le_iff, Char.reduceToNat] at range
  rw [isAscii]
  omega

/-! ## Numbers in a fixed width

With zeros in front, the texts of numbers that fit are in the order of the numbers. -/

section Padded

variable {width : Nat}

def padded (width n : Nat) : List Char :=
  (Nat.toDigits 10 n).leftpad width '0'

theorem padded_one (n : Nat) : padded 1 n = Nat.toDigits 10 n := by
  have nonempty : (Nat.toDigits 10 n).length ≠ 0 := List.length_eq_zero_iff.not.mpr Nat.toDigits_ne_nil
  simp [padded, List.leftpad, show 1 - (Nat.toDigits 10 n).length = 0 by omega]

theorem padded_succ (positive : 1 ≤ width) (n : Nat) :
    padded (width + 1) n = padded width (n / 10) ++ [(n % 10).digitChar] := by
  by_cases small : n < 10
  · have one : width = width - 1 + 1 := by omega
    rw [padded, padded, Nat.div_eq_of_lt small, Nat.mod_eq_of_lt small, Nat.toDigits_of_lt_base small, Nat.toDigits_zero]
    simp only [List.leftpad, List.length_singleton, Nat.add_sub_cancel]
    rw [one, Nat.add_sub_cancel, List.replicate_succ']
  · rw [padded, padded, Nat.toDigits_of_base_le (by decide) (not_lt.mp small)]
    simp [List.leftpad]

theorem length_padded (positive : 1 ≤ width) (fits : n < 10 ^ width) : (padded width n).length = width := by
  rw [padded, List.length_leftpad]
  exact max_eq_left ((Nat.length_toDigits_le_iff (by decide) positive).mpr fits)

theorem isDigit_of_mem_padded {c : Char} (member : c ∈ padded width n) : isDigit 10 c := by
  rcases List.mem_append.mp member with zero | digit
  · rw [List.eq_of_mem_replicate zero]
    decide
  · exact isDigit_of_mem_toDigits (by decide) (by decide) n c digit

theorem ofDigits_padded (positive : 1 ≤ width) (n : Nat) : ofDigits 10 (padded width n) = n := by
  induction width, positive using Nat.le_induction generalizing n with
  | base => rw [padded_one, ofDigits_toDigits (by decide) (by decide)]
  | succ width positive ih =>
    have known := @digitValue_digitChar 10 (n % 10) (Nat.mod_lt _ (by decide)) (by decide)
    have front := ih (n / 10)
    rw [ofDigits] at front ⊢
    rw [padded_succ positive, List.foldl_append, front, List.foldl_cons, List.foldl_nil, known, Option.getD_some]
    omega

theorem parseUnsigned_padded {limit : Nat} (positive : 1 ≤ width) (below : n ≤ limit) :
    parseUnsigned limit (padded width n) = some n := by
  have digits : ∀ c ∈ padded width n, isDigit 10 c := fun c member => isDigit_of_mem_padded member
  have nonempty : padded width n ≠ [] := by
    simp [padded, List.leftpad, Nat.toDigits_ne_nil]
  have noSign : (padded width n).head? ≠ some '+' := fun isHead =>
    absurd (digits '+' (List.mem_of_mem_head? isHead)) (by decide)
  have whole : (padded width n).takeWhile (isDigit 10) = padded width n ∧
      (padded width n).dropWhile (isDigit 10) = [] :=
    ⟨List.takeWhile_eq_self_iff.mpr digits, List.dropWhile_eq_nil_iff.mpr digits⟩
  rw [parseUnsigned, if_neg noSign, Reader.whole_eq_some, Reader.number, whole.1, whole.2, numberOf]
  simp [nonempty, ofDigits_padded positive, below]

theorem append_lt_append_iff {a b c d : List Char} (alike : a.length = b.length) :
    a ++ c < b ++ d ↔ a < b ∨ a = b ∧ c < d := by
  induction a generalizing b with
  | nil =>
    obtain rfl := List.length_eq_zero_iff.mp alike.symm
    simp
  | cons first a ih =>
    cases b with
    | nil => cases alike
    | cons other b =>
      simp only [List.cons_append, List.cons_lt_cons_iff, ih (Nat.succ.inj alike), List.cons.injEq]
      tauto

theorem padded_lt {m : Nat} (positive : 1 ≤ width) (fits : m < 10 ^ width) (less : n < m) :
    padded width n < padded width m := by
  have digits : ∀ m < 10, ∀ n < m, n.digitChar < m.digitChar := by decide
  induction width, positive using Nat.le_induction generalizing n m with
  | base =>
    rw [pow_one] at fits
    rw [padded_one, padded_one, Nat.toDigits_of_lt_base fits, Nat.toDigits_of_lt_base (less.trans fits),
      List.cons_lt_cons_iff]
    exact .inl (digits m fits n less)
  | succ width positive ih =>
    have front : m / 10 < 10 ^ width := by
      rw [pow_succ] at fits
      omega
    have alike : (padded width (n / 10)).length = (padded width (m / 10)).length := by
      rw [length_padded positive front, length_padded positive (by omega)]
    rw [padded_succ positive, padded_succ positive, append_lt_append_iff alike]
    by_cases same : n / 10 = m / 10
    · refine .inr ⟨by rw [same], List.cons_lt_cons_iff.mpr (.inl (digits _ (Nat.mod_lt _ (by decide)) _ ?_))⟩
      omega
    · exact .inl (ih front (by omega))

end Padded

end Nfrp.Lib
