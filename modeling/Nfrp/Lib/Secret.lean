import Nfrp.Lib.Bytes

/-!
# Writing secrets and comparing them

Hexadecimal digits, and a comparison whose time does not tell where two secrets
differ.
-/

namespace Nfrp.Lib

def bytesOf (s : String) : List UInt8 := s.toUTF8.data.toList

theorem bytesOf_inj {s t : String} : bytesOf s = bytesOf t ↔ s = t := by
  refine ⟨fun same => ?_, congrArg bytesOf⟩
  exact String.toByteArray_inj.mp (ByteArray.ext (Array.toList_inj.mp same))

def hexDigit (n : Nat) : Char :=
  if n < 10 then Char.ofNat (48 + n) else Char.ofNat (87 + n)

def hex (bytes : List UInt8) : List Char :=
  bytes.flatMap fun b => [hexDigit (b.toNat / 16), hexDigit (b.toNat % 16)]

def hexValue (c : Char) : Option Nat :=
  if '0' ≤ c ∧ c ≤ '9' then some (c.toNat - 48)
  else if 'a' ≤ c ∧ c ≤ 'f' then some (c.toNat - 87)
  else if 'A' ≤ c ∧ c ≤ 'F' then some (c.toNat - 55)
  else none

/-- Two digits; a plus sign may stand for the first. -/
def hexByte (high low : Char) : Option UInt8 :=
  if high = '+' then (hexValue low).map UInt8.ofNat
  else (hexValue high).bind fun h => (hexValue low).map fun l => UInt8.ofNat (16 * h + l)

/-- A text that is not of single bytes is no number anywhere. -/
def unhex : List Char → Option (List UInt8)
  | [] => some []
  | [_] => none
  | high :: low :: rest => (hexByte high low).bind fun b => (unhex rest).map (b :: ·)

theorem hexValue_hexDigit {n : Nat} (digit : n < 16) : hexValue (hexDigit n) = some n := by
  revert n
  decide

theorem hexDigit_ne_plus {n : Nat} (digit : n < 16) : hexDigit n ≠ '+' := by
  revert n
  decide

theorem hexByte_hexDigit (b : UInt8) : hexByte (hexDigit (b.toNat / 16)) (hexDigit (b.toNat % 16)) = some b := by
  have below := b.toNat_lt
  have high : b.toNat / 16 < 16 := by omega
  have low : b.toNat % 16 < 16 := by omega
  rw [hexByte, if_neg (hexDigit_ne_plus high), hexValue_hexDigit high, hexValue_hexDigit low, Option.bind_some,
    Option.map_some, Nat.div_add_mod, UInt8.ofNat_toNat]

theorem unhex_hex (bytes : List UInt8) : unhex (hex bytes) = some bytes := by
  induction bytes with
  | nil => rfl
  | cons b bytes ih =>
    have unfolded : hex (b :: bytes) = hexDigit (b.toNat / 16) :: hexDigit (b.toNat % 16) :: hex bytes := rfl
    rw [unfolded, unhex, hexByte_hexDigit, Option.bind_some, ih, Option.map_some]

theorem hex_ne_nil {bytes : List UInt8} (given : bytes ≠ []) : hex bytes ≠ [] := by
  cases bytes with
  | nil => exact absurd rfl given
  | cons b bytes => exact List.cons_ne_nil _ _

/-- The differences are gathered over the whole length. -/
def constantTimeEq (a b : List UInt8) : Bool :=
  a.length == b.length && (a.zip b).foldl (fun acc pair => acc ||| (pair.1 ^^^ pair.2)) 0 == 0

theorem gathered_eq_zero_iff {a b : List UInt8} (lengths : a.length = b.length) (acc : UInt8) :
    (a.zip b).foldl (fun acc pair => acc ||| (pair.1 ^^^ pair.2)) acc = 0 ↔ acc = 0 ∧ a = b := by
  induction a generalizing b acc with
  | nil =>
    rw [List.length_nil] at lengths
    rw [List.eq_nil_of_length_eq_zero lengths.symm]
    simp
  | cons x a ih =>
    cases b with
    | nil => cases lengths
    | cons y b =>
      have shorter : a.length = b.length := Nat.succ.inj lengths
      rw [List.zip_cons_cons, List.foldl_cons, ih shorter, UInt8.or_eq_zero_iff,
        UInt8.xor_eq_zero_iff, List.cons.injEq, and_assoc]

theorem constantTimeEq_iff {a b : List UInt8} : constantTimeEq a b ↔ a = b := by
  rw [constantTimeEq, Bool.and_eq_true, beq_iff_eq, beq_iff_eq]
  constructor
  · rintro ⟨lengths, gathered⟩
    exact ((gathered_eq_zero_iff lengths 0).mp gathered).2
  · intro same
    have lengths : a.length = b.length := congrArg List.length same
    exact ⟨lengths, (gathered_eq_zero_iff lengths 0).mpr ⟨rfl, same⟩⟩

end Nfrp.Lib
