import Mathlib.Data.List.Basic

/-!
Bytes in base 64.

Three bytes are written as four characters of the alphabet; what is missing of the last three
is made up for with equality signs.
-/

namespace Nfrp.Lib

/-- What is relied on of the two directions. -/
structure IsBase64 (encode : List UInt8 → List Char) (decode : List Char → Option (List UInt8)) : Prop where
  decode_encode : ∀ bytes, decode (encode bytes) = some bytes
  encode_nil : encode [] = []
  isToken : ∀ bytes, ∀ c ∈ encode bytes, c.isAlphanum ∨ c = '+' ∨ c = '/' ∨ c = '='

namespace Base64

def alphabet : List Char := "ABCDEFGHIJKLMNOPQRSTUVWXYZabcdefghijklmnopqrstuvwxyz0123456789+/".toList

def symbol (n : Nat) : Char := alphabet.getD (n % 64) 'A'

def value (c : Char) : Option Nat := alphabet.idxOf? c

def encode : List UInt8 → List Char
  | [] => []
  | [a] => [symbol (a.toNat / 4), symbol (a.toNat * 16), '=', '=']
  | [a, b] => [symbol (a.toNat / 4), symbol (a.toNat * 16 + b.toNat / 16), symbol (b.toNat * 4), '=']
  | a :: b :: c :: rest =>
    symbol (a.toNat / 4) :: symbol (a.toNat * 16 + b.toNat / 16) :: symbol (b.toNat * 4 + c.toNat / 64) ::
      symbol c.toNat :: encode rest

/-- The first, the second and the third byte of the values of four characters. -/
def first (p q : Nat) : UInt8 := UInt8.ofNat (p * 4 + q / 16)

def second (q r : Nat) : UInt8 := UInt8.ofNat (q * 16 + r / 4)

def third (r s : Nat) : UInt8 := UInt8.ofNat (r * 64 + s)

def decode : List Char → Option (List UInt8)
  | [] => some []
  | p :: q :: r :: s :: rest =>
    (value p).bind fun p => (value q).bind fun q =>
      if r = '=' ∧ s = '=' ∧ rest = [] then some [first p q]
      else
        (value r).bind fun r =>
          if s = '=' ∧ rest = [] then some [first p q, second q r]
          else
            (value s).bind fun s => (decode rest).map fun bytes => first p q :: second q r :: third r s :: bytes
  | _ => none

theorem value_symbol (n : Nat) : value (symbol n) = some (n % 64) := by
  have each : ∀ m < 64, value (alphabet.getD m 'A') = some m := by decide +kernel
  exact each _ (Nat.mod_lt _ (by decide))

theorem isAlphanum_symbol (n : Nat) : (symbol n).isAlphanum ∨ symbol n = '+' ∨ symbol n = '/' := by
  have each : ∀ m < 64, (alphabet.getD m 'A').isAlphanum ∨ alphabet.getD m 'A' = '+' ∨ alphabet.getD m 'A' = '/' := by
    decide +kernel
  exact each _ (Nat.mod_lt _ (by decide))

theorem symbol_ne (n : Nat) : symbol n ≠ '=' := by
  intro same
  have isValue := value_symbol n
  rw [same] at isValue
  cases isValue

theorem first_eq (a : UInt8) {q : Nat} (high : q / 16 = a.toNat % 4) : first (a.toNat / 4 % 64) q = a := by
  have small := a.toNat_lt
  have whole : a.toNat / 4 % 64 * 4 + q / 16 = a.toNat := by omega
  rw [first, whole, UInt8.ofNat_toNat]

theorem second_eq (b : UInt8) {q r : Nat} (low : q % 16 = b.toNat / 16) (high : r / 4 = b.toNat % 16) :
    second q r = b := by
  have small := b.toNat_lt
  have whole : (q * 16 + r / 4) % 256 = b.toNat := by omega
  rw [second, ← UInt8.toNat_inj, UInt8.toNat_ofNat', whole]

theorem third_eq (c : UInt8) {r : Nat} (low : r % 4 = c.toNat / 64) : third r (c.toNat % 64) = c := by
  have small := c.toNat_lt
  have whole : (r * 64 + c.toNat % 64) % 256 = c.toNat := by omega
  rw [third, ← UInt8.toNat_inj, UInt8.toNat_ofNat', whole]

theorem decode_encode (bytes : List UInt8) : decode (encode bytes) = some bytes := by
  induction bytes using encode.induct with
  | case1 => rfl
  | case2 a =>
    have small := a.toNat_lt
    simp only [encode, decode, value_symbol, Option.bind_some, and_self, if_true]
    rw [first_eq a (by omega)]
  | case3 a b =>
    have small := a.toNat_lt
    have alsoSmall := b.toNat_lt
    simp only [encode, decode, value_symbol, Option.bind_some, symbol_ne, false_and, if_false, and_self, if_true]
    rw [first_eq a (by omega), second_eq b (by omega) (by omega)]
  | case4 a b c rest ih =>
    have small := a.toNat_lt
    have alsoSmall := b.toNat_lt
    have smallToo := c.toNat_lt
    simp only [encode, decode, value_symbol, Option.bind_some, symbol_ne, false_and, if_false, ih,
      Option.map_some]
    rw [first_eq a (by omega), second_eq b (by omega) (by omega), third_eq c (by omega)]

theorem isToken_encode (bytes : List UInt8) : ∀ c ∈ encode bytes, c.isAlphanum ∨ c = '+' ∨ c = '/' ∨ c = '=' := by
  have isSymbol : ∀ n, (symbol n).isAlphanum ∨ symbol n = '+' ∨ symbol n = '/' ∨ symbol n = '=' := by
    intro n
    rcases isAlphanum_symbol n with letter | plus | slash
    · exact .inl letter
    · exact .inr (.inl plus)
    · exact .inr (.inr (.inl slash))
  induction bytes using encode.induct with
  | case1 => simp [encode]
  | case2 a => simp [encode, isSymbol]
  | case3 a b => simp [encode, isSymbol]
  | case4 a b c rest ih =>
    simp only [encode, List.forall_mem_cons]
    exact ⟨isSymbol _, isSymbol _, isSymbol _, isSymbol _, ih⟩

theorem isBase64 : IsBase64 encode decode where
  decode_encode := decode_encode
  encode_nil := rfl
  isToken := isToken_encode

example : encode [77, 97] = "TWE=".toList := by decide

end Base64

end Nfrp.Lib
