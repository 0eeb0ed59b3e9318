import Nfrp.Lib.Secret

/-!
Text as bytes.

A text of ASCII characters is a byte a character; `textOf` reads bytes as UTF-8, and
`lossyTextOf` puts a replacement character for what is no UTF-8.
-/

namespace Nfrp.Lib

theorem forall_of_all {Value : Type} {p : Value → Prop} [DecidablePred p] {list : List Value}
    (all : list.all fun value => decide (p value)) : ∀ value ∈ list, p value :=
  fun value member => of_decide_eq_true (List.all_eq_true.mp all value member)

def isAscii (c : Char) : Prop := c.toNat < 128

def asciiByte (c : Char) : UInt8 := UInt8.ofNat c.toNat

def textOf (bytes : List UInt8) : Option String :=
  String.fromUTF8? ⟨bytes.toArray⟩

theorem textOf_bytesOf (s : String) : textOf (bytesOf s) = some s := by
  have whole : (⟨(bytesOf s).toArray⟩ : ByteArray) = s.toByteArray := by
    rw [bytesOf, String.toUTF8_eq_toByteArray, Array.toArray_toList]
  rw [textOf, whole, String.fromUTF8?, dif_pos s.isValidUTF8]
  rfl

def replacement : Char := Char.ofNat 0xfffd

def isContinuation (byte : UInt8) : Bool := 0x80 ≤ byte && byte ≤ 0xbf

def mayFollow (first second : UInt8) : Bool :=
  if first = 0xe0 then 0xa0 ≤ second && second ≤ 0xbf
  else if first = 0xed then 0x80 ≤ second && second ≤ 0x9f
  else if first = 0xf0 then 0x90 ≤ second && second ≤ 0xbf
  else if first = 0xf4 then 0x80 ≤ second && second ≤ 0x8f
  else isContinuation second

/-- How many bytes a first byte announces. -/
def announced (first : UInt8) : Nat :=
  if 0xc2 ≤ first ∧ first ≤ 0xdf then 1
  else if 0xe0 ≤ first ∧ first ≤ 0xef then 2
  else if 0xf0 ≤ first ∧ first ≤ 0xf4 then 3
  else 0

/-- The bytes after the first that belong to the same character, as far as they are right. -/
def following (first : UInt8) (rest : List UInt8) : List UInt8 :=
  match rest.take (announced first) with
  | [] => []
  | second :: more => if mayFollow first second then second :: more.takeWhile isContinuation else []

/-- The bits of a first byte that are no mark. -/
def leadingBits (first : UInt8) : Nat :=
  first.toNat % 2 ^ (6 - announced first)

def scalar (first : UInt8) (more : List UInt8) : Char :=
  Char.ofNat (more.foldl (fun value byte => value * 64 + byte.toNat % 64) (leadingBits first))

/-- The next character, and how many bytes after the first it takes; a character that
breaks off is replaced as far as it goes. -/
def lossyNext (first : UInt8) (rest : List UInt8) : Char × Nat :=
  if first < 0x80 then (Char.ofNat first.toNat, 0)
  else
    let more := following first rest
    (if announced first ≠ 0 ∧ more.length = announced first then scalar first more else replacement, more.length)

def lossyFrom : (skip : Nat) → List UInt8 → List Char
  | _, [] => []
  | skip + 1, _ :: rest => lossyFrom skip rest
  | 0, first :: rest => (lossyNext first rest).1 :: lossyFrom (lossyNext first rest).2 rest

def lossyTextOf (bytes : List UInt8) : List Char := lossyFrom 0 bytes

theorem lossyTextOf_ne_nil {bytes : List UInt8} (some : bytes ≠ []) : lossyTextOf bytes ≠ [] := by
  cases bytes with
  | nil => exact absurd rfl some
  | cons first rest => exact List.cons_ne_nil _ _

theorem utf8Size_of_ascii {c : Char} (ascii : isAscii c) : c.utf8Size = 1 := by
  have below : c.val ≤ 127 := by
    rw [UInt32.le_iff_toNat_le]
    exact Nat.le_of_lt_succ ascii
  rw [Char.utf8Size]
  exact if_pos below

theorem bytesOf_ofList {text : List Char} (ascii : ∀ c ∈ text, isAscii c) :
    bytesOf (String.ofList text) = text.map asciiByte := by
  induction text with
  | nil => rfl
  | cons c text ih =>
    have later := ih fun d member => ascii d (List.mem_cons_of_mem _ member)
    have first : String.utf8EncodeChar c = [asciiByte c] := by
      rw [String.utf8EncodeChar_eq_singleton (utf8Size_of_ascii (ascii c List.mem_cons_self))]
      rfl
    rw [bytesOf, String.toUTF8_eq_toByteArray, String.toByteArray_ofList] at later ⊢
    rw [List.utf8Encode_cons, List.utf8Encode_singleton, first, List.map_cons, ← later]
    simp

theorem isAlphanum_iff {c : Char} :
    c.isAlphanum ↔ 65 ≤ c.toNat ∧ c.toNat ≤ 90 ∨ 97 ≤ c.toNat ∧ c.toNat ≤ 122 ∨ 48 ≤ c.toNat ∧ c.toNat ≤ 57 := by
  have isEach : c.isAlphanum = (decide (c.val ≥ 'A'.val ∧ c.val ≤ 'Z'.val) || (c.val ≥ 'a'.val && c.val ≤ 'z'.val) ||
      (c.val ≥ '0'.val && c.val ≤ '9'.val)) := rfl
  have same : c.val.toNat = c.toNat := rfl
  have small : 'A'.val.toNat = 65 ∧ 'Z'.val.toNat = 90 ∧ 'a'.val.toNat = 97 ∧ 'z'.val.toNat = 122 ∧ '0'.val.toNat = 48 ∧
      '9'.val.toNat = 57 := by decide
  simp only [isEach, Bool.or_eq_true, Bool.and_eq_true, decide_eq_true_eq, ge_iff_le, UInt32.le_iff_toNat_le]
  omega

theorem toNat_toLower (c : Char) :
    c.toLower.toNat = if 65 ≤ c.toNat ∧ c.toNat ≤ 90 then c.toNat + 32 else c.toNat := by
  have upper : (c.val ≥ 'A'.val ∧ c.val ≤ 'Z'.val) ↔ 65 ≤ c.toNat ∧ c.toNat ≤ 90 := by
    rw [ge_iff_le, UInt32.le_iff_toNat_le, UInt32.le_iff_toNat_le]
    rfl
  by_cases letter : c.val ≥ 'A'.val ∧ c.val ≤ 'Z'.val
  · have isLower : c.toLower.toNat = (c.val + ('a'.val - 'A'.val)).toNat := congrArg Char.toNat (dif_pos letter)
    rw [if_pos (upper.mp letter), isLower, UInt32.toNat_add]
    have small := (upper.mp letter).2
    have same : c.val.toNat = c.toNat := rfl
    have gap : ('a'.val - 'A'.val).toNat = 32 := by decide
    omega
  · have isSame : c.toLower = c := dif_neg letter
    rw [if_neg fun other => letter (upper.mpr other), isSame]

theorem toLower_eq_iff {c d : Char} (noLetter : d.toNat < 65) : c.toLower = d ↔ c = d := by
  rw [← Char.toNat_inj, ← Char.toNat_inj, toNat_toLower]
  split <;> omega

theorem toLower_toLower (c : Char) : c.toLower.toLower = c.toLower := by
  have noUpper : ¬ (65 ≤ c.toLower.toNat ∧ c.toLower.toNat ≤ 90) := by
    rw [toNat_toLower]
    split <;> omega
  rw [← Char.toNat_inj, toNat_toLower c.toLower, if_neg noUpper]

end Nfrp.Lib
