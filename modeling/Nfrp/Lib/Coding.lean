import Mathlib.Data.List.Basic

/-!
Codings of texts.

An end of a connection may compress what it sends, and may encipher it after that.
All that is known of the ciphers and of the compression is that they can be undone;
`undoes_iff` says that one end undoes the other whatever they are only where both do the same.
-/

namespace Nfrp.Lib

universe u v

variable {Key : Type u} {Text : Type v}

structure Invertible (Text : Type v) where
  encode : Text → Text
  decode : Text → Text
  decode_encode : ∀ text, decode (encode text) = text

namespace Invertible

def identity : Invertible Text where
  encode := id
  decode := id
  decode_encode _ := rfl

def andThen (first second : Invertible Text) : Invertible Text where
  encode text := second.encode (first.encode text)
  decode text := first.decode (second.decode text)
  decode_encode text := by rw [second.decode_encode, first.decode_encode]

def tagged {Symbol : Type v} (tag : Symbol) : Invertible (List Symbol) where
  encode text := tag :: text
  decode := List.tail
  decode_encode _ := rfl

end Invertible

structure Ciphers (Key : Type u) (Text : Type v) where
  cipher : Key → Invertible Text
  compression : Invertible Text

structure Transform (Key : Type u) where
  key : Option Key
  compress : Bool
  deriving DecidableEq, Repr

def Transform.plain : Transform Key := ⟨none, false⟩

def Ciphers.coding (c : Ciphers Key Text) (t : Transform Key) : Invertible Text :=
  (if t.compress then c.compression else .identity).andThen (t.key.elim .identity c.cipher)

/-- Whatever the ciphers are. -/
def Transform.Undoes (Text : Type v) (a b : Transform Key) : Prop :=
  ∀ (c : Ciphers Key Text) text, (c.coding a).decode ((c.coding b).encode text) = text

namespace Transform

theorem undoes_self (t : Transform Key) : t.Undoes Text t :=
  fun c => (c.coding t).decode_encode

section Lists

variable {Symbol : Type v} {a b : Transform Key}

theorem Undoes.compress_eq [Inhabited Symbol] (undoes : a.Undoes (List Symbol) b) : a.compress = b.compress := by
  let c : Ciphers Key (List Symbol) := ⟨fun _ => .identity, .tagged default⟩
  have encode : ∀ (t : Transform Key) text, (c.coding t).encode text = if t.compress then default :: text else text := by
    rintro ⟨key, compress⟩ text
    cases key <;> cases compress <;> rfl
  have decode : ∀ (t : Transform Key) text, (c.coding t).decode text = if t.compress then text.tail else text := by
    rintro ⟨key, compress⟩ text
    cases key <;> cases compress <;> rfl
  have nothing := undoes c []
  have one := undoes c [default]
  rw [encode, decode] at nothing one
  cases left : a.compress with
  | false =>
    cases right : b.compress with
    | false => rfl
    | true =>
      rw [left, right] at nothing
      cases nothing
  | true =>
    cases right : b.compress with
    | false =>
      rw [left, right] at one
      cases one
    | true => rfl

/-- A cipher that leaves the text alone under one key only shows who has that key. -/
theorem Undoes.key_eq [DecidableEq Key] [Inhabited Symbol] (undoes : a.Undoes (List Symbol) b) : a.key = b.key := by
  let c : Option Key → Ciphers Key (List Symbol) := fun key =>
    ⟨fun k => if some k = key then .identity else .tagged default, .identity⟩
  have encode : ∀ key (t : Transform Key) text,
      ((c key).coding t).encode text = if t.key = none ∨ t.key = key then text else default :: text := by
    rintro key ⟨none | k, compress⟩ text
    · cases compress <;> rfl
    · simp only [Ciphers.coding, c, ite_self, Option.elim_some, reduceCtorEq, false_or]
      split <;> rfl
  have decode : ∀ key (t : Transform Key) text,
      ((c key).coding t).decode text = if t.key = none ∨ t.key = key then text else text.tail := by
    rintro key ⟨none | k, compress⟩ text
    · cases compress <;> rfl
    · simp only [Ciphers.coding, c, ite_self, Option.elim_some, reduceCtorEq, false_or]
      split <;> rfl
  by_contra different
  cases held : a.key with
  | none =>
    have nothing := undoes (c none) []
    have isKeyed : ¬(b.key = none ∨ b.key = none) := by
      rw [or_self]
      exact fun none => different (held.trans none.symm)
    rw [encode, decode, if_pos (.inl held), if_neg isKeyed] at nothing
    cases nothing
  | some k =>
    have one := undoes (c b.key) [default]
    have isOther : ¬(a.key = none ∨ a.key = b.key) := by
      rw [held]
      rintro (none | same)
      · cases none
      · exact different (held.trans same)
    rw [encode, decode, if_neg isOther, if_pos (.inr rfl)] at one
    cases one

theorem undoes_iff [DecidableEq Key] [Inhabited Symbol] : a.Undoes (List Symbol) b ↔ a = b := by
  constructor
  · intro undoes
    cases a with
    | mk key compress =>
      cases b with
      | mk otherKey otherCompress =>
        obtain rfl : key = otherKey := undoes.key_eq
        obtain rfl : compress = otherCompress := undoes.compress_eq
        rfl
  · rintro rfl
    exact undoes_self a

end Lists

end Transform

end Nfrp.Lib
