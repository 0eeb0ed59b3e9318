import Mathlib.Algebra.Ring.Nat
import Mathlib.Data.List.Basic

/-!
Output on its way out.

What is to be written waits in a buffer behind a position.  An attempt to write
it gets as far as the stream underneath allows and leaves the rest for the next
attempt.
-/

namespace Nfrp.Lib

universe u v w

inductive Poll (α : Type u) where
  | pending
  | ready (value : α)
  | error (message : String)
  deriving DecidableEq, Repr

def Poll.getD {α : Type u} : Poll α → α → α
  | .ready value, _ => value
  | .pending, default | .error _, default => default

/-- What a poll returns, what it wrote, and the stream after it. -/
structure Wrote (Stream : Type u) (Item : Type v) (Value : Type w) where
  poll : Poll Value
  written : List Item
  stream : Stream

structure Outbox (α : Type u) where
  bytes : List α
  pos : Nat
  inBounds : pos ≤ bytes.length

namespace Outbox

variable {α : Type u}

def ofList (bytes : List α) : Outbox α where
  bytes := bytes
  pos := 0
  inBounds := Nat.zero_le _

def rest (box : Outbox α) : List α :=
  box.bytes.drop box.pos

def extend (box : Outbox α) (more : List α) : Outbox α where
  bytes := box.bytes ++ more
  pos := box.pos
  inBounds := Nat.le_trans box.inBounds (by simp)

def advance (box : Outbox α) (n : Nat) : Outbox α where
  bytes := box.bytes
  pos := min (box.pos + n) box.bytes.length
  inBounds := Nat.min_le_right _ _

/-- Write until everything is written, or the stream underneath stops taking.
`taken` is what it takes at each attempt, none meaning that it fails, which is
reported as `refused`; after that it is not ready. -/
def drain (refused : String) : (taken : List Nat) → Outbox α → Wrote (Outbox α) α Unit
  | [], box => if box.rest = [] then ⟨.ready (), [], ofList []⟩ else ⟨.pending, [], box⟩
  | n :: taken, box =>
    if box.rest = [] then ⟨.ready (), [], ofList []⟩
    else if n = 0 then ⟨.error refused, [], box⟩
    else
      let later := drain refused taken (box.advance n)
      ⟨later.poll, box.rest.take n ++ later.written, later.stream⟩

@[simp]
theorem rest_ofList (bytes : List α) : (ofList bytes).rest = bytes := rfl

@[simp]
theorem rest_extend (box : Outbox α) (more : List α) : (box.extend more).rest = box.rest ++ more :=
  List.drop_append_of_le_length box.inBounds

@[simp]
theorem rest_advance (box : Outbox α) (n : Nat) : (box.advance n).rest = box.rest.drop n := by
  simp only [rest, advance, List.drop_drop]
  by_cases within : box.pos + n ≤ box.bytes.length
  · rw [Nat.min_eq_left within]
  · have beyond := Nat.le_of_not_le within
    rw [Nat.min_eq_right beyond, List.drop_length, List.drop_eq_nil_of_le beyond]

/-- An attempt to write loses nothing and writes nothing twice. -/
theorem drain_written (refused : String) (taken : List Nat) (box : Outbox α) :
    (drain refused taken box).written ++ (drain refused taken box).stream.rest = box.rest := by
  induction taken generalizing box with
  | nil =>
    rw [drain]
    split
    next all => exact all.symm
    · exact List.nil_append _
  | cons n taken ih =>
    rw [drain]
    split
    next all => exact all.symm
    · split
      · exact List.nil_append _
      · rw [List.append_assoc, ih, rest_advance, List.take_append_drop]

theorem drain_ready {refused : String} {taken : List Nat} {box : Outbox α}
    (ready : (drain refused taken box).poll = .ready ()) : (drain refused taken box).stream.rest = [] := by
  induction taken generalizing box with
  | nil =>
    rw [drain] at ready ⊢
    split at ready
    next all => rw [if_pos all, rest_ofList]
    · cases ready
  | cons n taken ih =>
    rw [drain] at ready ⊢
    split at ready
    next all => rw [if_pos all, rest_ofList]
    next more =>
      split at ready
      · cases ready
      next takes =>
        rw [if_neg more, if_neg takes]
        exact ih ready

theorem drain_ne_error (refused : String) {taken : List Nat} (takes : 0 ∉ taken) (box : Outbox α)
    (message : String) : (drain refused taken box).poll ≠ .error message := by
  induction taken generalizing box with
  | nil =>
    rw [drain]
    split <;> exact nofun
  | cons n taken ih =>
    obtain ⟨positive, takes⟩ := List.ne_and_not_mem_of_not_mem_cons takes
    rw [drain]
    split
    · exact nofun
    · rw [if_neg positive.symm]
      exact ih takes _

theorem drain_ne_ready (refused : String) {taken : List Nat} {box : Outbox α}
    (short : taken.sum < box.rest.length) : (drain refused taken box).poll ≠ .ready () := by
  induction taken generalizing box with
  | nil =>
    rw [drain, if_neg (List.length_pos_iff.mp short)]
    exact nofun
  | cons n taken ih =>
    rw [List.sum_cons] at short
    have more : box.rest ≠ [] := List.length_pos_iff.mp (by omega)
    rw [drain, if_neg more]
    split
    · exact nofun
    · apply ih
      rw [rest_advance, List.length_drop]
      omega

end Outbox

end Nfrp.Lib
