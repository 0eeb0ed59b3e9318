import Nfrp.Lib.Checked

/-!
# Parsing a buffer by index

A parser that indexes a buffer rejects what it is given, or panics where an index is out of range.
`Safe` says that a computation does not panic and what it computes; `At` says what a buffer holds
from an index on, and each read moves it along.
-/

namespace Nfrp.Lib

universe u

inductive Fault where
  | outOfRange
  | rejected (text : String)
  deriving DecidableEq, Repr

variable {α β : Type u}

def reject (text : String) : Except Fault α := .error (.rejected text)

def byteAt (buf : List UInt8) (i : Nat) : Except Fault UInt8 :=
  match buf[i]? with
  | some byte => .ok byte
  | none => .error .outOfRange

def beAt (width : Nat) (buf : List UInt8) (i : Nat) : Except Fault Nat :=
  match slice buf i (i + width) with
  | some bytes => .ok (ofBeBytes bytes)
  | none => .error .outOfRange

def bytesAt (buf : List UInt8) (start stop : Nat) : Except Fault (List UInt8) :=
  match slice buf start stop with
  | some bytes => .ok bytes
  | none => .error .outOfRange

theorem byteAt_eq_ok_iff {buf : List UInt8} {i : Nat} {byte : UInt8} : byteAt buf i = .ok byte ↔ buf[i]? = some byte := by
  rw [byteAt]
  cases buf[i]? with
  | none =>
    constructor
    · intro isByte
      cases isByte
    · intro isByte
      cases isByte
  | some found =>
    constructor
    · intro isByte
      rw [Except.ok.inj isByte]
    · intro isByte
      rw [Option.some.inj isByte]

theorem exists_beAt {width i : Nat} {buf : List UInt8} (inside : i + width ≤ buf.length) :
    ∃ n, beAt width buf i = .ok n := by
  rw [beAt, slice_of_le (Nat.le_add_right i width) inside]
  exact ⟨_, rfl⟩

theorem le_of_bytesAt {start stop : Nat} {buf bytes : List UInt8} (isThere : bytesAt buf start stop = .ok bytes) :
    stop ≤ buf.length := by
  rw [bytesAt, slice] at isThere
  split at isThere
  · next found =>
    split at found
    · next inside => exact inside.2
    · cases found
  · cases isThere

def Safe (computed : Except Fault α) (post : α → Prop) : Prop :=
  match computed with
  | .ok value => post value
  | .error .outOfRange => False
  | .error (.rejected _) => True

variable {post : α → Prop} {later : β → Prop} {buf : List UInt8} {i stop width : Nat}

theorem Safe.ne_outOfRange {computed : Except Fault α} (safe : Safe computed post) : computed ≠ .error .outOfRange := by
  rintro rfl
  exact safe

theorem Safe.of_eq_ok {computed : Except Fault α} {value : α} (safe : Safe computed post) (isValue : computed = .ok value) :
    post value := by
  subst isValue
  exact safe

theorem safe_ok {value : α} (holds : post value) : Safe (.ok value) post := holds

theorem safe_reject (text : String) : Safe (reject text) post := trivial

theorem Safe.bind {computed : Except Fault α} {rest : α → Except Fault β} (safe : Safe computed post)
    (goesOn : ∀ value, post value → Safe (rest value) later) : Safe (computed >>= rest) later := by
  cases computed with
  | ok value => exact goesOn value safe
  | error fault =>
    cases fault with
    | outOfRange => exact safe.elim
    | rejected text => exact trivial

theorem ok_bind (value : α) (rest : α → Except Fault β) : (Except.ok value >>= rest) = rest value := rfl

theorem safe_byteAt (inside : i < buf.length) : Safe (byteAt buf i) fun _ => True := by
  rw [byteAt, List.getElem?_eq_getElem inside]
  exact trivial

theorem safe_beAt (inside : i + width ≤ buf.length) : Safe (beAt width buf i) fun _ => True := by
  rw [beAt, slice_of_le (Nat.le_add_right i width) inside]
  exact trivial

theorem safe_bytesAt (order : i ≤ stop) (inside : stop ≤ buf.length) :
    Safe (bytesAt buf i stop) fun bytes => bytes.length = stop - i := by
  rw [bytesAt, slice_of_le order inside]
  apply safe_ok
  rw [List.length_take, List.length_drop]
  omega

def At (buf : List UInt8) (i : Nat) (rest : List UInt8) : Prop := ∃ front, front.length = i ∧ buf = front ++ rest

theorem at_append (front rest : List UInt8) : At (front ++ rest) front.length rest := ⟨front, rfl, rfl⟩

variable {field rest : List UInt8} {byte : UInt8} {n : Nat}

theorem At.length (holds : At buf i rest) : buf.length = i + rest.length := by
  obtain ⟨front, rfl, rfl⟩ := holds
  rw [List.length_append]

theorem At.behind (holds : At buf i (field ++ rest)) {j : Nat} (isBehind : j = i + field.length) : At buf j rest := by
  obtain ⟨front, rfl, rfl⟩ := holds
  exact ⟨front ++ field, by rw [List.length_append, isBehind], (List.append_assoc _ _ _).symm⟩

theorem At.next (holds : At buf i (byte :: rest)) : At buf (i + 1) rest := @At.behind _ _ [byte] rest holds _ rfl

theorem At.byteAt (holds : At buf i (byte :: rest)) : byteAt buf i = .ok byte := by
  obtain ⟨front, rfl, rfl⟩ := holds
  rw [Lib.byteAt, List.getElem?_append_right (Nat.le_refl _), Nat.sub_self, List.getElem?_cons_zero]

theorem At.bytesAt (holds : At buf i (field ++ rest)) (isStop : stop = i + field.length) :
    bytesAt buf i stop = .ok field := by
  obtain ⟨front, rfl, rfl⟩ := holds
  rw [Lib.bytesAt, slice_field rfl isStop.symm]

theorem At.beAt (holds : At buf i (beBytes width n ++ rest)) (fits : n < 256 ^ width) : beAt width buf i = .ok n := by
  obtain ⟨front, rfl, rfl⟩ := holds
  rw [Lib.beAt, slice_field rfl (by rw [length_beBytes])]
  exact congrArg Except.ok (ofBeBytes_beBytes_of_lt fits)

end Nfrp.Lib
