import Nfrp.Lib.Bytes

/-!
Operations that abort.

Where a machine word overflows or a range runs past the end there is no result,
and a computation made of such operations has one only if all of them have.
-/

namespace Nfrp.Lib

/-- The sum of two machine words, unless it overflows. -/
def checkedAdd (width first second : Nat) : Option Nat :=
  if first + second < 2 ^ width then some (first + second) else none

theorem checkedAdd_of_lt {width first second : Nat} (fits : first + second < 2 ^ width) :
    checkedAdd width first second = some (first + second) :=
  if_pos fits

/-- The difference of two machine words, unless it would be negative. -/
def checkedSub (first second : Nat) : Option Nat :=
  if second ≤ first then some (first - second) else none

theorem checkedSub_of_le {first second : Nat} (covers : second ≤ first) :
    checkedSub first second = some (first - second) :=
  if_pos covers

theorem slice_of_le {bytes : List UInt8} {start stop : Nat} (order : start ≤ stop) (inside : stop ≤ bytes.length) :
    slice bytes start stop = some ((bytes.drop start).take (stop - start)) :=
  if_pos ⟨order, inside⟩

theorem slice_field {front field rest : List UInt8} {start stop : Nat} (isStart : front.length = start)
    (isStop : start + field.length = stop) : slice (front ++ (field ++ rest)) start stop = some field := by
  have behind : (front ++ (field ++ rest)).drop start = field ++ rest := List.drop_left' isStart
  rw [slice_of_le (by omega), behind]
  · exact congrArg some (List.take_left' (by omega))
  · rw [List.length_append, List.length_append]
    omega

/-- What remains after the front of that length is removed. -/
def checkedDrain (bytes : List UInt8) (length : Nat) : Option (List UInt8) :=
  slice bytes length bytes.length

theorem checkedDrain_of_le {bytes : List UInt8} {length : Nat} (inside : length ≤ bytes.length) :
    checkedDrain bytes length = some (bytes.drop length) := by
  rw [checkedDrain, slice_of_le inside (Nat.le_refl _), ← List.length_drop, List.take_length]

section

universe u v w

variable {Error : Type u} {Other : Type w} {Result Next : Type v}

theorem bind_eq_ok_iff {first : Except Error Result} {rest : Result → Except Error Next} {last : Next} :
    first >>= rest = .ok last ↔ ∃ value, first = .ok value ∧ rest value = .ok last := by
  cases first with
  | error e => exact ⟨nofun, nofun⟩
  | ok value =>
    constructor
    · intro succeeded
      exact ⟨value, rfl, succeeded⟩
    · rintro ⟨other, same, succeeded⟩
      obtain rfl := Except.ok.inj same
      exact succeeded

theorem map_eq_ok_iff {first : Except Error Result} {f : Result → Next} {last : Next} :
    first.map f = .ok last ↔ ∃ value, first = .ok value ∧ f value = last := by
  cases first with
  | error e => exact ⟨nofun, nofun⟩
  | ok value => simp [Except.map]

theorem mapError_eq_ok_iff {first : Except Error Result} {f : Error → Other} {value : Result} :
    first.mapError f = .ok value ↔ first = .ok value := by
  cases first with
  | error e => exact ⟨nofun, nofun⟩
  | ok other =>
    constructor
    · intro same
      rw [Except.ok.inj same]
    · intro same
      rw [Except.ok.inj same]
      rfl

end

end Nfrp.Lib
