import Mathlib.Data.Nat.Digits.Lemmas

/-!
Fixed-width integers as byte strings, in both byte orders.

A width-`n` encoding keeps the value modulo `256 ^ n`, as a machine integer of
that width does, and every byte string is the encoding of what it decodes to.
-/

namespace Nfrp.Lib

/-- The `width` low bytes of a number, least significant first. -/
def leBytes : (width : Nat) → Nat → List UInt8
  | 0, _ => []
  | width + 1, value => UInt8.ofNat value :: leBytes width (value / 256)

/-- The number whose bytes are given least significant first. -/
def ofLeBytes : List UInt8 → Nat
  | [] => 0
  | byte :: rest => byte.toNat + 256 * ofLeBytes rest

/-- The `width` low bytes of a number, most significant first. -/
def beBytes (width value : Nat) : List UInt8 :=
  (leBytes width value).reverse

/-- The number whose bytes are given most significant first. -/
def ofBeBytes (bytes : List UInt8) : Nat :=
  ofLeBytes bytes.reverse

@[simp]
theorem length_leBytes (width value : Nat) : (leBytes width value).length = width := by
  induction width generalizing value with
  | zero => rfl
  | succ width ih => simp [leBytes, ih]

@[simp]
theorem length_beBytes (width value : Nat) : (beBytes width value).length = width := by
  simp [beBytes]

theorem ofLeBytes_lt (bytes : List UInt8) : ofLeBytes bytes < 256 ^ bytes.length := by
  induction bytes with
  | nil => simp [ofLeBytes]
  | cons byte rest ih =>
    have byteBound := byte.toNat_lt
    simp only [ofLeBytes, List.length_cons, pow_succ]
    omega

@[simp]
theorem ofLeBytes_leBytes (width value : Nat) :
    ofLeBytes (leBytes width value) = value % 256 ^ width := by
  induction width generalizing value with
  | zero => simp [leBytes, ofLeBytes, Nat.mod_one]
  | succ width ih =>
    have lowByte : (UInt8.ofNat value).toNat = value % 256 := by simp
    rw [leBytes, ofLeBytes, ih, lowByte, Nat.pow_succ,
      Nat.mul_comm (256 ^ width) 256, Nat.mod_mul]

@[simp]
theorem leBytes_ofLeBytes (bytes : List UInt8) :
    leBytes bytes.length (ofLeBytes bytes) = bytes := by
  induction bytes with
  | nil => rfl
  | cons byte rest ih =>
    have byteBound := byte.toNat_lt
    have quotient : (byte.toNat + 256 * ofLeBytes rest) / 256 = ofLeBytes rest := by omega
    have lowByte : UInt8.ofNat (byte.toNat + 256 * ofLeBytes rest) = byte := by
      apply UInt8.toNat_inj.mp
      rw [UInt8.toNat_ofNat']
      omega
    simp only [List.length_cons, leBytes, ofLeBytes, quotient, lowByte, ih]

theorem leBytes_mod (width value : Nat) : leBytes width (value % 256 ^ width) = leBytes width value := by
  rw [← ofLeBytes_leBytes]
  conv => lhs; arg 1; rw [← length_leBytes width value]
  exact leBytes_ofLeBytes _

@[simp]
theorem ofBeBytes_beBytes (width value : Nat) :
    ofBeBytes (beBytes width value) = value % 256 ^ width := by
  simp [ofBeBytes, beBytes]

theorem ofBeBytes_beBytes_of_lt {width value : Nat} (fits : value < 256 ^ width) :
    ofBeBytes (beBytes width value) = value := by
  rw [ofBeBytes_beBytes, Nat.mod_eq_of_lt fits]

theorem beBytes_ofBeBytes {width : Nat} {bytes : List UInt8} (isWide : bytes.length = width) :
    beBytes width (ofBeBytes bytes) = bytes := by
  have whole := leBytes_ofLeBytes bytes.reverse
  rw [List.length_reverse, isWide] at whole
  rw [beBytes, ofBeBytes, whole, List.reverse_reverse]

theorem ofBeBytes_lt {width : Nat} {bytes : List UInt8} (isWide : bytes.length = width) :
    ofBeBytes bytes < 256 ^ width := by
  have bound := ofLeBytes_lt bytes.reverse
  rwa [List.length_reverse, isWide] at bound

/-- The checked slice `bytes[start..stop]`; `none` is the panic of a range that
is reversed or runs past the end. -/
def slice (bytes : List UInt8) (start stop : Nat) : Option (List UInt8) :=
  if start ≤ stop ∧ stop ≤ bytes.length then
    some ((bytes.drop start).take (stop - start))
  else
    none

/-- The little-endian number in the `width` bytes at `start`. -/
def readLe (width : Nat) (bytes : List UInt8) (start : Nat) : Option Nat :=
  (slice bytes start (start + width)).map ofLeBytes

theorem slice_eq_some_iff {bytes piece : List UInt8} {start stop : Nat} (order : start ≤ stop) :
    slice bytes start stop = some piece ↔
      piece.length = stop - start ∧ stop ≤ bytes.length ∧
        bytes.drop start = piece ++ bytes.drop stop := by
  have split : bytes.drop start =
      (bytes.drop start).take (stop - start) ++ bytes.drop stop := by
    have rejoined := List.take_append_drop (stop - start) (bytes.drop start)
    rw [List.drop_drop, Nat.add_sub_cancel' order] at rejoined
    exact rejoined.symm
  unfold slice
  constructor
  · intro h
    split at h
    next inside =>
      cases h
      exact ⟨by simp; omega, inside.2, split⟩
    next outside => simp at h
  · rintro ⟨length, inside, tail⟩
    rw [if_pos ⟨order, inside⟩, tail, ← length, List.take_left]

theorem readLe_eq_some_iff {width start value : Nat} {bytes : List UInt8} :
    readLe width bytes start = some value ↔
      value < 256 ^ width ∧ start + width ≤ bytes.length ∧
        bytes.drop start = leBytes width value ++ bytes.drop (start + width) := by
  unfold readLe
  rw [Option.map_eq_some_iff]
  constructor
  · rintro ⟨piece, found, rfl⟩
    obtain ⟨length, inside, tail⟩ := (slice_eq_some_iff (by omega)).mp found
    have width_eq : piece.length = width := by omega
    subst width_eq
    exact ⟨ofLeBytes_lt piece, inside, by rw [leBytes_ofLeBytes]; exact tail⟩
  · rintro ⟨bound, inside, tail⟩
    refine ⟨leBytes width value, (slice_eq_some_iff (by omega)).mpr ⟨by simp, inside, tail⟩, ?_⟩
    rw [ofLeBytes_leBytes, Nat.mod_eq_of_lt bound]

theorem readLe_of_le {width start : Nat} {bytes : List UInt8} (inside : start + width ≤ bytes.length) :
    ∃ value, readLe width bytes start = some value := by
  simp [readLe, slice, inside]

theorem getElem?_eq_some_iff_drop {bytes : List UInt8} {i : Nat} {byte : UInt8} :
    bytes[i]? = some byte ↔ bytes.drop i = byte :: bytes.drop (i + 1) := by
  constructor
  · intro h
    obtain ⟨bound, rfl⟩ := List.getElem?_eq_some_iff.mp h
    exact List.drop_eq_getElem_cons bound
  · intro h
    have first := congrArg (fun rest => rest[0]?) h
    simpa using first

/-- A field at the front of a stream, once all of it has arrived. -/
theorem exists_of_front {α : Type} {field later arrived : List α} (isFront : arrived <+: field ++ later)
    (enough : field.length ≤ arrived.length) : ∃ after, arrived = field ++ after ∧ after <+: later := by
  obtain ⟨after, rfl⟩ := List.prefix_of_prefix_length_le (List.prefix_append field later) isFront enough
  exact ⟨after, rfl, (List.prefix_append_right_inj _).mp isFront⟩

end Nfrp.Lib
