import Mathlib.Data.BitVec
import Mathlib.Data.List.Range

/-!
Serial-number arithmetic on `w`-bit words.

Two numbers are compared through the sign of their wrapped difference, so the
order is only meaningful inside half of the number circle.  The offset of a
number from a base is its unsigned distance ahead of it; inside a half circle
the signed difference of two numbers is the difference of their offsets, which
reduces every question about a sliding window to natural numbers.
-/

namespace Nfrp.Lib

variable {w : Nat}

/-- How far `x` lies ahead of `base` on the number circle. -/
def offset (base x : BitVec w) : Nat :=
  (x - base).toNat

/-- `x` comes strictly before `y` in the half-range order. -/
def Before (x y : BitVec w) : Prop :=
  (x - y).toInt < 0

instance (x y : BitVec w) : Decidable (Before x y) :=
  inferInstanceAs (Decidable ((x - y).toInt < 0))

theorem toInt_sub_of_lt {x y : BitVec w} (hx : 2 * x.toNat < 2 ^ w)
    (hy : 2 * y.toNat < 2 ^ w) : (x - y).toInt = (x.toNat : Int) - y.toNat := by
  rw [BitVec.toInt_eq_toNat_cond, BitVec.toNat_sub]
  generalize 2 ^ w = size at *
  by_cases h : y.toNat ≤ x.toNat
  · have wrapped : (size - y.toNat + x.toNat) % size = x.toNat - y.toNat := by
      rw [show size - y.toNat + x.toNat = (x.toNat - y.toNat) + size by omega,
        Nat.add_mod_right, Nat.mod_eq_of_lt (by omega)]
    rw [wrapped, if_pos (by omega)]
    omega
  · have wrapped : (size - y.toNat + x.toNat) % size = size - y.toNat + x.toNat :=
      Nat.mod_eq_of_lt (by omega)
    rw [wrapped, if_neg (by omega)]
    omega

/-- Inside half of the circle the signed difference is the difference of the
offsets from any common base. -/
theorem toInt_sub_eq_offset_sub {base x y : BitVec w} (hx : 2 * offset base x < 2 ^ w)
    (hy : 2 * offset base y < 2 ^ w) :
    (x - y).toInt = (offset base x : Int) - offset base y := by
  have rebased : x - y = (x - base) - (y - base) := by simp
  rw [rebased]
  exact toInt_sub_of_lt hx hy

@[simp]
theorem offset_self (base : BitVec w) : offset base base = 0 := by
  simp [offset]

theorem offset_inj {base x y : BitVec w} : offset base x = offset base y ↔ x = y := by
  simp only [offset, BitVec.toNat_inj]
  constructor
  · intro h
    simpa using congrArg (· + base) h
  · rintro rfl
    rfl

/-- Advancing the base shortens the offset of everything at or beyond it. -/
theorem offset_advance {base next x : BitVec w} (h : offset base next ≤ offset base x) :
    offset next x = offset base x - offset base next := by
  have rebased : x - next = (x - base) - (next - base) := by simp
  unfold offset at *
  rw [rebased, BitVec.toNat_sub_of_le h]

theorem offset_base_add (base distance : BitVec w) :
    offset base (base + distance) = distance.toNat := by
  have shifted : base + distance - base = distance := by
    rw [BitVec.add_comm, BitVec.add_sub_cancel]
  rw [offset, shifted]

theorem offset_add_one {base x : BitVec w} (h : offset base x + 1 < 2 ^ w) :
    offset base (x + 1) = offset base x + 1 := by
  have shifted : x + 1 - base = (x - base) + 1 := by
    rw [BitVec.sub_eq_add_neg, BitVec.sub_eq_add_neg, BitVec.add_assoc, BitVec.add_comm 1,
      ← BitVec.add_assoc]
  have unit : (1 : BitVec w).toNat = 1 := by
    change (BitVec.ofNat w 1).toNat = 1
    rw [BitVec.toNat_ofNat]
    exact Nat.mod_eq_of_lt (by omega)
  unfold offset at *
  rw [shifted, BitVec.toNat_add, unit, Nat.mod_eq_of_lt h]

theorem add_one_add_ofNat (x : BitVec w) (n : Nat) :
    x + 1 + BitVec.ofNat w n = x + BitVec.ofNat w (n + 1) := by
  rw [BitVec.ofNat_add, BitVec.add_assoc, BitVec.add_comm 1]
  rfl

theorem add_ofNat_add_one (x : BitVec w) (n : Nat) :
    x + BitVec.ofNat w n + 1 = x + BitVec.ofNat w (n + 1) := by
  rw [BitVec.ofNat_add, BitVec.add_assoc]
  rfl

/-- Numbers counted from a base are told apart as long as the count fits. -/
theorem add_ofNat_inj {base : BitVec w} {m n : Nat} (hm : m < 2 ^ w) (hn : n < 2 ^ w) :
    base + BitVec.ofNat w m = base + BitVec.ofNat w n ↔ m = n := by
  rw [BitVec.add_right_inj]
  constructor
  · intro same
    simpa [Nat.mod_eq_of_lt hm, Nat.mod_eq_of_lt hn] using congrArg BitVec.toNat same
  · rintro rfl
    rfl

theorem toInt_sub_nonneg_iff {base x : BitVec w} :
    0 ≤ (x - base).toInt ↔ 2 * offset base x < 2 ^ w := by
  rw [offset, BitVec.toInt_eq_toNat_cond]
  have bound := (x - base).isLt
  split <;> omega

theorem toInt_sub_pos_iff {base x : BitVec w} :
    0 < (x - base).toInt ↔ 0 < offset base x ∧ 2 * offset base x < 2 ^ w := by
  rw [offset, BitVec.toInt_eq_toNat_cond]
  have bound := (x - base).isLt
  split <;> omega

/-- The half-range order agrees with the order of the offsets from any base
both numbers are less than half a circle ahead of. -/
theorem before_iff_offset_lt {base x y : BitVec w} (hx : 2 * offset base x < 2 ^ w)
    (hy : 2 * offset base y < 2 ^ w) : Before x y ↔ offset base x < offset base y := by
  rw [Before, toInt_sub_eq_offset_sub hx hy]
  omega

/-- The numbers of a window: strictly increasing from `base`, and less than
`size` ahead of it. -/
def InWindow (base : BitVec w) (size : Nat) (numbers : List (BitVec w)) : Prop :=
  numbers.Pairwise (fun x y => offset base x < offset base y) ∧
    ∀ x ∈ numbers, offset base x < size

namespace InWindow

variable {base : BitVec w} {size : Nat} {numbers : List (BitVec w)}

@[simp]
theorem nil (base : BitVec w) (size : Nat) : InWindow base size [] := by
  simp [InWindow]

theorem sublist {kept : List (BitVec w)} (window : InWindow base size numbers)
    (h : kept.Sublist numbers) : InWindow base size kept :=
  ⟨window.1.sublist h, fun x membership => window.2 x (h.subset membership)⟩

theorem mono {larger : Nat} (window : InWindow base size numbers) (h : size ≤ larger) :
    InWindow base larger numbers :=
  ⟨window.1, fun x membership => lt_of_lt_of_le (window.2 x membership) h⟩

theorem nodup (window : InWindow base size numbers) : numbers.Nodup := by
  refine window.1.imp ?_
  rintro x y increasing rfl
  exact lt_irrefl _ increasing

theorem cons_iff {x : BitVec w} :
    InWindow base size (x :: numbers) ↔
      offset base x < size ∧ (∀ y ∈ numbers, offset base x < offset base y) ∧
        InWindow base size numbers := by
  simp only [InWindow, List.pairwise_cons, List.mem_cons, forall_eq_or_imp]
  constructor
  · rintro ⟨⟨first, rest⟩, inside, insideRest⟩
    exact ⟨inside, first, rest, insideRest⟩
  · rintro ⟨inside, first, rest, insideRest⟩
    exact ⟨⟨first, rest⟩, inside, insideRest⟩

theorem append_singleton {x : BitVec w} (window : InWindow base size numbers)
    (beyond : ∀ y ∈ numbers, offset base y < offset base x) (inside : offset base x < size) :
    InWindow base size (numbers ++ [x]) := by
  refine ⟨?_, ?_⟩
  · rw [List.pairwise_append]
    exact ⟨window.1, by simp, by simpa using beyond⟩
  · intro y membership
    rcases List.mem_append.mp membership with inNumbers | isNew
    · exact window.2 y inNumbers
    · rw [List.mem_singleton.mp isNew]
      exact inside

/-- Sliding the base forward to a number no member lies before. -/
theorem advance {next : BitVec w} (window : InWindow base size numbers)
    (ahead : ∀ x ∈ numbers, offset base next ≤ offset base x) :
    InWindow next (size - offset base next) numbers := by
  refine ⟨?_, ?_⟩
  · refine List.Pairwise.imp_of_mem ?_ window.1
    intro x y hx hy increasing
    rw [offset_advance (ahead x hx), offset_advance (ahead y hy)]
    have := ahead x hx
    omega
  · intro x membership
    have inside := window.2 x membership
    rw [offset_advance (ahead x membership)]
    have := ahead x membership
    omega

theorem pop (window : InWindow base size (base :: numbers)) (wide : 1 < 2 ^ w) :
    InWindow (base + 1) size numbers := by
  obtain ⟨-, ahead, rest⟩ := cons_iff.mp window
  have nextOffset : offset base (base + 1) = 1 := by
    rw [offset_add_one (by simpa using wide), offset_self]
  refine (InWindow.advance rest ?_).mono (Nat.sub_le _ _)
  intro x membership
  have later := ahead x membership
  rw [offset_self] at later
  omega

theorem pairwise_before (window : InWindow base size numbers) (narrow : 2 * size ≤ 2 ^ w) :
    numbers.Pairwise Before := by
  refine List.Pairwise.imp_of_mem ?_ window.1
  intro x y hx hy increasing
  have xInside := window.2 x hx
  have yInside := window.2 y hy
  exact (before_iff_offset_lt (by omega) (by omega)).mpr increasing

theorem length_le (window : InWindow base size numbers) : numbers.length ≤ size := by
  have distinct : (numbers.map (offset base)).Nodup :=
    window.nodup.map fun x y => offset_inj.mp
  have bounded : numbers.map (offset base) ⊆ List.range size := by
    intro position membership
    obtain ⟨x, inNumbers, rfl⟩ := List.mem_map.mp membership
    exact List.mem_range.mpr (window.2 x inNumbers)
  simpa using (distinct.subperm bounded).length_le

end InWindow

end Nfrp.Lib
