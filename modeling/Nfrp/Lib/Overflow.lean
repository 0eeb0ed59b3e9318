import Nfrp.Lib.Serial

/-!
# Arithmetic with overflow checks

The operations of machine integers as a build with overflow checks runs them: `none` is the
panic, and whatever is returned is the result of the wrapping operation.
-/

namespace Nfrp.Lib

variable {w : Nat} {x y z : BitVec w}

def plus (x y : BitVec w) : Option (BitVec w) :=
  if x.uaddOverflow y then none else some (x + y)

def times (x y : BitVec w) : Option (BitVec w) :=
  if x.umulOverflow y then none else some (x * y)

def plusSigned (x y : BitVec w) : Option (BitVec w) :=
  if x.saddOverflow y then none else some (x + y)

def minusSigned (x y : BitVec w) : Option (BitVec w) :=
  if x.ssubOverflow y then none else some (x - y)

def negateSigned (x : BitVec w) : Option (BitVec w) :=
  if x.negOverflow then none else some (-x)

theorem plus_eq_some : plus x y = some z ↔ x.toNat + y.toNat < 2 ^ w ∧ x + y = z := by
  simp [plus, BitVec.uaddOverflow]

theorem times_eq_some : times x y = some z ↔ x.toNat * y.toNat < 2 ^ w ∧ x * y = z := by
  simp [times, BitVec.umulOverflow]

theorem plusSigned_of_range (lower : -2 ^ (w - 1) ≤ x.toInt + y.toInt) (upper : x.toInt + y.toInt < 2 ^ (w - 1)) :
    plusSigned x y = some (x + y) ∧ (x + y).toInt = x.toInt + y.toInt := by
  have fits : ¬ x.saddOverflow y := by
    simp only [BitVec.saddOverflow, Bool.or_eq_true, decide_eq_true_eq]
    omega
  exact ⟨if_neg fits, BitVec.toInt_add_of_not_saddOverflow fits⟩

theorem minusSigned_of_range (lower : -2 ^ (w - 1) ≤ x.toInt - y.toInt) (upper : x.toInt - y.toInt < 2 ^ (w - 1)) :
    minusSigned x y = some (x - y) ∧ (x - y).toInt = x.toInt - y.toInt := by
  have fits : ¬ x.ssubOverflow y := by
    simp only [BitVec.ssubOverflow, Bool.or_eq_true, decide_eq_true_eq]
    omega
  exact ⟨if_neg fits, BitVec.toInt_sub_of_not_ssubOverflow fits⟩

theorem negateSigned_of_ne (above : -2 ^ (w - 1) < x.toInt) :
    negateSigned x = some (-x) ∧ (-x).toInt = -x.toInt := by
  have fits : ¬ x.negOverflow := by
    simp only [BitVec.negOverflow, beq_iff_eq]
    exact ne_of_gt above
  exact ⟨if_neg fits, BitVec.toInt_neg_of_not_negOverflow fits⟩

/-- A step from one number a fraction of the way to another stays between them. -/
theorem add_tdiv_sub_mem {a b n m : Int} (n_pos : 0 < n) (a_nonneg : 0 ≤ a) (b_nonneg : 0 ≤ b) (a_lt : a < m)
    (b_lt : b < m) : 0 ≤ a + (b - a).tdiv n ∧ a + (b - a).tdiv n < m := by
  rcases le_total a b with forward | backward
  · have bound := Int.tdiv_le_self n (sub_nonneg.mpr forward)
    have step := Int.tdiv_nonneg (sub_nonneg.mpr forward) n_pos.le
    omega
  · have bound := Int.tdiv_le_self n (sub_nonneg.mpr backward)
    have step := Int.tdiv_nonneg (sub_nonneg.mpr backward) n_pos.le
    have opposite : (b - a).tdiv n = -(a - b).tdiv n := by
      rw [← Int.neg_tdiv, neg_sub]
    omega

/-! ## Sums in one's complement

The sum of 16-bit words with the carry brought back in, word by word.  It depends on the plain
sum only, of which it is the remainder by 65535 that is zero for zero alone.
-/

/-- The carry out of the upper end comes back in at the lower. -/
def onesAdd (x y : Nat) : Nat := (x + y) % 65536 + (x + y) / 65536

def onesSum (ws : List Nat) : Nat := ws.foldl onesAdd 0

/-- The remainder by 65535, from 1 to 65535 where the number is not zero. -/
def residue (sum : Nat) : Nat := if sum = 0 then 0 else (sum - 1) % 65535 + 1

theorem residue_le (sum : Nat) : residue sum ≤ 65535 := by
  unfold residue
  split <;> omega

theorem onesAdd_residue (sum : Nat) {w : Nat} (isWord : w < 65536) : onesAdd (residue sum) w = residue (sum + w) := by
  unfold onesAdd residue
  split <;> split <;> omega

theorem onesSum_eq_residue {ws : List Nat} (areWords : ∀ w ∈ ws, w < 65536) : onesSum ws = residue ws.sum := by
  have general : ∀ sum, ws.foldl onesAdd (residue sum) = residue (sum + ws.sum) := by
    induction ws with
    | nil => simp
    | cons w ws ih =>
      intro sum
      rw [List.foldl_cons, onesAdd_residue sum (areWords w List.mem_cons_self), List.sum_cons, ← Nat.add_assoc]
      apply ih
      exact fun other later => areWords other (List.mem_cons_of_mem w later)
  have whole := general 0
  rwa [Nat.zero_add] at whole

/-- A sum that lost its carries beyond 32 bits is another one: each of them counts for one. -/
theorem residue_mod_eq_iff {sum : Nat} (bounded : sum < 65535 * 2 ^ 32) :
    residue (sum % 2 ^ 32) = residue sum ↔ sum < 2 ^ 32 := by
  constructor
  · intro same
    unfold residue at same
    split at same <;> split at same <;> omega
  · intro small
    rw [Nat.mod_eq_of_lt small]

end Nfrp.Lib
