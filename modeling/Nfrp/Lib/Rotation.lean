import Mathlib.Algebra.Order.BigOperators.Group.Finset
import Mathlib.Data.Int.CardIntervalMod

/-!
# Taking turns

Consecutive numbers meet each residue in turn, so of any `k` of them each of the `n` residues is
met `k / n` times, rounded down or up.  Where the highest score is served and then loses a point,
nobody is passed over more often than the scores of the others allow.
-/

namespace Nfrp.Lib

def turns (n start k : Nat) : List Nat := (List.range k).map fun j => (start + j) % n

theorem turns_one (n start : Nat) : turns n start 1 = [start % n] := rfl

theorem turns_add (n start m k : Nat) : turns n start (m + k) = turns n start m ++ turns n (start + m) k := by
  rw [turns, List.range_add, List.map_append, List.map_map, turns, turns]
  congr 1
  apply List.map_congr_left
  intro j _
  rw [Function.comp_apply, Nat.add_assoc]

theorem turns_congr {n start other : Nat} (same : start ≡ other [MOD n]) (k : Nat) :
    turns n start k = turns n other k := by
  apply List.map_congr_left
  intro j _
  exact same.add_right j

/-- A counter that wraps goes on taking turns until it does, and beyond where `n` divides its
range. -/
theorem turns_wrapped {n start m k range : Nat} (unwrapped : start + (m + k) ≤ range ∨ n ∣ range) :
    turns n ((start + m) % range) k = turns n (start + m) k := by
  rcases unwrapped with small | divides
  · cases k with
    | zero => rfl
    | succ k => rw [Nat.mod_eq_of_lt (Nat.lt_of_lt_of_le (by omega) small)]
  · exact turns_congr (Nat.mod_mod_of_dvd _ divides) k

/-- So many of `k` for each of `n`. -/
def IsShare (k n used : Nat) : Prop := used = k / n ∨ used = (k + n - 1) / n

theorem turn_iff {n i : Nat} (start j : Nat) (inside : i < n) :
    (start + j) % n = i ↔ j ≡ i + (n - start % n) [MOD n] := by
  have positive : 0 < n := Nat.zero_lt_of_lt inside
  have back : start + (i + (n - start % n)) ≡ i [MOD n] := by
    have small := Nat.mod_lt start positive
    have whole := Nat.div_add_mod start n
    have sum : start + (i + (n - start % n)) = i + n * (start / n + 1) := by
      rw [Nat.mul_succ]
      omega
    rw [sum]
    exact Nat.add_mul_mod_self_left i n _
  constructor
  · intro isTurn
    apply Nat.ModEq.add_left_cancel' start
    have reached : start + j ≡ i [MOD n] := by
      rw [Nat.ModEq, isTurn, Nat.mod_eq_of_lt inside]
    exact reached.trans back.symm
  · intro isLate
    have reached : start + j ≡ i [MOD n] := (isLate.add_left start).trans back
    rwa [Nat.ModEq, Nat.mod_eq_of_lt inside] at reached

theorem isShare_turns {n i : Nat} (start k : Nat) (inside : i < n) : IsShare k n ((turns n start k).count i) := by
  have positive : 0 < n := Nat.zero_lt_of_lt inside
  have counted : (turns n start k).count i = k.count (· ≡ i + (n - start % n) [MOD n]) := by
    rw [turns, List.count_eq_countP, List.countP_map]
    apply List.countP_congr
    intro j _
    simp [turn_iff start j inside]
  rw [counted, Nat.count_modEq_card k positive]
  split
  · next extra =>
    right
    have rest : 0 < k % n := Nat.zero_lt_of_lt extra
    have whole := Nat.div_add_mod k n
    have rounded : k + n - 1 = n * (k / n + 1) + (k % n - 1) := by
      rw [Nat.mul_succ]
      omega
    have small : k % n - 1 < n := Nat.lt_of_le_of_lt (Nat.sub_le _ _) (Nat.mod_lt k positive)
    rw [rounded, Nat.mul_add_div positive, Nat.div_eq_of_lt small, Nat.add_zero]
  · exact .inl rfl

section

universe u

variable {ι : Type u} [DecidableEq ι] {s : Finset ι} {score later : ι → ℤ} {i k : ι}

/-- How often the others may be served before `i`, a point each time. -/
def lead (s : Finset ι) (score : ι → ℤ) (i : ι) : ℕ := ∑ j ∈ s.erase i, (score j - score i + 1).toNat

theorem lead_of_served (member : k ∈ s) (other : k ≠ i) (highest : score i ≤ score k) (served : later k = score k - 1)
    (same : ∀ j, j ≠ k → later j = score j) : lead s later i + 1 = lead s score i := by
  have inside : k ∈ s.erase i := Finset.mem_erase.mpr ⟨other, member⟩
  have others : ∑ j ∈ (s.erase i).erase k, (later j - later i + 1).toNat =
      ∑ j ∈ (s.erase i).erase k, (score j - score i + 1).toNat := by
    apply Finset.sum_congr rfl
    intro j isOther
    rw [same j (Finset.ne_of_mem_erase isOther), same i other.symm]
  have point : (later k - later i + 1).toNat + 1 = (score k - score i + 1).toNat := by
    rw [served, same i other.symm]
    omega
  rw [lead, lead, ← Finset.add_sum_erase _ _ inside, ← Finset.add_sum_erase _ _ inside, others, ← point]
  omega

/-- A score that rises puts its owner ahead by no more than that. -/
theorem lead_of_raised {d : ℕ} (risen : score k ≤ later k ∧ later k ≤ score k + d)
    (same : ∀ j, j ≠ k → later j = score j) : lead s later i ≤ lead s score i + d := by
  have lower : score i ≤ later i := by
    by_cases own : i = k
    · exact own ▸ risen.1
    · exact (same i own).ge
  have others : ∀ t : Finset ι, k ∉ t →
      ∑ j ∈ t, (later j - later i + 1).toNat ≤ ∑ j ∈ t, (score j - score i + 1).toNat := by
    intro t outside
    apply Finset.sum_le_sum
    intro j member
    rw [same j (ne_of_mem_of_not_mem member outside)]
    omega
  by_cases inside : k ∈ s.erase i
  · have rest := others ((s.erase i).erase k) (Finset.notMem_erase k _)
    rw [lead, lead, ← Finset.add_sum_erase _ _ inside, ← Finset.add_sum_erase _ _ inside]
    omega
  · exact (others _ inside).trans (Nat.le_add_right _ _)

/-- Scores that are close leave little room. -/
theorem lead_le {d : ℕ} (member : i ∈ s) (close : ∀ j ∈ s, score j ≤ score i + d) :
    lead s score i + (d + 1) ≤ s.card * (d + 1) := by
  have each : ∀ j ∈ s.erase i, (score j - score i + 1).toNat ≤ d + 1 := by
    intro j isOther
    have near := close j (Finset.mem_of_mem_erase isOther)
    omega
  have bounded := Finset.sum_le_card_nsmul _ _ _ each
  rw [← Finset.card_erase_add_one member, Nat.succ_mul]
  exact Nat.add_le_add_right bounded _

end

end Nfrp.Lib
