import Mathlib.Algebra.Order.BigOperators.Group.List
import Mathlib.Algebra.Order.Field.Basic
import Mathlib.Tactic.Linarith

/-!
# What is let through, bounded over time

Amounts are let through at instants.  They keep within an envelope where by every instant no more
is through than a first burst and what the rate makes up for since the beginning.  It is enough
to look at the whole amount each time something is let through.  They are steady where that is so
of every stretch of time, and not of those from the beginning only.
-/

namespace Nfrp.Lib

variable {K : Type} [Field K] [LinearOrder K] [IsStrictOrderedRing K]

structure Release (K : Type) where
  amount : Nat
  instant : K

def total (rs : List (Release K)) : Nat := (rs.map Release.amount).sum

def releasedBy (rs : List (Release K)) (T : K) : Nat := total (rs.filter (·.instant ≤ T))

def Within (burst rate t0 : K) (rs : List (Release K)) : Prop :=
  ∀ T, t0 ≤ T → (releasedBy rs T : K) ≤ burst + rate * (T - t0)

@[simp]
theorem total_nil : total ([] : List (Release K)) = 0 := rfl

@[simp]
theorem total_append (rs : List (Release K)) (r : Release K) : total (rs ++ [r]) = total rs + r.amount := by
  simp [total]

theorem releasedBy_le_total (rs : List (Release K)) (T : K) : releasedBy rs T ≤ total rs := by
  apply List.Sublist.sum_le_sum
  · exact List.filter_sublist.map _
  · simp

theorem releasedBy_append_of_le (rs : List (Release K)) {r : Release K} {T : K} (reached : r.instant ≤ T) :
    releasedBy (rs ++ [r]) T = releasedBy rs T + r.amount := by
  simp [releasedBy, total, List.filter_append, reached]

theorem releasedBy_append_of_lt (rs : List (Release K)) {r : Release K} {T : K} (later : T < r.instant) :
    releasedBy (rs ++ [r]) T = releasedBy rs T := by
  simp [releasedBy, total, List.filter_append, later]

variable {burst rate t0 : K} {rs : List (Release K)}

theorem within_nil (positive : 0 ≤ burst) (advances : 0 ≤ rate) : Within burst rate t0 ([] : List (Release K)) := by
  intro T after
  have grown : 0 ≤ rate * (T - t0) := mul_nonneg advances (sub_nonneg.mpr after)
  simpa [releasedBy, total] using add_nonneg positive grown

/-- The whole amount keeps to the bound of the instant at which the last of it is through. -/
theorem Within.append (within : Within burst rate t0 rs) (advances : 0 ≤ rate) {r : Release K}
    (paid : (total rs : K) + r.amount ≤ burst + rate * (r.instant - t0)) : Within burst rate t0 (rs ++ [r]) := by
  intro T after
  by_cases reached : r.instant ≤ T
  · rw [releasedBy_append_of_le rs reached, Nat.cast_add]
    have fewer : (releasedBy rs T : K) ≤ total rs := Nat.cast_le.mpr (releasedBy_le_total rs T)
    have grown : rate * (r.instant - t0) ≤ rate * (T - t0) :=
      mul_le_mul_of_nonneg_left (sub_le_sub_right reached t0) advances
    linarith
  · rw [releasedBy_append_of_lt rs (not_le.mp reached)]
    exact within T after

def releasedSince (rs : List (Release K)) (s : K) : Nat := total (rs.filter (s ≤ ·.instant))

/-- What is let through from one instant to another. -/
def releasedIn (rs : List (Release K)) (s T : K) : Nat := total (rs.filter fun r => s ≤ r.instant ∧ r.instant ≤ T)

def Steady (burst rate : K) (rs : List (Release K)) : Prop :=
  ∀ s T, s ≤ T → (releasedIn rs s T : K) ≤ burst + rate * (T - s)

theorem releasedSince_append (rs : List (Release K)) {r : Release K} {s : K} (since : s ≤ r.instant) :
    releasedSince (rs ++ [r]) s = releasedSince rs s + r.amount := by
  simp [releasedSince, total, List.filter_append, since]

theorem releasedSince_of_lt {s : K} (later : ∀ r ∈ rs, r.instant < s) : releasedSince rs s = 0 := by
  have nothing : rs.filter (s ≤ ·.instant) = [] := by
    apply List.filter_eq_nil_iff.mpr
    intro r member
    simpa using later r member
  rw [releasedSince, nothing, total_nil]

theorem releasedIn_le_releasedSince (rs : List (Release K)) (s T : K) : releasedIn rs s T ≤ releasedSince rs s := by
  apply List.Sublist.sum_le_sum
  · apply List.Sublist.map
    apply List.monotone_filter_right
    intro r inside
    simp only [decide_eq_true_eq] at inside ⊢
    exact inside.1
  · simp

theorem steady_nil (positive : 0 ≤ burst) (advances : 0 ≤ rate) : Steady burst rate ([] : List (Release K)) := by
  intro s T order
  have grown : 0 ≤ rate * (T - s) := mul_nonneg advances (sub_nonneg.mpr order)
  simpa [releasedIn, total] using add_nonneg positive grown

/-- What is let through since any instant keeps to the bound of the instant of the last of it. -/
theorem Steady.append (steady : Steady burst rate rs) (advances : 0 ≤ rate) {r : Release K}
    (paid : ∀ s, s ≤ r.instant → (releasedSince rs s : K) + r.amount ≤ burst + rate * (r.instant - s)) :
    Steady burst rate (rs ++ [r]) := by
  intro s T order
  by_cases inside : s ≤ r.instant ∧ r.instant ≤ T
  · have fewer : (releasedIn (rs ++ [r]) s T : K) ≤ releasedSince (rs ++ [r]) s :=
      Nat.cast_le.mpr (releasedIn_le_releasedSince _ s T)
    have grown : rate * (r.instant - s) ≤ rate * (T - s) :=
      mul_le_mul_of_nonneg_left (sub_le_sub_right inside.2 s) advances
    rw [releasedSince_append rs inside.1, Nat.cast_add] at fewer
    linarith [paid s inside.1]
  · have outside : releasedIn (rs ++ [r]) s T = releasedIn rs s T := by
      simp [releasedIn, List.filter_append, inside]
    rw [outside]
    exact steady s T order

end Nfrp.Lib
