import Nfrp.Lib.Maps

/-!
# Obligations that are met once

What is owed is kept in a map until somebody takes it out.  Whoever takes it out
has to meet it; then everything that was ever owed is either in the map and not
met, or met exactly once.
-/

namespace Nfrp.Lib

universe u v w

variable {Key : Type u} {Debt : Type v} {Receipt : Type w} [DecidableEq Key]

def receiptsOf (key : Key) (paid : List (Key × Receipt)) : List Receipt :=
  (paid.filter (·.1 = key)).map (·.2)

structure Balanced (settles : Debt → Receipt → Prop) (pending : AList fun _ : Key => Debt)
    (issued : List (Key × Debt)) (paid : List (Key × Receipt)) : Prop where
  once : ∀ {key debt other}, (key, debt) ∈ issued → (key, other) ∈ issued → debt = other
  isIssued : ∀ {key debt}, pending.lookup key = some debt → (key, debt) ∈ issued
  unpaid : ∀ {key debt}, pending.lookup key = some debt → receiptsOf key paid = []
  settled : ∀ {key debt}, (key, debt) ∈ issued → pending.lookup key = none →
    ∃ receipt, receiptsOf key paid = [receipt] ∧ settles debt receipt
  known : ∀ entry ∈ paid, ∃ debt, (entry.1, debt) ∈ issued

theorem receiptsOf_append (key : Key) (paid more : List (Key × Receipt)) :
    receiptsOf key (paid ++ more) = receiptsOf key paid ++ receiptsOf key more := by
  rw [receiptsOf, List.filter_append, List.map_append]
  rfl

theorem receiptsOf_same (key : Key) (receipt : Receipt) : receiptsOf key [(key, receipt)] = [receipt] := by
  simp [receiptsOf]

theorem receiptsOf_other {key other : Key} (different : other ≠ key) (receipt : Receipt) :
    receiptsOf key [(other, receipt)] = [] := by
  simp [receiptsOf, different]

namespace Balanced

variable {settles : Debt → Receipt → Prop} {pending : AList fun _ : Key => Debt} {issued : List (Key × Debt)}
  {paid : List (Key × Receipt)} {key : Key} {debt : Debt} {receipt : Receipt}

theorem empty : Balanced settles (∅ : AList fun _ : Key => Debt) [] ([] : List (Key × Receipt)) where
  once := by simp
  isIssued := by simp
  unpaid := by simp
  settled := by simp
  known := by simp

theorem mono {weaker : Debt → Receipt → Prop} (balanced : Balanced settles pending issued paid)
    (implied : ∀ debt receipt, settles debt receipt → weaker debt receipt) :
    Balanced weaker pending issued paid where
  once := balanced.once
  isIssued := balanced.isIssued
  unpaid := balanced.unpaid
  settled := by
    intro key debt isDebt gone
    obtain ⟨receipt, only, met⟩ := balanced.settled isDebt gone
    exact ⟨receipt, only, implied debt receipt met⟩
  known := balanced.known

theorem issue (balanced : Balanced settles pending issued paid) (fresh : ∀ debt, (key, debt) ∉ issued) (debt : Debt) :
    Balanced settles (pending.insert key debt) (issued ++ [(key, debt)]) paid where
  once := by
    intro other first second isFirst isSecond
    simp only [List.mem_append, List.mem_singleton, Prod.mk.injEq] at isFirst isSecond
    rcases isFirst with isFirst | ⟨rfl, rfl⟩ <;> rcases isSecond with isSecond | ⟨same, rfl⟩
    · exact balanced.once isFirst isSecond
    · exact absurd (same ▸ isFirst) (fresh first)
    · exact absurd isSecond (fresh second)
    · rfl
  isIssued := by
    intro other owed found
    rw [lookup_insert_eq] at found
    split at found
    next same =>
      obtain rfl := Option.some.inj found
      rw [same]
      exact List.mem_append_right _ (List.mem_singleton_self _)
    next => exact List.mem_append_left _ (balanced.isIssued found)
  unpaid := by
    intro other owed found
    rw [lookup_insert_eq] at found
    split at found
    next same =>
      rw [receiptsOf, List.filter_eq_nil_iff.mpr, List.map_nil]
      intro entry member isKey
      obtain ⟨old, isOld⟩ := balanced.known entry member
      rw [of_decide_eq_true isKey, same] at isOld
      exact fresh old isOld
    next => exact balanced.unpaid found
  settled := by
    intro other owed isDebt gone
    rw [lookup_insert_eq] at gone
    split at gone
    next => cases gone
    next different =>
      refine balanced.settled ?_ gone
      rcases List.mem_append.mp isDebt with old | new
      · exact old
      · exact absurd (congrArg Prod.fst (List.mem_singleton.mp new)) different
  known := by
    intro entry member
    obtain ⟨old, isOld⟩ := balanced.known entry member
    exact ⟨old, List.mem_append_left _ isOld⟩

theorem settle (balanced : Balanced settles pending issued paid) (owed : pending.lookup key = some debt)
    (met : settles debt receipt) :
    Balanced settles (pending.erase key) issued (paid ++ [(key, receipt)]) where
  once := balanced.once
  isIssued := by
    intro other old found
    rw [lookup_erase_eq] at found
    split at found
    next => cases found
    next => exact balanced.isIssued found
  unpaid := by
    intro other old found
    rw [lookup_erase_eq] at found
    split at found
    next => cases found
    next different =>
      rw [receiptsOf_append, balanced.unpaid found, receiptsOf_other (Ne.symm different), List.append_nil]
  settled := by
    intro other old isDebt gone
    by_cases same : other = key
    · subst same
      obtain rfl := balanced.once isDebt (balanced.isIssued owed)
      refine ⟨receipt, ?_, met⟩
      rw [receiptsOf_append, balanced.unpaid owed, receiptsOf_same, List.nil_append]
    · rw [lookup_erase_eq, if_neg same] at gone
      obtain ⟨earlier, only, isMet⟩ := balanced.settled isDebt gone
      refine ⟨earlier, ?_, isMet⟩
      rw [receiptsOf_append, only, receiptsOf_other (Ne.symm same), List.append_nil]
  known := by
    intro entry member
    rcases List.mem_append.mp member with old | new
    · exact balanced.known entry old
    · rw [List.mem_singleton.mp new]
      exact ⟨debt, balanced.isIssued owed⟩

end Balanced

end Nfrp.Lib
