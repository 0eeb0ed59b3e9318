import Mathlib.Data.Finset.Card

/-!
A bounded memory of what was seen.

A set that holds as many elements as it may is emptied before the next one comes in.
What was seen is then forgotten, until it is seen again.
-/

namespace Nfrp.Lib

universe u

variable {α : Type u} [DecidableEq α]

def noteSeen (limit : Nat) (seen : Finset α) (a : α) : Finset α :=
  insert a (if limit ≤ seen.card then ∅ else seen)

/-- What is remembered of a list, the earliest first. -/
def seenAfter (limit : Nat) (items : List α) : Finset α := items.foldl (noteSeen limit) ∅

/-- The set was emptied for something else after the element was seen last. -/
def Forgotten (limit : Nat) (items : List α) (a : α) : Prop :=
  ∃ front other back, items = front ++ other :: back ∧ other ≠ a ∧ a ∉ back ∧ limit ≤ (seenAfter limit front).card

variable {limit : Nat}

theorem toFinset_append_singleton (items : List α) (a : α) : (items ++ [a]).toFinset = insert a items.toFinset := by
  rw [List.toFinset_append, List.toFinset_cons, List.toFinset_nil, insert_empty_eq, Finset.union_comm, ← Finset.insert_eq]

theorem seenAfter_append (items : List α) (a : α) :
    seenAfter limit (items ++ [a]) = noteSeen limit (seenAfter limit items) a := by
  rw [seenAfter, List.foldl_append]
  rfl

theorem mem_noteSeen_self (seen : Finset α) (a : α) : a ∈ noteSeen limit seen a := Finset.mem_insert_self ..

theorem noteSeen_subset (seen : Finset α) (a : α) : noteSeen limit seen a ⊆ insert a seen := by
  rw [noteSeen]
  split
  · exact Finset.insert_subset_insert a (Finset.empty_subset seen)
  · exact subset_rfl

theorem seenAfter_subset (items : List α) : seenAfter limit items ⊆ items.toFinset := by
  induction items using List.reverseRecOn with
  | nil => exact subset_rfl
  | append_singleton items a ih =>
    rw [seenAfter_append, toFinset_append_singleton]
    exact (noteSeen_subset _ a).trans (Finset.insert_subset_insert a ih)

theorem Forgotten.append {items : List α} {a b : α} (forgotten : Forgotten limit items a) (other : b ≠ a) :
    Forgotten limit (items ++ [b]) a := by
  obtain ⟨front, c, back, rfl, notSame, absent, full⟩ := forgotten
  refine ⟨front, c, back ++ [b], by simp, notSame, ?_, full⟩
  simp [absent, other.symm]

/-- The last of the items is not forgotten, and what is forgotten of the others is
forgotten at last, or before. -/
theorem forgotten_append_iff {items : List α} {a b : α} :
    Forgotten limit (items ++ [b]) a ↔
      b ≠ a ∧ (limit ≤ (seenAfter limit items).card ∨ Forgotten limit items a) := by
  constructor
  · rintro ⟨front, other, back, split, notSame, absent, full⟩
    rcases back.eq_nil_or_concat with rfl | ⟨before, last, rfl⟩
    · obtain ⟨rfl, same⟩ := List.append_inj' split rfl
      obtain rfl := List.singleton_inj.mp same
      exact ⟨notSame, .inl full⟩
    · rw [List.concat_eq_append, ← List.cons_append, ← List.append_assoc] at split
      obtain ⟨rfl, same⟩ := List.append_inj' split rfl
      obtain rfl := List.singleton_inj.mp same
      rw [List.concat_eq_append, List.mem_append, not_or] at absent
      exact ⟨fun same => absent.2 (same ▸ List.mem_singleton_self _),
        .inr ⟨front, other, before, rfl, notSame, absent.1, full⟩⟩
  · rintro ⟨notSame, full | forgotten⟩
    · exact ⟨items, b, [], rfl, notSame, List.not_mem_nil, full⟩
    · exact forgotten.append notSame

/-- What was seen is remembered, unless it has been forgotten. -/
theorem notMem_seenAfter_iff {items : List α} {a : α} (member : a ∈ items) :
    a ∉ seenAfter limit items ↔ Forgotten limit items a := by
  induction items using List.reverseRecOn with
  | nil => cases member
  | append_singleton items b ih =>
    rw [seenAfter_append, forgotten_append_iff]
    by_cases same : b = a
    · subst same
      exact iff_of_false (not_not.mpr (mem_noteSeen_self _ b)) fun both => both.1 rfl
    · have before : a ∈ items := by
        rcases List.mem_append.mp member with earlier | last
        · exact earlier
        · exact absurd (List.mem_singleton.mp last).symm same
      rw [← ih before, noteSeen, Finset.mem_insert, not_or]
      split
      next full => simp [same, Ne.symm same, full]
      next room => simp [same, Ne.symm same, room]

theorem card_seenAfter_of_nodup {items : List α} (nodup : items.Nodup) (few : items.length ≤ limit) :
    (seenAfter limit items).card = items.length := by
  induction items using List.reverseRecOn with
  | nil => rfl
  | append_singleton items a ih =>
    rw [List.length_append, List.length_singleton] at few ⊢
    have before := ih (List.Nodup.of_append_left nodup) (by omega)
    have isNew : a ∉ seenAfter limit items := by
      intro member
      have inItems := List.mem_toFinset.mp (seenAfter_subset items member)
      exact List.disjoint_of_nodup_append nodup inItems (List.mem_singleton_self a)
    rw [seenAfter_append, noteSeen, before, if_neg (by omega), Finset.card_insert_of_notMem isNew, before]

end Nfrp.Lib
