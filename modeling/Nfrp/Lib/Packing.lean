import Mathlib.Algebra.GroupWithZero.Nat
import Mathlib.Algebra.Order.BigOperators.Group.List

/-!
Packing a list into consecutive parts.

Items are put into the open part while they fit, with one unit between two of them; one
that does not opens the next part, and so does one that fits in no part.  No other way
to cut the list has fewer parts.
-/

namespace Nfrp.Lib

universe u

variable {Item : Type u} {size : Item → Nat} {budget : Nat} {part items front : List Item}

/-- What a part takes, with a unit between any two items. -/
def load (size : Item → Nat) (part : List Item) : Nat :=
  (part.map size).sum + (part.length - 1)

/-- A part holds one item, or as many as the budget has room for. -/
def Fits (size : Item → Nat) (budget : Nat) (part : List Item) : Prop :=
  part.length ≤ 1 ∨ load size part ≤ budget

def packFrom (size : Item → Nat) (budget : Nat) : (part : List Item) → List Item → List (List Item)
  | part, [] => if part = [] then [] else [part]
  | part, item :: items =>
    if part ≠ [] ∧ budget < load size (part ++ [item]) then part :: packFrom size budget [item] items
    else packFrom size budget (part ++ [item]) items

@[simp]
theorem load_singleton (size : Item → Nat) (item : Item) : load size [item] = size item := rfl

theorem load_concat (someItem : part ≠ []) (item : Item) :
    load size (part ++ [item]) = load size part + (size item + 1) := by
  have positive := List.length_pos_of_ne_nil someItem
  simp only [load, List.map_append, List.sum_append, List.length_append, List.map_cons, List.map_nil, List.sum_cons,
    List.sum_nil, List.length_cons, List.length_nil]
  omega

theorem load_le_append (part after : List Item) : load size part ≤ load size (part ++ after) := by
  simp only [load, List.map_append, List.sum_append, List.length_append]
  omega

theorem load_le_append_right (before part : List Item) : load size part ≤ load size (before ++ part) := by
  simp only [load, List.map_append, List.sum_append, List.length_append]
  omega

theorem Fits.of_append_right {before : List Item} (fits : Fits size budget (before ++ part)) :
    Fits size budget part := by
  rcases fits with single | small
  · rw [List.length_append] at single
    exact .inl (by omega)
  · exact .inr ((load_le_append_right before part).trans small)

/-- An item that another part has behind the open one has room in it. -/
theorem Fits.small {item : Item} {after : List Item} (fits : Fits size budget (part ++ item :: after))
    (someItem : part ≠ []) : load size (part ++ [item]) ≤ budget := by
  have positive := List.length_pos_of_ne_nil someItem
  rcases fits with single | small
  · rw [List.length_append, List.length_cons] at single
    omega
  · rw [List.append_cons] at small
    exact (load_le_append _ after).trans small

theorem flatten_packFrom (size : Item → Nat) (budget : Nat) (part items : List Item) :
    (packFrom size budget part items).flatten = part ++ items := by
  induction items generalizing part with
  | nil =>
    rw [packFrom]
    split
    next isEmpty => rw [isEmpty, List.flatten_nil, List.append_nil]
    next => rw [List.flatten_singleton, List.append_nil]
  | cons item items ih =>
    rw [packFrom]
    split
    · rw [List.flatten_cons, ih, List.singleton_append]
    · rw [ih, List.append_assoc, List.singleton_append]

theorem fits_of_mem_packFrom (fits : Fits size budget part) {found : List Item}
    (member : found ∈ packFrom size budget part items) : found ≠ [] ∧ Fits size budget found := by
  induction items generalizing part with
  | nil =>
    rw [packFrom] at member
    split at member
    · exact (List.not_mem_nil member).elim
    next someItem =>
      obtain rfl := List.mem_singleton.mp member
      exact ⟨someItem, fits⟩
  | cons item items ih =>
    rw [packFrom] at member
    split at member
    next full =>
      rcases List.mem_cons.mp member with rfl | later
      · exact ⟨full.1, fits⟩
      · exact @ih [item] (.inl (Nat.le_refl 1)) later
    next room =>
      refine ih ?_ member
      by_cases isEmpty : part = []
      · rw [isEmpty]
        exact .inl (Nat.le_refl 1)
      · exact .inr (Nat.le_of_not_lt fun full => room ⟨isEmpty, full⟩)

theorem exists_part_of_flatten {item : Item} {parts : List (List Item)} (isFlat : parts.flatten = item :: items) :
    ∃ rest later, (item :: rest) ∈ parts ∧ later ⊆ parts ∧ later.length < parts.length ∧
      items = rest ++ later.flatten := by
  induction parts with
  | nil => cases isFlat
  | cons first parts ih =>
    cases first with
    | nil =>
      obtain ⟨rest, later, isPart, others, fewer, isItems⟩ := ih isFlat
      exact ⟨rest, later, List.mem_cons_of_mem _ isPart, fun _ member => List.mem_cons_of_mem _ (others member),
        Nat.lt_succ_of_lt fewer, isItems⟩
    | cons head rest =>
      obtain ⟨rfl, isItems⟩ := List.cons.inj isFlat
      exact ⟨rest, parts, List.mem_cons_self, fun _ member => List.mem_cons_of_mem _ member, Nat.lt_succ_self _,
        isItems.symm⟩

/-- Whoever has cut no later than the open part begins needs no fewer parts: as many as are
counted here, where the part that is being filled fits together with the open one, or one more. -/
theorem length_packFrom_le (someItem : part ≠ []) {parts : List (List Item)}
    (fit : ∀ other ∈ parts, Fits size budget other) (isRest : items = front ++ parts.flatten)
    (frontFits : Fits size budget front) :
    (packFrom size budget part items).length ≤ parts.length + 2 ∧
      (Fits size budget (part ++ front) → (packFrom size budget part items).length ≤ parts.length + 1) := by
  induction items generalizing part front parts with
  | nil =>
    rw [packFrom, if_neg someItem, List.length_singleton]
    exact ⟨by omega, fun _ => by omega⟩
  | cons item items ih =>
    have nextItem : part ++ [item] ≠ [] := List.append_ne_nil_of_right_ne_nil _ (List.cons_ne_nil _ _)
    cases front with
    | nil =>
      -- the other cut begins a part here, which counts for one
      obtain ⟨rest, later, isPart, others, fewer, rfl⟩ := exists_part_of_flatten isRest.symm
      have partFits := fit _ isPart
      have laterFit : ∀ other ∈ later, Fits size budget other := fun other member => fit other (others member)
      have restFits : Fits size budget rest := @Fits.of_append_right _ _ _ _ [item] partFits
      rw [packFrom]
      split
      · have filled := (ih (List.cons_ne_nil item []) laterFit rfl restFits).2 partFits
        rw [List.length_cons]
        exact ⟨by omega, fun _ => by omega⟩
      · have filled := (ih nextItem laterFit rfl restFits).1
        exact ⟨by omega, fun _ => by omega⟩
    | cons head front =>
      obtain ⟨rfl, rfl⟩ := List.cons.inj isRest
      have restFits : Fits size budget front := @Fits.of_append_right _ _ _ _ [item] frontFits
      rw [packFrom]
      split
      next full =>
        have filled := (ih (List.cons_ne_nil item []) fit rfl restFits).2 frontFits
        rw [List.length_cons]
        refine ⟨by omega, fun together => ?_⟩
        exact absurd full.2 (Nat.not_lt_of_le (together.small someItem))
      next room =>
        obtain ⟨most, together⟩ := ih nextItem fit rfl restFits
        refine ⟨most, fun fits => together ?_⟩
        rwa [List.append_assoc, List.singleton_append]

/-- No way to cut the list into parts that fit has fewer of them. -/
theorem length_packFrom_nil_le {parts : List (List Item)} (fit : ∀ other ∈ parts, Fits size budget other) :
    (packFrom size budget [] parts.flatten).length ≤ parts.length := by
  cases isItems : parts.flatten with
  | nil => exact Nat.zero_le _
  | cons item items =>
    obtain ⟨rest, later, isPart, others, fewer, rfl⟩ := exists_part_of_flatten isItems
    have partFits := fit _ isPart
    have least := (length_packFrom_le (List.cons_ne_nil item []) (fun other member => fit other (others member)) rfl
      (@Fits.of_append_right _ _ _ _ [item] partFits)).2 partFits
    rw [packFrom, if_neg fun full => full.1 rfl]
    exact least.trans fewer

end Nfrp.Lib
