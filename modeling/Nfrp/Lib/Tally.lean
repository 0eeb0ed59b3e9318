import Mathlib.Algebra.GroupWithZero.Nat
import Nfrp.Lib.Maps

/-!
Counting what a finite map holds.

Whoever shares something scarce is an entry of a map; `tally` counts the entries
that meet a condition.  What one change does to the count is said of the entry
before and the entry after it, so an account that is kept beside the map is
balanced by looking at one entry.
-/

namespace Nfrp.Lib

universe u v

variable {Key : Type u} {Value : Type v} [DecidableEq Key] {holds other : Key → Value → Bool}
  {map : AList fun _ : Key => Value} {key : Key} {value : Value}

def tally (holds : Key → Value → Bool) (map : AList fun _ : Key => Value) : Nat :=
  map.entries.countP fun entry => holds entry.1 entry.2

def worth (holds : Key → Value → Bool) (key : Key) (entry : Option Value) : Nat :=
  (entry.filter (holds key)).toList.length

@[simp]
theorem worth_none (holds : Key → Value → Bool) (key : Key) : worth holds key none = 0 := rfl

theorem worth_some (holds : Key → Value → Bool) (key : Key) (value : Value) :
    worth holds key (some value) = if holds key value then 1 else 0 := by
  cases isHeld : holds key value <;> simp [worth, isHeld]

theorem countP_cons_entry (holds : Key → Value → Bool) (key : Key) (value : Value)
    (entries : List (Sigma fun _ : Key => Value)) :
    (⟨key, value⟩ :: entries).countP (fun entry => holds entry.1 entry.2) =
      entries.countP (fun entry => holds entry.1 entry.2) + worth holds key (some value) := by
  rw [List.countP_cons, worth_some]

theorem tally_eq_erase_add (holds : Key → Value → Bool) (map : AList fun _ : Key => Value) (key : Key) :
    tally holds map = tally holds (map.erase key) + worth holds key (map.lookup key) := by
  cases found : map.lookup key with
  | none =>
    have absent : key ∉ map.keys := AList.lookup_eq_none.mp found
    have same : (map.erase key).entries = map.entries := List.kerase_of_notMem_keys absent
    rw [tally, tally, same, worth_none, Nat.add_zero]
  | some value =>
    rw [tally, (perm_erase found).countP_eq, countP_cons_entry, ← tally]

theorem tally_insert_add (holds : Key → Value → Bool) (map : AList fun _ : Key => Value) (key : Key) (value : Value) :
    tally holds (map.insert key value) + worth holds key (map.lookup key) =
      tally holds map + worth holds key (some value) := by
  have inserted : (map.insert key value).entries = ⟨key, value⟩ :: (map.erase key).entries := AList.entries_insert
  rw [tally_eq_erase_add holds map key, tally, inserted, countP_cons_entry, ← tally]
  omega

theorem tally_erase_add (holds : Key → Value → Bool) (map : AList fun _ : Key => Value) (key : Key) :
    tally holds (map.erase key) + worth holds key (map.lookup key) = tally holds map :=
  (tally_eq_erase_add holds map key).symm

theorem tally_mono (implied : ∀ key value, map.lookup key = some value → holds key value → other key value) :
    tally holds map ≤ tally other map :=
  List.countP_mono_left fun entry member => implied entry.1 entry.2 (lookup_eq_some_iff.mpr member)

/-- What is counted of a list is counted of what is kept of it or of what goes. -/
theorem countP_filter_not_add {Item : Type u} (p gone : Item → Bool) (items : List Item) :
    (items.filter fun item => !gone item).countP p + items.countP (fun item => gone item && p item) =
      items.countP p := by
  rw [List.countP_filter]
  induction items with
  | nil => rfl
  | cons item items ih =>
    simp only [List.countP_cons]
    cases gone item <;> cases p item <;> simp <;> omega

/-- Only the change of one item counts, where it is there once. -/
theorem sum_map_update {Item : Type u} [DecidableEq Item] {items : List Item} {f g : Item → Nat} {item : Item}
    (others : ∀ other, other ≠ item → g other = f other) (once : items.Nodup) (isThere : item ∈ items) :
    (items.map g).sum + f item = (items.map f).sum + g item := by
  have same : ((items.erase item).map g).sum = ((items.erase item).map f).sum := by
    refine congrArg List.sum (List.map_congr_left fun other isOther => ?_)
    exact others other fun isItem => once.not_mem_erase (isItem ▸ isOther)
  have isPerm := List.perm_cons_erase isThere
  rw [(isPerm.map g).sum_nat, (isPerm.map f).sum_nat, List.map_cons, List.map_cons, List.sum_cons, List.sum_cons, same]
  omega

end Nfrp.Lib
