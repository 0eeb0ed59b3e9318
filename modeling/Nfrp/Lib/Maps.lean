import Mathlib.Data.List.AList

/-!
Finite maps.

`retain` drops the entries that do not meet a condition; the lemmas say what a
lookup finds after each kind of change, and what the first item with a key is.
-/

namespace Nfrp.Lib

universe u v

variable {Key : Type u} {Value : Type v} [DecidableEq Key]

def retain (keep : Key → Value → Bool) (map : AList fun _ : Key => Value) : AList fun _ : Key => Value :=
  ⟨map.entries.filter fun entry => keep entry.1 entry.2,
    map.nodupKeys.sublist List.filter_sublist⟩

theorem lookup_eq_some_iff {map : AList fun _ : Key => Value} {key : Key} {value : Value} :
    map.lookup key = some value ↔ ⟨key, value⟩ ∈ map.entries :=
  List.mem_dlookup_iff map.nodupKeys

theorem lookup_retain (keep : Key → Value → Bool) (map : AList fun _ : Key => Value) (key : Key) :
    (retain keep map).lookup key = (map.lookup key).filter (keep key) := by
  ext value
  rw [lookup_eq_some_iff, Option.filter_eq_some_iff, lookup_eq_some_iff]
  exact List.mem_filter

theorem retain_eq_self {keep : Key → Value → Bool} {map : AList fun _ : Key => Value}
    (all : ∀ entry ∈ map.entries, keep entry.1 entry.2) : retain keep map = map :=
  AList.ext (List.filter_eq_self.mpr all)

def mapValues (change : Value → Value) (map : AList fun _ : Key => Value) : AList fun _ : Key => Value :=
  ⟨map.entries.map fun entry => ⟨entry.1, change entry.2⟩, by
    have sameKeys : (map.entries.map fun entry => (⟨entry.1, change entry.2⟩ : Sigma fun _ : Key => Value)).keys =
        map.entries.keys := by simp [List.keys, Function.comp_def]
    rw [List.NodupKeys, sameKeys]
    exact map.nodupKeys⟩

theorem lookup_mapValues (change : Value → Value) (map : AList fun _ : Key => Value) (key : Key) :
    (mapValues change map).lookup key = (map.lookup key).map change := by
  ext value
  rw [lookup_eq_some_iff, Option.map_eq_some_iff]
  simp only [mapValues, List.mem_map]
  constructor
  · rintro ⟨entry, isEntry, same⟩
    obtain ⟨rfl, isValue⟩ := Sigma.mk.inj_iff.mp same
    exact ⟨entry.2, lookup_eq_some_iff.mpr isEntry, eq_of_heq isValue⟩
  · rintro ⟨old, found, rfl⟩
    exact ⟨⟨key, old⟩, lookup_eq_some_iff.mp found, rfl⟩

theorem mem_iff_lookup {map : AList fun _ : Key => Value} {key : Key} :
    key ∈ map ↔ ∃ value, map.lookup key = some value := by
  rw [← AList.lookup_isSome, Option.isSome_iff_exists]

theorem lookup_insert_eq (key other : Key) (value : Value) (map : AList fun _ : Key => Value) :
    (map.insert key value).lookup other = if other = key then some value else map.lookup other := by
  by_cases same : other = key
  · subst same
    rw [AList.lookup_insert, if_pos rfl]
  · rw [AList.lookup_insert_ne same, if_neg same]

/-- What holds of every entry, and of the one that is put in. -/
theorem forall_lookup_insert {P : Key → Value → Prop} {map : AList fun _ : Key => Value} {key : Key} {value : Value}
    (isNew : P key value) (all : ∀ other found, map.lookup other = some found → P other found) :
    ∀ other found, (map.insert key value).lookup other = some found → P other found := by
  intro other found isEntry
  rw [lookup_insert_eq] at isEntry
  split at isEntry
  next same =>
    obtain rfl := Option.some.inj isEntry
    exact same ▸ isNew
  next => exact all other found isEntry

theorem lookup_erase_eq (key other : Key) (map : AList fun _ : Key => Value) :
    (map.erase key).lookup other = if other = key then none else map.lookup other := by
  by_cases same : other = key
  · subst same
    rw [AList.lookup_erase, if_pos rfl]
  · rw [AList.lookup_erase_ne same, if_neg same]

theorem lookup_of_erase {map : AList fun _ : Key => Value} {key other : Key} {value : Value}
    (found : (map.erase key).lookup other = some value) : map.lookup other = some value := by
  rw [lookup_erase_eq] at found
  split at found
  · cases found
  · exact found

theorem perm_insert {map : AList fun _ : Key => Value} {key : Key} {value : Value} (vacant : map.lookup key = none) :
    (map.insert key value).entries.Perm (⟨key, value⟩ :: map.entries) :=
  .of_eq (AList.entries_insert_of_notMem (AList.lookup_eq_none.mp vacant))

theorem perm_erase {map : AList fun _ : Key => Value} {key : Key} {value : Value} (found : map.lookup key = some value) :
    map.entries.Perm (⟨key, value⟩ :: (map.erase key).entries) := by
  obtain ⟨other, before, after, notBefore, split, erased⟩ :=
    List.exists_of_kerase (AList.mem_keys.mp (mem_iff_lookup.mpr ⟨value, found⟩))
  have isValue : other = value := by
    have member : (⟨key, other⟩ : Sigma fun _ : Key => Value) ∈ map.entries := by
      rw [split]
      exact List.mem_append_right _ List.mem_cons_self
    exact Option.some.inj ((lookup_eq_some_iff.mpr member).symm.trans found)
  have rest : (map.erase key).entries = before ++ after := erased
  rw [split, isValue, rest]
  exact List.perm_middle

section Keyed

variable {Item : Type v} {key : Item → Key} {items : List Item} {name : Key} {item : Item}

theorem key_of_find? (found : items.find? (fun item => key item = name) = some item) : key item = name :=
  of_decide_eq_true (List.find?_some (p := fun item => decide (key item = name)) found)

/-- Where no key occurs twice, what is found is what is there. -/
theorem find?_key_eq_some_iff (nodup : (items.map key).Nodup) :
    items.find? (fun item => key item = name) = some item ↔ item ∈ items ∧ key item = name := by
  refine ⟨fun found => ⟨List.mem_of_find?_eq_some found, key_of_find? found⟩, ?_⟩
  rintro ⟨member, isName⟩
  cases found : items.find? (fun item => key item = name) with
  | none => exact absurd (decide_eq_true isName) (List.find?_eq_none.mp found item member)
  | some other =>
    have sameKey : key other = key item := (key_of_find? found).trans isName.symm
    rw [List.inj_on_of_nodup_map nodup (List.mem_of_find?_eq_some found) member sameKey]

theorem find?_key_reverse (nodup : (items.map key).Nodup) (name : Key) :
    items.reverse.find? (fun item => key item = name) = items.find? (fun item => key item = name) := by
  ext item
  rw [find?_key_eq_some_iff nodup, find?_key_eq_some_iff (by simpa using nodup), List.mem_reverse]

/-- What is found after items were put in under their keys, of several with one key
the last. -/
theorem lookup_foldl_insert (key : Item → Key) (value : Item → Value) (map : AList fun _ : Key => Value) (name : Key) :
    (items.foldl (fun map item => map.insert (key item) (value item)) map).lookup name =
      ((items.reverse.find? (fun item => key item = name)).map value).or (map.lookup name) := by
  induction items generalizing map with
  | nil => rfl
  | cons item rest ih =>
    rw [List.foldl_cons, ih, lookup_insert_eq, List.reverse_cons, List.find?_append]
    cases rest.reverse.find? (fun item => key item = name) with
    | some _ => rfl
    | none => by_cases isName : name = key item <;> simp [isName, eq_comm]

end Keyed

end Nfrp.Lib
