import Nfrp.Lib.Maps

/-!
Permissions that expire.

A key counts until its expiry and not at it.  What has expired is dropped
whenever the map is used, which no later question can tell.  The same holds of values
that say themselves when they expire.
-/

namespace Nfrp.Lib

universe u v

/-- The keys with the moment from which on they no longer count. -/
abbrev Expiring (Key : Type u) := AList fun _ : Key => Nat

namespace Expiring

variable {Key : Type u} [DecidableEq Key]

def current (now : Nat) (table : Expiring Key) : Expiring Key :=
  retain (fun _ expiry => decide (now < expiry)) table

def allow (now : Nat) (key : Key) (expiry : Nat) (table : Expiring Key) : Expiring Key :=
  (table.current now).insert key expiry

/-- The key is there and has not expired. -/
def Fresh (table : Expiring Key) (now : Nat) (key : Key) : Prop :=
  ∃ expiry, table.lookup key = some expiry ∧ now < expiry

variable {table : Expiring Key} {now later : Nat} {key other : Key}

theorem not_fresh_empty : ¬Fresh (∅ : Expiring Key) now key := by
  rintro ⟨expiry, found, -⟩
  cases found

theorem lookup_current {expiry : Nat} :
    (table.current now).lookup key = some expiry ↔ table.lookup key = some expiry ∧ now < expiry := by
  rw [current, lookup_retain, Option.filter_eq_some_iff, decide_eq_true_iff]

theorem mem_current_iff : key ∈ table.current now ↔ table.Fresh now key :=
  mem_iff_lookup.trans (exists_congr fun _ => lookup_current)

theorem fresh_current_iff (order : now ≤ later) : (table.current now).Fresh later key ↔ table.Fresh later key := by
  refine exists_congr fun expiry => ?_
  rw [lookup_current]
  constructor
  · rintro ⟨⟨found, -⟩, counts⟩
    exact ⟨found, counts⟩
  · rintro ⟨found, counts⟩
    exact ⟨⟨found, lt_of_le_of_lt order counts⟩, counts⟩

theorem fresh_allow_self {expiry : Nat} : (table.allow now key expiry).Fresh later key ↔ later < expiry := by
  constructor
  · rintro ⟨last, found, counts⟩
    rw [allow, AList.lookup_insert, Option.some.injEq] at found
    exact found ▸ counts
  · intro counts
    exact ⟨expiry, AList.lookup_insert _, counts⟩

theorem fresh_allow_of_ne (different : key ≠ other) {expiry : Nat} (order : now ≤ later) :
    (table.allow now other expiry).Fresh later key ↔ table.Fresh later key := by
  refine Iff.trans ?_ (fresh_current_iff order)
  refine exists_congr fun last => ?_
  rw [allow, AList.lookup_insert_ne different]

theorem Fresh.earlier (fresh : table.Fresh later key) (order : now ≤ later) : table.Fresh now key := by
  obtain ⟨expiry, found, counts⟩ := fresh
  exact ⟨expiry, found, lt_of_le_of_lt order counts⟩

end Expiring

section Live

variable {Key : Type u} {Value : Type v} [DecidableEq Key] {expiry : Value → Nat} {now later : Nat} {key other : Key}
  {map : AList fun _ : Key => Value}

def live (expiry : Value → Nat) (now : Nat) (map : AList fun _ : Key => Value) (key : Key) : Option Value :=
  (map.lookup key).filter fun value => now < expiry value

def dropExpired (expiry : Value → Nat) (now : Nat) (map : AList fun _ : Key => Value) : AList fun _ : Key => Value :=
  retain (fun _ value => now < expiry value) map

theorem live_eq_some_iff {value : Value} :
    live expiry now map key = some value ↔ map.lookup key = some value ∧ now < expiry value := by
  rw [live, Option.filter_eq_some_iff, decide_eq_true_iff]

theorem live_empty : live expiry now (∅ : AList fun _ : Key => Value) key = none := by
  rw [live, AList.lookup_empty, Option.filter_none]

theorem lookup_dropExpired (key : Key) : (dropExpired expiry now map).lookup key = live expiry now map key :=
  lookup_retain _ map key

theorem perm_dropExpired :
    map.entries.Perm ((dropExpired expiry now map).entries ++ map.entries.filter fun entry => expiry entry.2 ≤ now) := by
  have isRest : (dropExpired expiry now map).entries = map.entries.filter fun entry => !decide (expiry entry.2 ≤ now) := by
    refine List.filter_congr fun entry _ => ?_
    exact (decide_eq_decide.mpr not_le.symm).trans decide_not
  rw [isRest]
  exact (List.filter_append_perm _ _).symm.trans List.perm_append_comm

theorem live_later (order : now ≤ later) :
    live expiry later map key = (live expiry now map key).filter fun value => later < expiry value := by
  ext value
  rw [live_eq_some_iff, Option.filter_eq_some_iff, live_eq_some_iff, decide_eq_true_iff]
  constructor
  · rintro ⟨found, counts⟩
    exact ⟨⟨found, lt_of_le_of_lt order counts⟩, counts⟩
  · rintro ⟨⟨found, -⟩, counts⟩
    exact ⟨found, counts⟩

theorem live_dropExpired (key : Key) : live expiry now (dropExpired expiry now map) key = live expiry now map key := by
  rw [live, lookup_dropExpired, ← live_later le_rfl]

theorem live_insert_self {value : Value} (counts : now < expiry value) :
    live expiry now (map.insert key value) key = some value :=
  live_eq_some_iff.mpr ⟨AList.lookup_insert map, counts⟩

theorem live_insert_of_ne (different : other ≠ key) (value : Value) :
    live expiry now (map.insert key value) other = live expiry now map other := by
  rw [live, AList.lookup_insert_ne different, live]

theorem live_erase_self : live expiry now (map.erase key) key = none := by
  rw [live, AList.lookup_erase, Option.filter_none]

theorem live_erase_of_ne (different : other ≠ key) :
    live expiry now (map.erase key) other = live expiry now map other := by
  rw [live, AList.lookup_erase_ne different, live]

end Live

end Nfrp.Lib
