import Mathlib.Data.Finset.Erase
import Mathlib.Data.Finset.Insert
import Nfrp.Lib.Maps

/-!
Exclusive leases.

Each owner holds at most one resource and no resource has two owners.  The set
of taken resources is kept beside the map; that it is the set of held ones is
part of the type.
-/

namespace Nfrp.Lib

universe u v

structure Leases (Owner : Type u) (Resource : Type v) [DecidableEq Owner] [DecidableEq Resource] where
  held : AList fun _ : Owner => Resource
  taken : Finset Resource
  isTaken : ∀ resource, resource ∈ taken ↔ ∃ owner, held.lookup owner = some resource
  exclusive : ∀ {owner other resource},
    held.lookup owner = some resource → held.lookup other = some resource → owner = other

namespace Leases

variable {Owner : Type u} {Resource : Type v} [DecidableEq Owner] [DecidableEq Resource]

def empty : Leases Owner Resource where
  held := ∅
  taken := ∅
  isTaken := by simp
  exclusive := by simp

variable (leases : Leases Owner Resource)

def release (owner : Owner) : Leases Owner Resource where
  held := leases.held.erase owner
  taken := (leases.held.lookup owner).elim leases.taken leases.taken.erase
  isTaken := by
    intro resource
    simp only [lookup_erase_eq]
    cases isLease : leases.held.lookup owner with
    | none =>
      rw [Option.elim_none, leases.isTaken]
      refine exists_congr fun other => ?_
      by_cases same : other = owner
      · rw [if_pos same, same, isLease]
      · rw [if_neg same]
    | some old =>
      rw [Option.elim_some, Finset.mem_erase, leases.isTaken]
      constructor
      · rintro ⟨notOld, other, isOther⟩
        refine ⟨other, ?_⟩
        rwa [if_neg]
        rintro rfl
        exact notOld (Option.some.inj (isOther.symm.trans isLease))
      · rintro ⟨other, isOther⟩
        split at isOther
        · cases isOther
        next elsewhere =>
          refine ⟨?_, other, isOther⟩
          rintro rfl
          exact elsewhere (leases.exclusive isOther isLease)
  exclusive := by
    intro one other resource isOne isOther
    rw [lookup_erase_eq] at isOne isOther
    split at isOne
    · cases isOne
    split at isOther
    · cases isOther
    exact leases.exclusive isOne isOther

def grant (owner : Owner) (resource : Resource) (free : resource ∉ leases.taken) : Leases Owner Resource where
  held := leases.held.insert owner resource
  taken := insert resource (leases.release owner).taken
  isTaken := by
    intro wanted
    rw [Finset.mem_insert, (leases.release owner).isTaken]
    simp only [release, lookup_erase_eq, lookup_insert_eq]
    constructor
    · rintro (rfl | ⟨other, isOther⟩)
      · exact ⟨owner, if_pos rfl⟩
      · split at isOther
        · cases isOther
        next elsewhere => exact ⟨other, by rw [if_neg elsewhere, isOther]⟩
    · rintro ⟨other, isOther⟩
      split at isOther
      · exact .inl (Option.some.inj isOther).symm
      next elsewhere => exact .inr ⟨other, by rw [if_neg elsewhere, isOther]⟩
  exclusive := by
    have unheld (other : Owner) : leases.held.lookup other ≠ some resource := fun isOther =>
      free ((leases.isTaken resource).mpr ⟨other, isOther⟩)
    intro one other wanted isOne isOther
    rw [lookup_insert_eq] at isOne isOther
    split at isOne <;> split at isOther
    next isOwner isOwnerToo => rw [isOwner, isOwnerToo]
    · rw [← isOne] at isOther
      exact absurd isOther (unheld other)
    · rw [← isOther] at isOne
      exact absurd isOne (unheld one)
    · exact leases.exclusive isOne isOther

@[simp]
theorem lookup_release (owner other : Owner) :
    (leases.release owner).held.lookup other = if other = owner then none else leases.held.lookup other :=
  lookup_erase_eq owner other leases.held

@[simp]
theorem lookup_grant (owner other : Owner) {resource : Resource} (free : resource ∉ leases.taken) :
    (leases.grant owner resource free).held.lookup other =
      if other = owner then some resource else leases.held.lookup other :=
  lookup_insert_eq owner other resource leases.held

theorem mem_taken_release {resource : Resource} {owner : Owner} :
    resource ∈ (leases.release owner).taken ↔ resource ∈ leases.taken ∧ leases.held.lookup owner ≠ some resource := by
  change resource ∈ (leases.held.lookup owner).elim leases.taken leases.taken.erase ↔ _
  cases leases.held.lookup owner with
  | none => simp
  | some old =>
    rw [Option.elim_some, Finset.mem_erase, and_comm, ne_comm, Ne, Ne, Option.some.injEq]

theorem mem_taken_grant {resource new : Resource} {owner : Owner} (free : new ∉ leases.taken) :
    resource ∈ (leases.grant owner new free).taken ↔
      resource = new ∨ resource ∈ leases.taken ∧ leases.held.lookup owner ≠ some resource := by
  rw [grant, Finset.mem_insert, mem_taken_release]

end Leases

end Nfrp.Lib
