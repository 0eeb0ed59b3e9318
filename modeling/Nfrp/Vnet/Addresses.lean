import Mathlib.Data.Fintype.EquivFin
import Nfrp.Lib.Runs
import Nfrp.Vnet.Pool

/-!
# Whether the pool gives out every address

The pool looks for a free address from its cursor downwards only.  That is enough as long as no
free address is above the cursor: giving an address back lifts the cursor to it, but a claim
that gives up an older lease does not.
-/

namespace Nfrp.Vnet

open Lib

inductive PoolOp where
  | acquire (owner : SessionKey)
  | claim (owner : SessionKey) (ip : Ipv4Addr)
  | release (owner : SessionKey)
  deriving DecidableEq

theorem Subnet.nth_index_of_lt (s : Subnet) {ip : Ipv4Addr} (below : s.index ip < s.size) :
    s.nth (s.index ip) = some ip := by
  rw [nth, if_neg (not_le.mpr below), index, BitVec.ofNat_add, BitVec.ofNat_toNat, BitVec.ofNat_toNat,
    BitVec.setWidth_eq, BitVec.setWidth_eq, BitVec.add_comm, BitVec.sub_add_cancel]

namespace IpPool

def apply (p : IpPool) : PoolOp → IpPool
  | .acquire owner => (p.acquire owner).2
  | .claim owner ip => (p.claim owner ip).2
  | .release owner => p.release owner

/-- Every address that is neither the first nor the last of the subnet is taken. -/
def Full (p : IpPool) : Prop :=
  ∀ i ip, p.subnet.nth i = some ip → 1 ≤ i → i ≤ p.subnet.size - 2 → ip ∈ p.leases.taken

def Complete (p : IpPool) : Prop := ∀ owner, (p.acquire owner).1 = none → p.Full

/-- However many owners come, none goes without an address before all are taken. -/
def GivesAll (p : IpPool) : Prop := ∀ owners : List SessionKey, (run apply p (owners.map .acquire)).Complete

structure Exclusive (p : IpPool) : Prop where
  unshared : ∀ owner ip, (p.acquire owner).1 = some ip → ∀ other ≠ owner, p.leases.held.lookup other ≠ some ip
  taken : ∀ ip, ip ∈ p.leases.taken ↔ ∃! owner, p.leases.held.lookup owner = some ip
  kept : ∀ owner ip, p.leases.held.lookup owner = some ip → p.acquire owner = (some ip, p)

def FreeBelow (p : IpPool) : Prop :=
  ∀ i ip, p.subnet.nth i = some ip → 1 ≤ i → i ≤ p.subnet.size - 2 → ip ∉ p.leases.taken → i ≤ p.next

/-- A claim does not give up a lease above the cursor. -/
def Careful (p : IpPool) : PoolOp → Prop
  | .claim owner ip => ip ∉ p.leases.taken → ∀ old ∈ p.leases.held.lookup owner,
      p.subnet.index old ≤ p.next ∨ p.subnet.size - 2 < p.subnet.index old
  | .acquire _ | .release _ => True

instance (p : IpPool) : (op : PoolOp) → Decidable (p.Careful op)
  | .claim owner ip => inferInstanceAs (Decidable (_ → ∀ old ∈ p.leases.held.lookup owner, _))
  | .acquire _ | .release _ => .isTrue trivial

variable {p : IpPool} {owner : SessionKey}

theorem exclusive (p : IpPool) : p.Exclusive where
  unshared owner ip isGiven other isOther isOthers := by
    cases isLease : p.leases.held.lookup owner with
    | some own =>
      rw [acquire, isLease] at isGiven
      obtain rfl := Option.some.inj isGiven
      exact isOther (p.leases.exclusive isOthers isLease)
    | none =>
      rcases p.acquire_of_new isLease with ⟨-, acquired⟩ | ⟨i, new, free, -, acquired⟩
      · rw [acquired] at isGiven
        cases isGiven
      · rw [acquired] at isGiven
        obtain rfl := Option.some.inj isGiven
        exact free ((p.leases.isTaken _).mpr ⟨other, isOthers⟩)
  taken _ := by
    rw [p.leases.isTaken]
    constructor
    · rintro ⟨owner, isLease⟩
      exact ⟨owner, isLease, fun other isOther => p.leases.exclusive isOther isLease⟩
    · rintro ⟨owner, isLease, -⟩
      exact ⟨owner, isLease⟩
  kept owner ip isLease := by rw [acquire, isLease]

theorem complete_of_freeBelow (below : p.FreeBelow) : p.Complete := by
  intro owner isNone i ip isNth above within
  by_contra free
  cases isLease : p.leases.held.lookup owner with
  | some own =>
    rw [acquire, isLease] at isNone
    cases isNone
  | none =>
    rcases p.acquire_of_new isLease with ⟨noneFree, -⟩ | ⟨_, _, _, -, acquired⟩
    · have inReach : i ≤ p.cursor := le_min (below i ip isNth above within free) within
      exact free (p.firstFree_eq_none noneFree i above inReach ip isNth)
    · rw [acquired] at isNone
      cases isNone

theorem freeBelow_acquire (below : p.FreeBelow) (owner : SessionKey) : (p.acquire owner).2.FreeBelow := by
  cases isLease : p.leases.held.lookup owner with
  | some own =>
    rw [acquire, isLease]
    exact below
  | none =>
    rcases p.acquire_of_new isLease with ⟨-, acquired⟩ | ⟨i, new, free, isFree, acquired⟩
    · rw [acquired]
      exact below
    · obtain ⟨least, reached, isNew, skipped⟩ := p.firstFree_eq_some isFree
      rw [acquired]
      intro j ip isNth above within stillFree
      rw [p.leases.mem_taken_grant free, isLease] at stillFree
      have notNew : ip ≠ new := fun same => stillFree (.inl same)
      have wasFree : ip ∉ p.leases.taken := fun isTaken => stillFree (.inr ⟨isTaken, Option.some_ne_none ip |>.symm⟩)
      have inReach : j ≤ p.cursor := le_min (below j ip isNth above within wasFree) within
      have notLater : ¬ i < j := fun later => wasFree (skipped j later inReach ip isNth)
      have notSame : j ≠ i := by
        rintro rfl
        exact notNew (Option.some.inj (isNth.symm.trans isNew))
      exact Nat.le_sub_one_of_lt (lt_of_le_of_ne (not_lt.mp notLater) notSame)

theorem freeBelow_release (below : p.FreeBelow) (owner : SessionKey) : (p.release owner).FreeBelow := by
  rw [release]
  cases isLease : p.leases.held.lookup owner with
  | none => exact below
  | some old =>
    intro j ip isNth above within stillFree
    rw [p.leases.mem_taken_release, isLease] at stillFree
    dsimp only
    by_cases isOld : old = ip
    · have position := p.subnet.index_of_nth isNth
      rw [isOld, position]
      split
      · exact le_rfl
      next notLifted => exact not_lt.mp fun higher => notLifted ⟨higher, within⟩
    · have wasFree : ip ∉ p.leases.taken := fun isTaken => stillFree ⟨isTaken, fun same => isOld (Option.some.inj same)⟩
      have reached := below j ip isNth above within wasFree
      split
      next lifted => exact reached.trans lifted.1.le
      · exact reached

/-- A claim keeps the free addresses below the cursor exactly if it gives up none above it. -/
theorem freeBelow_claim_iff (below : p.FreeBelow) (owner : SessionKey) (ip : Ipv4Addr) :
    (p.claim owner ip).2.FreeBelow ↔ p.Careful (.claim owner ip) := by
  rw [claim]
  by_cases free : ip ∉ p.leases.taken
  · rw [dif_pos free]
    constructor
    · intro kept _ old isLease
      by_contra lost
      rw [not_or, not_le, not_lt] at lost
      have isNth := p.subnet.nth_index_of_lt (show p.subnet.index old < p.subnet.size by omega)
      have wasTaken : old ∈ p.leases.taken := (p.leases.isTaken old).mpr ⟨owner, isLease⟩
      have given : old ∉ (p.leases.grant owner ip free).taken := by
        rw [p.leases.mem_taken_grant free]
        rintro (rfl | ⟨-, isOthers⟩)
        · exact free wasTaken
        · exact isOthers isLease
      have reached : p.subnet.index old ≤ p.next := kept _ old isNth (by omega) lost.2 given
      omega
    · intro careful j other isNth above within stillFree
      rw [p.leases.mem_taken_grant free] at stillFree
      by_cases isOld : p.leases.held.lookup owner = some other
      · have reached := careful free other isOld
        rw [p.subnet.index_of_nth isNth] at reached
        exact reached.resolve_right (not_lt.mpr within)
      · exact below j other isNth above within fun isTaken => stillFree (.inr ⟨isTaken, isOld⟩)
  · rw [dif_neg free]
    exact iff_of_true below fun isFree => absurd isFree free

theorem apply_freeBelow_iff (below : p.FreeBelow) (op : PoolOp) : (p.apply op).FreeBelow ↔ p.Careful op := by
  cases op with
  | acquire owner => exact iff_of_true (freeBelow_acquire below owner) trivial
  | claim owner ip => exact freeBelow_claim_iff below owner ip
  | release owner => exact iff_of_true (freeBelow_release below owner) trivial

theorem exists_new_owner (p : IpPool) : ∃ owner, p.leases.held.lookup owner = none := by
  obtain ⟨owner, isNew⟩ := Infinite.exists_notMem_finset p.leases.held.keys.toFinset
  refine ⟨owner, AList.lookup_eq_none.mpr fun isOld => isNew ?_⟩
  exact List.mem_toFinset.mpr (AList.mem_keys.mp isOld)

/-- New owners use up what is below the cursor, and then a free address above it is left. -/
theorem not_givesAll_of_lost {i : Nat} {ip : Ipv4Addr} (isNth : p.subnet.nth i = some ip) (above : 1 ≤ i)
    (within : i ≤ p.subnet.size - 2) (free : ip ∉ p.leases.taken) (lost : p.next < i) : ¬ p.GivesAll := by
  induction cursor : p.next using Nat.strong_induction_on generalizing p with
  | h cursor ih =>
    subst cursor
    intro all
    obtain ⟨owner, isNew⟩ := p.exists_new_owner
    rcases p.acquire_of_new isNew with ⟨-, acquired⟩ | ⟨j, new, newFree, isFree, acquired⟩
    · exact free (all [] owner (by rw [List.map_nil, run, acquired]) i ip isNth above within)
    · obtain ⟨least, reached, isNewNth, -⟩ := p.firstFree_eq_some isFree
      have inReach : j ≤ p.next := reached.trans (min_le_left _ _)
      have stillFree : ip ∉ (p.leases.grant owner new newFree).taken := by
        rw [p.leases.mem_taken_grant newFree]
        rintro (rfl | ⟨isTaken, -⟩)
        · have sameIndex := (p.subnet.index_of_nth isNth).symm.trans (p.subnet.index_of_nth isNewNth)
          omega
        · exact free isTaken
      have isNext : (p.apply (.acquire owner)) =
          { p with leases := p.leases.grant owner new newFree, next := j - 1 } := by rw [apply, acquired]
      have lostNext := ih (j - 1) (by omega)
        (p := { p with leases := p.leases.grant owner new newFree, next := j - 1 }) isNth within stillFree
      apply lostNext (show j - 1 < i by omega) rfl
      intro owners
      have later := all (owner :: owners)
      rwa [List.map_cons, run, isNext] at later

theorem freeBelow_acquires (below : p.FreeBelow) (owners : List SessionKey) :
    (run apply p (owners.map .acquire)).FreeBelow := by
  induction owners generalizing p with
  | nil => exact below
  | cons owner owners ih => exact ih (freeBelow_acquire below owner)

theorem givesAll_iff : p.GivesAll ↔ p.FreeBelow := by
  constructor
  · intro all i ip isNth above within free
    by_contra lost
    exact not_givesAll_of_lost isNth above within free (not_le.mp lost) all
  · intro below owners
    exact complete_of_freeBelow (freeBelow_acquires below owners)

theorem freeBelow_new (subnet : Subnet) : (IpPool.new subnet).FreeBelow := by
  intro i ip _ _ within _
  exact within

/-- In every state of a run no two owners share an address and every address is given out before
an owner goes without, exactly if no claim gives up a lease above the cursor. -/
theorem pool_run_iff (subnet : Subnet) (ops : List PoolOp) :
    Throughout apply (fun p => p.Exclusive ∧ p.GivesAll) (IpPool.new subnet) ops ↔
      RunMeets apply Careful (IpPool.new subnet) ops := by
  apply @throughout_iff_runMeets _ _ apply (fun _ _ => True) Careful FreeBelow
  · exact fun _ op _ careful below => (apply_freeBelow_iff below op).mpr careful
  · exact fun p below => ⟨p.exclusive, givesAll_iff.mpr below⟩
  · exact fun _ op _ below careless kept => careless ((apply_freeBelow_iff below op).mp (givesAll_iff.mp kept.2))
  · exact freeBelow_new subnet
  · exact runMeets_of_forall (fun _ _ => trivial) _ _

/-- The owner of the upper of two addresses claims the lower one, and another owner finds
nothing. -/
def swappedLease : List PoolOp := [.acquire "a", .claim "a" 0x64400001, .acquire "b"]

def smallSubnet : Subnet := Subnet.ofAddr 0x64400000 30 (Nat.le_add_right 30 2)

theorem not_pool_run_swappedLease :
    let p := run apply (IpPool.new smallSubnet) [.acquire "a", .claim "a" 0x64400001]
    (p.acquire "b").1 = none ∧ p.subnet.nth 2 = some 0x64400002 ∧ 0x64400002 ∉ p.leases.taken ∧
      ¬ Throughout apply (fun p => p.Exclusive ∧ p.GivesAll) (IpPool.new smallSubnet) swappedLease := by
  intro p
  have noneLeft : (p.acquire "b").1 = none := by decide
  have isNth : p.subnet.nth 2 = some 0x64400002 := by decide
  have free : 0x64400002 ∉ p.leases.taken := by decide
  refine ⟨noneLeft, isNth, free, fun all => ?_⟩
  exact free (all.2.2.1.2 [] "b" noneLeft 2 _ isNth (by decide) (by decide))

end IpPool

end Nfrp.Vnet
