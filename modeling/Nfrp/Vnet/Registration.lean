import Nfrp.Vnet.Traffic

/-!
# The tables of the switch agree

The lease table of the pool says who holds what; the routes, the queues and the
owners are views of it.  Two things break when registrations are unlucky: the
pool does not know the gateway, and an address that was asked for is not checked
against the two addresses at the ends of the subnet.
-/

namespace Nfrp.Vnet

open Lib

namespace VnetHub

structure Consistent (g : VnetHub) : Prop where
  poolSubnet : g.pool.subnet = g.subnet
  gatewayInside : g.subnet.contains g.gateway
  routed : ∀ ip client,
    g.routes.lookup g.network ip = some client ↔ g.pool.leases.held.lookup client = some ip
  sinks : ∀ client, client ∈ g.sinks ↔ client ∈ g.pool.leases.held
  owners : ∀ client, client ∈ g.owners ↔ client ∈ g.pool.leases.held

/-- Every address that is held can be given to a member. -/
def Hosts (g : VnetHub) : Prop :=
  ∀ client ip, g.pool.leases.held.lookup client = some ip → g.subnet.IsHost g.gateway ip

structure SameFor (g after : VnetHub) (client : SessionKey) : Prop where
  routes : ∀ ip, after.routes.lookup after.network ip = some client ↔ g.routes.lookup g.network ip = some client
  sinks : after.sinks.lookup client = g.sinks.lookup client
  owners : after.owners.lookup client = g.owners.lookup client
  leases : after.pool.leases.held.lookup client = g.pool.leases.held.lookup client

theorem SameFor.refl (g : VnetHub) (client : SessionKey) : g.SameFor g client :=
  ⟨fun _ => Iff.rfl, rfl, rfl, rfl⟩

variable {g : VnetHub}

theorem Consistent.tables (consistent : g.Consistent) : g.tables.Consistent :=
  ⟨consistent.poolSubnet, consistent.gatewayInside, consistent.routed, consistent.sinks, consistent.owners⟩

theorem Consistent.of_tables (consistent : g.tables.Consistent) : g.Consistent :=
  ⟨consistent.poolSubnet, consistent.gatewayInside, consistent.routed, consistent.sinks, consistent.owners⟩

theorem sameFor_leaveLocked {client other : SessionKey} (isOther : other ≠ client) :
    g.SameFor (g.leaveLocked client) other where
  routes ip := by
    rw [leaveLocked, Switch.lookup_unregister, Option.filter_eq_some_iff, bne_iff_ne]
    exact and_iff_left isOther
  sinks := AList.lookup_erase_ne isOther
  owners := AList.lookup_erase_ne isOther
  leases := by rw [leaveLocked, IpPool.lookup_release, if_neg isOther]

theorem Consistent.leaveLocked (consistent : g.Consistent) (client : SessionKey) :
    (g.leaveLocked client).Consistent where
  poolSubnet := (g.pool.subnet_release client).trans consistent.poolSubnet
  gatewayInside := consistent.gatewayInside
  routed ip other := by
    simp only [VnetHub.leaveLocked, Switch.lookup_unregister, Option.filter_eq_some_iff, bne_iff_ne,
      consistent.routed, IpPool.lookup_release]
    split
    next same => simp [same]
    next isOther => exact and_iff_left isOther
  sinks other := by
    simp only [VnetHub.leaveLocked, AList.mem_erase, consistent.sinks, mem_iff_lookup, IpPool.lookup_release]
    split
    next same => simp [same]
    next isOther => exact and_iff_right isOther
  owners other := by
    simp only [VnetHub.leaveLocked, AList.mem_erase, consistent.owners, mem_iff_lookup, IpPool.lookup_release]
    split
    next same => simp [same]
    next isOther => exact and_iff_right isOther

theorem Hosts.leaveLocked (hosts : g.Hosts) (client : SessionKey) : (g.leaveLocked client).Hosts := by
  intro other ip isLease
  rw [VnetHub.leaveLocked, IpPool.lookup_release] at isLease
  split at isLease
  · cases isLease
  · exact hosts other ip isLease

theorem sameFor_forget {client other : SessionKey} (isOther : other ≠ client) :
    g.SameFor (g.forget client) other := by
  rw [forget]
  split
  · exact sameFor_leaveLocked isOther
  · exact SameFor.refl g other

theorem Consistent.forget (consistent : g.Consistent) (client : SessionKey) : (g.forget client).Consistent := by
  rw [VnetHub.forget]
  split
  · exact consistent.leaveLocked client
  · exact consistent

theorem Hosts.forget (hosts : g.Hosts) (client : SessionKey) : (g.forget client).Hosts := by
  rw [VnetHub.forget]
  split
  · exact hosts.leaveLocked client
  · exact hosts

@[simp]
theorem gateway_forget (client : SessionKey) : (g.forget client).gateway = g.gateway := by
  rw [forget]
  split <;> rfl

@[simp]
theorem nextGeneration_forget (client : SessionKey) : (g.forget client).nextGeneration = g.nextGeneration := by
  rw [forget]
  split <;> rfl

theorem Consistent.lookup_forget (consistent : g.Consistent) (client : SessionKey) :
    (g.forget client).pool.leases.held.lookup client = none := by
  rw [VnetHub.forget]
  split
  · rw [VnetHub.leaveLocked, IpPool.lookup_release, if_pos rfl]
  next absent => rwa [AList.lookup_eq_none, ← consistent.sinks]

/-- What is given to a session that holds nothing is a host address. -/
def Assignable (g : VnetHub) : Option Ipv4Addr → Prop
  | some w => w = g.gateway ∨ w ≠ g.subnet.network ∧ w ≠ g.subnet.broadcast
  | none => ¬ g.pool.GatewayIsNext g.gateway

instance (g : VnetHub) : (want : Option Ipv4Addr) → Decidable (g.Assignable want)
  | some w => inferInstanceAs (Decidable (w = g.gateway ∨ w ≠ g.subnet.network ∧ w ≠ g.subnet.broadcast))
  | none => inferInstanceAs (Decidable (¬ g.pool.GatewayIsNext g.gateway))

theorem assign_eq_ok (consistent : g.Consistent) {client : SessionKey}
    (isNew : g.pool.leases.held.lookup client = none) {want : Option Ipv4Addr} {ip : Ipv4Addr} {pool : IpPool}
    (assigned : g.assign client want = .ok (ip, pool)) :
    pool.subnet = g.subnet ∧
      (∀ other, pool.leases.held.lookup other =
        if other = client then some ip else g.pool.leases.held.lookup other) ∧
      (∀ other, g.pool.leases.held.lookup other ≠ some ip) ∧
      (g.subnet.IsHost g.gateway ip ↔ g.Assignable want) := by
  have unheld {ip : Ipv4Addr} (free : ip ∉ g.pool.leases.taken) (other : SessionKey) :
      g.pool.leases.held.lookup other ≠ some ip := fun isOther =>
    free ((g.pool.leases.isTaken ip).mpr ⟨other, isOther⟩)
  cases want with
  | some w =>
    simp only [assign, IpPool.claim] at assigned
    split at assigned
    · cases assigned
    next inside =>
      split at assigned
      · cases assigned
      next notGateway =>
        by_cases free : w ∉ g.pool.leases.taken
        · simp only [free, not_false_eq_true, dite_true] at assigned
          obtain ⟨rfl, rfl⟩ := Prod.mk.inj (Except.ok.inj assigned)
          refine ⟨consistent.poolSubnet, fun other => g.pool.leases.lookup_grant client other free,
            unheld free, ?_⟩
          rw [Assignable, or_iff_right notGateway]
          constructor
          · exact fun host => ⟨host.notNetwork, host.notBroadcast⟩
          · rintro ⟨notNetwork, notBroadcast⟩
            exact ⟨by simpa using inside, notNetwork, notBroadcast, notGateway⟩
        · simp only [free, dite_false, reduceCtorEq] at assigned
  | none =>
    simp only [assign] at assigned
    rcases g.pool.acquire_of_new isNew with full | ⟨i, found, free, isFree, acquired⟩
    · rw [full.2] at assigned
      cases assigned
    · rw [acquired] at assigned
      obtain ⟨rfl, rfl⟩ := Prod.mk.inj (Except.ok.inj assigned)
      refine ⟨consistent.poolSubnet, fun other => g.pool.leases.lookup_grant client other free,
        unheld free, ?_⟩
      have inside := consistent.gatewayInside
      rw [← consistent.poolSubnet] at inside ⊢
      exact g.pool.isHost_of_firstFree isFree inside

/-- Nothing else stands in the way of an address that must not be given out. -/
theorem exists_assign_of_not_assignable (consistent : g.Consistent) (hosts : g.Hosts) {client : SessionKey}
    (isNew : g.pool.leases.held.lookup client = none) {want : Option Ipv4Addr}
    (forbidden : ¬ g.Assignable want) : ∃ assigned, g.assign client want = .ok assigned := by
  cases want with
  | some w =>
    simp only [Assignable, not_or, not_and_or, not_not] at forbidden
    obtain ⟨notGateway, isEnd⟩ := forbidden
    have inside : g.subnet.contains w := by
      have positive := g.subnet.size_pos
      rw [Subnet.contains_iff]
      rcases isEnd with rfl | rfl
      · rw [Subnet.network]
        omega
      · rw [Subnet.toNat_broadcast]
        omega
    have free : w ∉ g.pool.leases.taken := by
      rw [g.pool.leases.isTaken]
      rintro ⟨other, isOther⟩
      have host := hosts other w isOther
      exact isEnd.elim host.notNetwork host.notBroadcast
    simp only [assign, IpPool.claim, inside, notGateway, free, Bool.not_true, Bool.false_eq_true, if_false,
      not_false_eq_true, dite_true]
    exact ⟨_, rfl⟩
  | none =>
    obtain ⟨free, above, below, _⟩ := not_not.mp forbidden
    have inside := consistent.gatewayInside
    rw [← consistent.poolSubnet] at inside
    rw [assign]
    rcases g.pool.acquire_of_new isNew with ⟨noneFree, _⟩ | ⟨i, found, _, _, acquired⟩
    · have isNth := g.pool.subnet.nth_index inside
      exact absurd (g.pool.firstFree_eq_none noneFree _ above below g.gateway isNth) free
    · rw [acquired]
      exact ⟨_, rfl⟩

theorem Consistent.enrol (consistent : g.Consistent) {client : SessionKey} {ip : Ipv4Addr} {pool : IpPool}
    (sink : Nat) (isNew : g.pool.leases.held.lookup client = none) (sameSubnet : pool.subnet = g.subnet)
    (granted : ∀ other, pool.leases.held.lookup other =
      if other = client then some ip else g.pool.leases.held.lookup other)
    (free : ∀ other, g.pool.leases.held.lookup other ≠ some ip) :
    (g.enrol client ip pool sink).2.Consistent where
  poolSubnet := sameSubnet
  gatewayInside := consistent.gatewayInside
  routed other owner := by
    simp only [VnetHub.enrol, Switch.lookup_register, granted]
    by_cases isClient : owner = client
    · subst isClient
      by_cases isIp : other = ip
      · simp [isIp]
      · simp [isIp, Ne.symm isIp, consistent.routed, isNew]
    · by_cases isIp : other = ip
      · simp [isIp, isClient, Ne.symm isClient, free]
      · simp [isIp, isClient, consistent.routed]
  sinks other := by
    simp only [VnetHub.enrol, AList.mem_insert, consistent.sinks, mem_iff_lookup, granted]
    by_cases isClient : other = client <;> simp [isClient]
  owners other := by
    simp only [VnetHub.enrol, AList.mem_insert, consistent.owners, mem_iff_lookup, granted]
    by_cases isClient : other = client <;> simp [isClient]

structure Admitted (g : VnetHub) (client : SessionKey) (want : Option Ipv4Addr) (ip : Ipv4Addr) (pool : IpPool) :
    Prop where
  assigned : (g.forget client).assign client want = .ok (ip, pool)
  consistent : ∀ sink, ((g.forget client).enrol client ip pool sink).2.Consistent
  hosts : g.Hosts → ∀ sink,
    (((g.forget client).enrol client ip pool sink).2.Hosts ↔ (g.forget client).Assignable want)

theorem Consistent.admitted (consistent : g.Consistent) {client : SessionKey} {want : Option Ipv4Addr}
    {ip : Ipv4Addr} {pool : IpPool} (assigned : (g.forget client).assign client want = .ok (ip, pool)) :
    g.Admitted client want ip pool := by
  have forgotten := consistent.forget client
  have isNew := consistent.lookup_forget client
  obtain ⟨sameSubnet, granted, free, isHost⟩ := assign_eq_ok forgotten isNew assigned
  refine ⟨assigned, fun sink => forgotten.enrol sink isNew sameSubnet granted free, ?_⟩
  intro hosts sink
  rw [← isHost]
  constructor
  · intro all
    exact all client ip ((granted client).trans (if_pos rfl))
  · intro host other held isHeld
    have isLease := isHeld
    simp only [VnetHub.enrol, granted] at isLease
    split at isLease
    · exact Option.some.inj isLease ▸ host
    · exact hosts.forget client other held isLease

end VnetHub

namespace Net

/-- The registrations and the tables fit together: each queue belongs to a
registration, and the owner of a session is its last registration. -/
structure Inv (w : Net) : Prop where
  consistent : w.hub.Consistent
  next : w.hub.nextGeneration = w.members.length % 2 ^ 64
  generation : ∀ i m, w.members[i]? = some m → m.generation = (i + 1) % 2 ^ 64
  current : ∀ client i, w.hub.sinks.lookup client = some i →
    ∃ m, w.members[i]? = some m ∧ m.key = client ∧ w.hub.owners.lookup client = some m.generation

variable {w : Net}

theorem Inv.leaveLocked (inv : w.Inv) (client : SessionKey) :
    Inv { w with hub := w.hub.leaveLocked client } where
  consistent := inv.consistent.leaveLocked client
  next := inv.next
  generation := inv.generation
  current other i isSink := by
    simp only [VnetHub.leaveLocked, lookup_erase_eq] at isSink ⊢
    split at isSink
    · cases isSink
    next isOther =>
      rw [if_neg isOther]
      exact inv.current other i isSink

theorem Inv.forget (inv : w.Inv) (client : SessionKey) : Inv { w with hub := w.hub.forget client } := by
  rw [VnetHub.forget]
  split
  · exact inv.leaveLocked client
  · exact inv

theorem Inv.leaveIfCurrent (inv : w.Inv) (client : SessionKey) (generation : Nat) :
    Inv { w with hub := w.hub.leaveIfCurrent client generation } := by
  rw [VnetHub.leaveIfCurrent]
  split
  · exact inv
  · exact inv.leaveLocked client

theorem Inv.enrol (inv : w.Inv) {client : SessionKey} (network : String) {want : Option Ipv4Addr}
    {ip : Ipv4Addr} {pool : IpPool} (admitted : w.hub.Admitted client want ip pool) :
    Inv { w with
      hub := ((w.hub.forget client).enrol client ip pool w.members.length).2
      members := w.members ++
        [⟨client, network, ((w.hub.forget client).enrol client ip pool w.members.length).1.generation, [], [],
          none⟩] } where
  consistent := admitted.consistent w.members.length
  next := by
    simp only [VnetHub.enrol, VnetHub.nextGeneration_forget, inv.next, List.length_append, List.length_singleton]
    omega
  generation i m isMember := by
    rw [List.getElem?_append] at isMember
    split at isMember
    · exact inv.generation i m isMember
    next beyond =>
      rw [List.getElem?_singleton] at isMember
      split at isMember
      swap
      · cases isMember
      obtain rfl := Option.some.inj isMember
      simp only [VnetHub.enrol, VnetHub.nextGeneration_forget, inv.next]
      omega
  current other i isSink := by
    simp only [VnetHub.enrol, lookup_insert_eq] at isSink ⊢
    split at isSink
    next isClient =>
      obtain rfl := Option.some.inj isSink
      exact ⟨_, List.getElem?_concat_length, isClient.symm, if_pos isClient⟩
    next isOther =>
      obtain ⟨m, isMember, isKey, isOwner⟩ := (inv.forget client).current other i isSink
      rw [if_neg isOther]
      have inside := (List.getElem?_eq_some_iff.mp isMember).1
      exact ⟨m, (List.getElem?_append_left inside).trans isMember, isKey, isOwner⟩

theorem getElem?_of_registrations {after : Net} (same : after.registrations = w.registrations) {i : Nat}
    {m : Member} (isMember : w.members[i]? = some m) :
    ∃ later, after.members[i]? = some later ∧ later.registration = m.registration := by
  have entry := congrArg (·[i]?) (Prod.mk.inj same).2
  simp only [List.getElem?_map, isMember, Option.map_some] at entry
  exact Option.map_eq_some_iff.mp entry

theorem Inv.of_registrations (inv : w.Inv) {after : Net} (same : after.registrations = w.registrations) :
    after.Inv := by
  have sameTables := (Prod.mk.inj same).1
  have sameLength := congrArg List.length (Prod.mk.inj same).2
  have consistent : after.hub.tables.Consistent := sameTables ▸ inv.consistent.tables
  have sinks : after.hub.sinks = w.hub.sinks := (congrArg VnetHub.sinks sameTables :)
  have owners : after.hub.owners = w.hub.owners := (congrArg VnetHub.owners sameTables :)
  have next : after.hub.nextGeneration = w.hub.nextGeneration := (congrArg VnetHub.nextGeneration sameTables :)
  rw [List.length_map, List.length_map] at sameLength
  refine ⟨consistent.of_tables, by rw [next, inv.next, sameLength], ?_, ?_⟩
  · intro i m isMember
    obtain ⟨before, isBefore, isSame⟩ := getElem?_of_registrations same.symm isMember
    rw [← inv.generation i before isBefore]
    exact (congrArg (·.2.2) isSame).symm
  · intro client i isSink
    rw [sinks] at isSink
    obtain ⟨m, isMember, isKey, isOwner⟩ := inv.current client i isSink
    obtain ⟨later, isLater, isSame⟩ := getElem?_of_registrations same isMember
    refine ⟨later, isLater, (congrArg (·.1) isSame).trans isKey, ?_⟩
    rw [owners, isOwner]
    exact congrArg some (congrArg (·.2.2) isSame).symm

theorem hosts_of_registrations (hosts : w.hub.Hosts) {after : Net}
    (same : after.registrations = w.registrations) : after.hub.Hosts := by
  have hostsToo : w.hub.tables.Hosts := hosts
  rw [← (Prod.mk.inj same).1] at hostsToo
  exact hostsToo

theorem Inv.step (inv : w.Inv) (event : Event) : (w.step event).Inv := by
  cases event with
  | join client network want =>
    rw [Net.step, VnetHub.join]
    cases assigned : (w.hub.forget client).assign client want with
    | error reason => exact inv.forget client
    | ok given => exact inv.enrol network (inv.consistent.admitted assigned)
  | leave client => exact inv.leaveLocked client
  | dropGuard i =>
    rw [Net.step]
    split
    · exact inv.leaveIfCurrent _ _
    · exact inv
  | packet | deliver | recv => exact inv.of_registrations (registrations_step trivial)

/-- No address is given out that a member must not have, and no guard meets a
later registration of the same number. -/
def Meets (w : Net) : Event → Prop
  | .join client _ want => (w.hub.forget client).Assignable want
  | .dropGuard i =>
    ∀ m ∈ w.members[i]?, ∀ j ∈ w.hub.sinks.lookup m.key, j % 2 ^ 64 = i % 2 ^ 64 → j = i
  | _ => True

instance (w : Net) : (event : Event) → Decidable (w.Meets event)
  | .join client _ want => inferInstanceAs (Decidable ((w.hub.forget client).Assignable want))
  | .dropGuard i => inferInstanceAs (Decidable (∀ m ∈ w.members[i]?, ∀ j ∈ w.hub.sinks.lookup m.key,
      j % 2 ^ 64 = i % 2 ^ 64 → j = i))
  | .leave _ | .packet .. | .deliver _ | .recv _ => .isTrue trivial

/-- A join that fails changes nothing for the others; the end of a connection
that was replaced changes nothing for the one that replaced it. -/
def KeepsOthers (w : Net) : Event → Prop
  | .join client network want => ∀ reason,
      (w.hub.join client want w.members.length).1 = .error reason →
        ∀ other ≠ client, w.hub.SameFor (w.step (.join client network want)).hub other
  | .dropGuard i => ∀ m ∈ w.members[i]?, ∀ j ∈ w.hub.sinks.lookup m.key, j ≠ i →
      w.hub.SameFor (w.step (.dropGuard i)).hub m.key
  | _ => True

theorem hosts_join_iff (inv : w.Inv) (hosts : w.hub.Hosts) (client : SessionKey) (network : String)
    (want : Option Ipv4Addr) :
    (w.step (.join client network want)).hub.Hosts ↔ w.Meets (.join client network want) := by
  rw [step, VnetHub.join, Meets]
  cases assigned : (w.hub.forget client).assign client want with
  | error reason =>
    refine iff_of_true (hosts.forget client) ?_
    by_contra forbidden
    obtain ⟨given, isGiven⟩ := VnetHub.exists_assign_of_not_assignable (inv.consistent.forget client)
      (hosts.forget client) (inv.consistent.lookup_forget client) forbidden
    rw [assigned] at isGiven
    cases isGiven
  | ok given => exact (inv.consistent.admitted assigned).hosts hosts w.members.length

theorem keepsOthers_join (client : SessionKey) (network : String) (want : Option Ipv4Addr) :
    w.KeepsOthers (.join client network want) := by
  intro reason failed other isOther
  rw [step]
  rw [VnetHub.join] at failed ⊢
  cases assigned : (w.hub.forget client).assign client want with
  | error reason => exact VnetHub.sameFor_forget isOther
  | ok given =>
    rw [assigned] at failed
    cases failed

theorem keepsOthers_dropGuard_iff (inv : w.Inv) (i : Nat) :
    w.KeepsOthers (.dropGuard i) ↔ w.Meets (.dropGuard i) := by
  refine forall₂_congr fun m isMember => forall₂_congr fun j isSink => ?_
  obtain ⟨last, isLast, -, isOwner⟩ := inv.current m.key j isSink
  have number := inv.generation i m isMember
  have lastNumber := inv.generation j last isLast
  rw [step, Option.mem_def.mp isMember]
  simp only [VnetHub.leaveIfCurrent, isOwner]
  constructor
  · intro keeps collide
    by_contra replaced
    have sameNumber : last.generation = m.generation := by omega
    have stays := (keeps replaced).sinks
    rw [sameNumber, if_neg (not_not.mpr rfl), VnetHub.leaveLocked, AList.lookup_erase,
      Option.mem_def.mp isSink] at stays
    cases stays
  · intro apart replaced
    have otherNumber : last.generation ≠ m.generation := by
      intro sameNumber
      exact replaced (apart (by omega))
    rw [if_pos (fun same => otherNumber (Option.some.inj same))]
    exact VnetHub.SameFor.refl _ _

/-- What a step may break is kept exactly if the step meets the condition. -/
theorem step_keeps_iff (inv : w.Inv) (hosts : w.hub.Hosts) (event : Event) :
    (w.step event).hub.Hosts ∧ w.KeepsOthers event ↔ w.Meets event := by
  cases event with
  | join client network want =>
    rw [hosts_join_iff inv hosts, and_iff_left (keepsOthers_join client network want)]
  | leave client => exact iff_of_true ⟨hosts.leaveLocked client, trivial⟩ trivial
  | dropGuard i =>
    rw [keepsOthers_dropGuard_iff inv]
    refine and_iff_right ?_
    rw [step]
    split
    · rw [VnetHub.leaveIfCurrent]
      split
      · exact hosts
      · exact hosts.leaveLocked _
    · exact hosts
  | packet | deliver | recv =>
    exact iff_of_true ⟨hosts_of_registrations hosts (registrations_step trivial), trivial⟩ trivial

end Net

/-- The tables of the switch know the same sessions, no address has two of them,
and every address is one a member can have. -/
structure VnetHub.Sound (g : VnetHub) : Prop where
  routes : ∀ client, (∃ ip, g.routes.lookup g.network ip = some client) ↔ client ∈ g.pool.leases.held
  sinks : ∀ client, client ∈ g.sinks ↔ client ∈ g.pool.leases.held
  owners : ∀ client, client ∈ g.owners ↔ client ∈ g.pool.leases.held
  routed : ∀ ip client,
    g.routes.lookup g.network ip = some client ↔ g.pool.leases.held.lookup client = some ip
  exclusive : ∀ client other ip, g.pool.leases.held.lookup client = some ip →
    g.pool.leases.held.lookup other = some ip → client = other
  hosts : g.Hosts

theorem VnetHub.Consistent.sound {g : VnetHub} (consistent : g.Consistent) (hosts : g.Hosts) : g.Sound where
  routes client := by simp only [consistent.routed, mem_iff_lookup]
  sinks := consistent.sinks
  owners := consistent.owners
  routed := consistent.routed
  exclusive _ _ _ := g.pool.leases.exclusive
  hosts := hosts

theorem VnetHub.contains_of_gatewayOf {cfg : VirtualNetConfig} {subnetS : String} {subnet : Subnet}
    {gateway : Ipv4Addr} (chosen : VnetHub.gatewayOf cfg subnetS subnet = .ok gateway) :
    subnet.contains gateway := by
  rw [VnetHub.gatewayOf] at chosen
  split at chosen
  · split at chosen
    next isFirst =>
      obtain rfl := Except.ok.inj chosen
      exact subnet.contains_of_nth isFirst
    · cases chosen
  split at chosen
  · cases chosen
  split at chosen
  next inside =>
    obtain rfl := Except.ok.inj chosen
    exact inside
  · cases chosen

theorem VnetHub.fromConfig_eq_ok {cfg : VirtualNetConfig} {hub : VnetHub}
    (accepted : VnetHub.fromConfig cfg = .ok hub) :
    ∃ subnet gateway, hub = VnetHub.new cfg subnet gateway ∧ subnet.contains gateway := by
  rw [VnetHub.fromConfig] at accepted
  simp only [bind, Except.bind, pure, Except.pure] at accepted
  split at accepted
  · cases accepted
  split at accepted
  · cases accepted
  next subnet isSubnet =>
    split at accepted
    · cases accepted
    split at accepted
    · cases accepted
    next gateway chosen =>
      exact ⟨subnet, gateway, (Except.ok.inj accepted).symm, VnetHub.contains_of_gatewayOf chosen⟩

theorem VnetHub.consistent_new (cfg : VirtualNetConfig) {subnet : Subnet} {gateway : Ipv4Addr}
    (inside : subnet.contains gateway) : (VnetHub.new cfg subnet gateway).Consistent where
  poolSubnet := rfl
  gatewayInside := inside
  routed _ _ := by simp [VnetHub.new, Switch.new, Switch.lookup, IpPool.new, Leases.empty]
  sinks _ := Iff.rfl
  owners _ := Iff.rfl

theorem Net.inv_start {cfg : VirtualNetConfig} {hub : VnetHub} (accepted : VnetHub.fromConfig cfg = .ok hub) :
    (Net.start hub).Inv := by
  obtain ⟨subnet, gateway, rfl, inside⟩ := VnetHub.fromConfig_eq_ok accepted
  refine ⟨VnetHub.consistent_new cfg inside, rfl, ?_, ?_⟩
  · exact fun _ _ isMember => nomatch isMember
  · exact fun _ _ isSink => nomatch isSink

/-- In every run whose steps all meet the condition the switch stays sound, and
no step that meets it disturbs the others. -/
theorem vnet_hub_sound {cfg : VirtualNetConfig} {hub : VnetHub} (accepted : VnetHub.fromConfig cfg = .ok hub)
    {events : List Event} (meets : RunMeets Net.step Net.Meets (Net.start hub) events) :
    (run Net.step (Net.start hub) events).hub.Sound ∧
      ∀ event, (run Net.step (Net.start hub) events).Meets event →
        (run Net.step (Net.start hub) events).KeepsOthers event := by
  have initially : (Net.start hub).Inv ∧ (Net.start hub).hub.Hosts := by
    refine ⟨Net.inv_start accepted, ?_⟩
    obtain ⟨subnet, gateway, rfl, _⟩ := VnetHub.fromConfig_eq_ok accepted
    exact fun _ _ isLease => nomatch isLease
  have preserved : ∀ (w : Net) event, w.Meets event → w.Inv ∧ w.hub.Hosts →
      (w.step event).Inv ∧ (w.step event).hub.Hosts := by
    rintro w event meets ⟨inv, hosts⟩
    exact ⟨inv.step event, ((Net.step_keeps_iff inv hosts event).mpr meets).1⟩
  have kept := run_invariant_of_meets preserved initially meets
  refine ⟨kept.1.consistent.sound kept.2, ?_⟩
  intro event meets
  exact ((Net.step_keeps_iff kept.1 kept.2 event).mpr meets).2

def smallConfig : VirtualNetConfig := { subnet := "10.0.0.0/30" }

def smallHub : VnetHub :=
  VnetHub.new smallConfig (Subnet.ofAddr 0x0a000000#32 30 (by decide)) 0x0a000001#32

/-- The second automatic address is that of the gateway; and an address that is
asked for may be the broadcast address. -/
theorem gateway_given_out :
    VnetHub.fromConfig smallConfig = .ok smallHub ∧
      ¬ (run Net.step (Net.start smallHub)
        [.join "laptop-1" "default" none, .join "laptop-2" "default" none]).hub.Sound ∧
      ¬ (run Net.step (Net.start smallHub)
        [.join "laptop-1" "default" (some 0x0a000003#32)]).hub.Sound := by
  refine ⟨rfl, fun sound => ?_, fun sound => ?_⟩
  · have gateway := sound.hosts "laptop-2" 0x0a000001#32 (by decide)
    exact gateway.notGateway rfl
  · have broadcast := sound.hosts "laptop-1" 0x0a000003#32 (by decide)
    exact broadcast.notBroadcast (by decide)

theorem vnet_hub_sound_example :
    (run Net.step (Net.start smallHub) [.join "laptop-1" "default" none,
      .join "laptop-1" "default" (some 0x0a000002#32), .dropGuard 0]).hub.Sound := by
  have accepted : VnetHub.fromConfig smallConfig = .ok smallHub := rfl
  exact (vnet_hub_sound accepted (by decide)).1

end Nfrp.Vnet
