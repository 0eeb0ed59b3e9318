import Nfrp.Lib.Ip
import Nfrp.Lib.Leases

/-!
# Subnets and the address pool

The pool hands out addresses from the top of the subnet downwards; what is given
back may be handed out again.
-/

namespace Nfrp.Vnet

open Lib

/-- The name of a registration, made by the server: `{client}-{run_id}`. -/
abbrev SessionKey := String

def maskOf (prefixLen : Nat) : Ipv4Addr :=
  if prefixLen = 0 then 0#32 else BitVec.allOnes 32 <<< (32 - prefixLen)

structure Subnet where
  net : Ipv4Addr
  prefixLen : Nat
  prefixLe : prefixLen ≤ 32
  aligned : net &&& maskOf prefixLen = net
  deriving DecidableEq

namespace Subnet

def ofAddr (addr : Ipv4Addr) (prefixLen : Nat) (prefixLe : prefixLen ≤ 32) : Subnet where
  net := addr &&& maskOf prefixLen
  prefixLen := prefixLen
  prefixLe := prefixLe
  aligned := by rw [BitVec.and_assoc, BitVec.and_self]

/-- `100.64.0.0/24`; without a slash the prefix is 24 bits long. -/
def parse (s : String) : Except String Subnet := do
  let s := trimmed s.toList
  let addrPart := ((splitOnce '/' s).map (·.1)).getD s
  let some addr := Ipv4Addr.parse (trimmed addrPart)
    | throw ("虚拟网段地址非法：" ++ (String.ofList addrPart).quote)
  match (splitOnce '/' s).map (·.2) with
  | none => pure (ofAddr addr 24 (by decide))
  | some p =>
    match parseUnsigned 255 (trimmed p) with
    | none => throw ("虚拟网段前缀长度非法：" ++ (String.ofList p).quote)
    | some prefixLen =>
      if prefixLe : prefixLen ≤ 32 then pure (ofAddr addr prefixLen prefixLe)
      else throw ("虚拟网段前缀长度 " ++ toString prefixLen ++ " 超过 32")

variable (s : Subnet)

def size : Nat := 2 ^ (32 - s.prefixLen)

def contains (ip : Ipv4Addr) : Bool :=
  ip &&& maskOf s.prefixLen == s.net

/-- The `i`-th address, the network address being the first. -/
def nth (i : Nat) : Option Ipv4Addr :=
  if s.size ≤ i then none else some (BitVec.ofNat 32 (s.net.toNat + i))

def network : Ipv4Addr := s.net

def broadcast : Ipv4Addr := s.net + BitVec.ofNat 32 (s.size - 1)

def index (ip : Ipv4Addr) : Nat := (ip - s.net).toNat

end Subnet

theorem and_allOnes_shiftLeft {width : Nat} (x : BitVec width) (k : Nat) :
    x &&& BitVec.allOnes width <<< k = (x >>> k) <<< k := by
  apply BitVec.eq_of_getLsbD_eq
  intro i inside
  rw [BitVec.getLsbD_and, BitVec.getLsbD_shiftLeft, BitVec.getLsbD_shiftLeft, BitVec.getLsbD_ushiftRight,
    BitVec.getLsbD_allOnes]
  by_cases low : i < k
  · simp [low]
  · simp only [low, inside, Nat.add_sub_cancel' (Nat.not_lt.mp low), decide_true, decide_false, Bool.not_false,
      Bool.and_true, Bool.true_and, Bool.and_eq_left_iff_imp, decide_eq_true_eq]
    omega

theorem toNat_and_maskOf (ip : Ipv4Addr) {prefixLen : Nat} (prefixLe : prefixLen ≤ 32) :
    (ip &&& maskOf prefixLen).toNat =
      ip.toNat / 2 ^ (32 - prefixLen) * 2 ^ (32 - prefixLen) := by
  have below := Nat.div_mul_le_self ip.toNat (2 ^ (32 - prefixLen))
  have fits : ip.toNat / 2 ^ (32 - prefixLen) * 2 ^ (32 - prefixLen) < 2 ^ 32 := below.trans_lt ip.isLt
  rw [maskOf]
  split
  next isZero =>
    subst isZero
    rw [BitVec.and_zero, Nat.sub_zero, Nat.div_eq_of_lt ip.isLt]
    rfl
  · rw [and_allOnes_shiftLeft, BitVec.toNat_shiftLeft, BitVec.toNat_ushiftRight,
      Nat.shiftRight_eq_div_pow, Nat.shiftLeft_eq, Nat.mod_eq_of_lt fits]

namespace Subnet

variable (s : Subnet)

theorem size_pos : 0 < s.size := Nat.two_pow_pos _

theorem toNat_net : s.net.toNat / s.size * s.size = s.net.toNat := by
  conv => rhs; rw [← s.aligned]
  rw [toNat_and_maskOf _ s.prefixLe]
  rfl

theorem toNat_net_add_size : s.net.toNat + s.size ≤ 2 ^ 32 := by
  have divides : 2 ^ 32 = 2 ^ s.prefixLen * s.size := by
    rw [size, ← Nat.pow_add, Nat.add_sub_cancel' s.prefixLe]
  have below : s.net.toNat / s.size < 2 ^ s.prefixLen := by
    rw [Nat.div_lt_iff_lt_mul s.size_pos, ← divides]
    exact s.net.isLt
  rw [← s.toNat_net, divides, ← Nat.succ_mul]
  exact Nat.mul_le_mul_right _ below

theorem nth_eq_some {i : Nat} {ip : Ipv4Addr} :
    s.nth i = some ip ↔ i < s.size ∧ ip.toNat = s.net.toNat + i := by
  have fits := s.toNat_net_add_size
  rw [nth]
  constructor
  · intro isNth
    split at isNth
    · cases isNth
    next inside =>
      obtain rfl := Option.some.inj isNth
      rw [BitVec.toNat_ofNat, Nat.mod_eq_of_lt (by omega)]
      exact ⟨by omega, rfl⟩
  · rintro ⟨inside, value⟩
    rw [if_neg (by omega), ← value, BitVec.ofNat_toNat, BitVec.setWidth_eq]

theorem contains_iff {ip : Ipv4Addr} :
    s.contains ip ↔ s.net.toNat ≤ ip.toNat ∧ ip.toNat < s.net.toNat + s.size := by
  have masked := toNat_and_maskOf ip s.prefixLe
  have aligned := s.toNat_net
  have below := Nat.div_mul_le_self ip.toNat s.size
  have above := Nat.lt_div_mul_add s.size_pos (a := ip.toNat)
  rw [contains, beq_iff_eq, ← BitVec.toNat_inj, masked]
  change ip.toNat / s.size * s.size = s.net.toNat ↔ _
  constructor
  · intro same
    omega
  · rintro ⟨least, greatest⟩
    have sameBlock : ip.toNat / s.size = s.net.toNat / s.size := by
      rw [← aligned] at least greatest
      rw [← Nat.succ_mul] at greatest
      exact le_antisymm (Nat.le_of_lt_succ ((Nat.div_lt_iff_lt_mul s.size_pos).mpr greatest))
        ((Nat.le_div_iff_mul_le s.size_pos).mpr least)
    rw [sameBlock, aligned]

theorem toNat_index {ip : Ipv4Addr} (inside : s.contains ip) : s.net.toNat + s.index ip = ip.toNat := by
  have least := (s.contains_iff.mp inside).1
  rw [index, BitVec.toNat_sub_of_le (BitVec.le_def.mpr least)]
  omega

theorem nth_index {ip : Ipv4Addr} (inside : s.contains ip) : s.nth (s.index ip) = some ip := by
  have position := s.toNat_index inside
  have bound := (s.contains_iff.mp inside).2
  exact s.nth_eq_some.mpr ⟨by omega, position.symm⟩

theorem contains_of_nth {i : Nat} {ip : Ipv4Addr} (isNth : s.nth i = some ip) : s.contains ip := by
  obtain ⟨inside, value⟩ := s.nth_eq_some.mp isNth
  exact s.contains_iff.mpr (by omega)

theorem index_of_nth {i : Nat} {ip : Ipv4Addr} (isNth : s.nth i = some ip) : s.index ip = i := by
  have position := s.toNat_index (s.contains_of_nth isNth)
  have value := (s.nth_eq_some.mp isNth).2
  omega

theorem index_network : s.index s.network = 0 := by
  rw [index, network, BitVec.sub_self]
  rfl

theorem toNat_broadcast : s.broadcast.toNat = s.net.toNat + (s.size - 1) := by
  have fits := s.toNat_net_add_size
  have positive := s.size_pos
  rw [broadcast, BitVec.toNat_add, BitVec.toNat_ofNat, Nat.add_mod_mod]
  exact Nat.mod_eq_of_lt (by omega)

/-- An address that can be given to a member: in the subnet, and none of the
three that have a meaning of their own. -/
structure IsHost (gateway ip : Ipv4Addr) : Prop where
  inside : s.contains ip
  notNetwork : ip ≠ s.network
  notBroadcast : ip ≠ s.broadcast
  notGateway : ip ≠ gateway

instance (gateway ip : Ipv4Addr) : Decidable (s.IsHost gateway ip) :=
  decidable_of_iff (s.contains ip ∧ ip ≠ s.network ∧ ip ≠ s.broadcast ∧ ip ≠ gateway)
    ⟨fun ⟨inside, network, broadcast, gateway⟩ => ⟨inside, network, broadcast, gateway⟩,
      fun host => ⟨host.inside, host.notNetwork, host.notBroadcast, host.notGateway⟩⟩

theorem isHost_of_nth {i : Nat} {ip gateway : Ipv4Addr} (isNth : s.nth i = some ip) (above : 1 ≤ i)
    (below : i ≤ s.size - 2) (notGateway : ip ≠ gateway) : s.IsHost gateway ip := by
  obtain ⟨inside, value⟩ := s.nth_eq_some.mp isNth
  refine ⟨s.contains_of_nth isNth, ?_, ?_, notGateway⟩
  · rintro rfl
    have isFirst := s.index_of_nth isNth
    rw [index_network] at isFirst
    omega
  · rintro rfl
    rw [toNat_broadcast] at value
    omega

end Subnet

structure IpPool where
  subnet : Subnet
  leases : Leases SessionKey Ipv4Addr
  next : Nat

namespace IpPool

def new (subnet : Subnet) : IpPool where
  subnet := subnet
  leases := Leases.empty
  next := subnet.size - 2

variable (p : IpPool)

def cursor : Nat := min p.next (p.subnet.size - 2)

/-- The first free address at or below a position, and its position. -/
def firstFree : Nat → Option (Nat × {ip // ip ∉ p.leases.taken})
  | 0 => none
  | i + 1 =>
    match p.subnet.nth (i + 1) with
    | some ip => if free : ip ∉ p.leases.taken then some (i + 1, ⟨ip, free⟩) else firstFree i
    | none => firstFree i

def acquire (owner : SessionKey) : Option Ipv4Addr × IpPool :=
  match p.leases.held.lookup owner with
  | some ip => (some ip, p)
  | none =>
    match p.firstFree p.cursor with
    | some (i, ⟨ip, free⟩) => (some ip, { p with leases := p.leases.grant owner ip free, next := i - 1 })
    | none => (none, p)

def claim (owner : SessionKey) (ip : Ipv4Addr) : Bool × IpPool :=
  if free : ip ∉ p.leases.taken then (true, { p with leases := p.leases.grant owner ip free })
  else (false, p)

/-- The cursor goes back up to an address that was given back. -/
def release (owner : SessionKey) : IpPool :=
  match p.leases.held.lookup owner with
  | none => p
  | some ip =>
    let idx := p.subnet.index ip
    { p with
      leases := p.leases.release owner
      next := if p.next < idx ∧ idx ≤ p.subnet.size - 2 then idx else p.next }

@[simp]
theorem subnet_release (owner : SessionKey) : (p.release owner).subnet = p.subnet := by
  rw [release]
  split <;> rfl

@[simp]
theorem lookup_release (owner other : SessionKey) :
    (p.release owner).leases.held.lookup other =
      if other = owner then none else p.leases.held.lookup other := by
  rw [release]
  split
  next absent =>
    split
    next same => rw [same, absent]
    · rfl
  · exact p.leases.lookup_release owner other

theorem firstFree_eq_some {cursor i : Nat} {ip : {ip // ip ∉ p.leases.taken}}
    (isFree : p.firstFree cursor = some (i, ip)) :
    1 ≤ i ∧ i ≤ cursor ∧ p.subnet.nth i = some ip.1 ∧
      ∀ j, i < j → j ≤ cursor → ∀ taken ∈ p.subnet.nth j, taken ∈ p.leases.taken := by
  induction cursor with
  | zero => cases isFree
  | succ cursor ih =>
    rw [firstFree] at isFree
    split at isFree
    next candidate isNth =>
      split at isFree
      next free =>
        obtain ⟨rfl, rfl⟩ := Prod.mk.inj (Option.some.inj isFree)
        exact ⟨by omega, le_rfl, isNth, fun j later inside => by omega⟩
      next isTaken =>
        obtain ⟨above, below, isNthToo, skipped⟩ := ih isFree
        refine ⟨above, by omega, isNthToo, ?_⟩
        intro j later inside other isOther
        rcases Nat.lt_or_eq_of_le inside with lower | rfl
        · exact skipped j later (by omega) other isOther
        · rw [isNth] at isOther
          exact Option.some.inj isOther ▸ not_not.mp isTaken
    next outside =>
      obtain ⟨above, below, isNthToo, skipped⟩ := ih isFree
      refine ⟨above, by omega, isNthToo, ?_⟩
      intro j later inside other isOther
      rcases Nat.lt_or_eq_of_le inside with lower | rfl
      · exact skipped j later (by omega) other isOther
      · rw [outside] at isOther
        cases isOther

theorem firstFree_eq_none {cursor : Nat} (noneFree : p.firstFree cursor = none) :
    ∀ j, 1 ≤ j → j ≤ cursor → ∀ ip ∈ p.subnet.nth j, ip ∈ p.leases.taken := by
  induction cursor with
  | zero =>
    intro j above below
    omega
  | succ cursor ih =>
    intro j above below ip isNth
    rw [firstFree] at noneFree
    rcases Nat.lt_or_eq_of_le below with lower | rfl
    · refine ih ?_ j above (by omega) ip isNth
      split at noneFree
      · split at noneFree
        · cases noneFree
        · exact noneFree
      · exact noneFree
    · rw [Option.mem_def.mp isNth] at noneFree
      by_contra free
      simp only [free, not_false_eq_true, dite_true, reduceCtorEq] at noneFree

/-- The gateway is the first free address the pool comes across. -/
def GatewayIsNext (gateway : Ipv4Addr) : Prop :=
  gateway ∉ p.leases.taken ∧ 1 ≤ p.subnet.index gateway ∧ p.subnet.index gateway ≤ p.cursor ∧
    ∀ i ≤ p.cursor, p.subnet.index gateway < i → (p.subnet.nth i).all (· ∈ p.leases.taken)

instance (gateway : Ipv4Addr) : Decidable (p.GatewayIsNext gateway) :=
  inferInstanceAs (Decidable (_ ∧ _ ∧ _ ∧ _))

/-- The first free address is the gateway exactly if the gateway comes first. -/
theorem firstFree_eq_gateway_iff {i : Nat} {ip : {ip // ip ∉ p.leases.taken}}
    (isFree : p.firstFree p.cursor = some (i, ip)) {gateway : Ipv4Addr}
    (inside : p.subnet.contains gateway) : ip.1 = gateway ↔ p.GatewayIsNext gateway := by
  obtain ⟨above, below, isNth, skipped⟩ := p.firstFree_eq_some isFree
  constructor
  · rintro rfl
    have position := p.subnet.index_of_nth isNth
    refine ⟨ip.2, by omega, by omega, ?_⟩
    intro j within later
    rw [Option.all_eq_true]
    exact fun other isOther => decide_eq_true (skipped j (by omega) within other isOther)
  · rintro ⟨free, _, within, taken⟩
    have isGateway := p.subnet.nth_index inside
    rcases Nat.lt_trichotomy i (p.subnet.index gateway) with lower | same | higher
    · exact absurd (skipped _ lower within gateway isGateway) free
    · rw [← same, isNth] at isGateway
      exact Option.some.inj isGateway
    · have isTaken := taken i below higher
      rw [isNth, Option.all_some, decide_eq_true_eq] at isTaken
      exact absurd isTaken ip.2

theorem acquire_of_new {owner : SessionKey} (isNew : p.leases.held.lookup owner = none) :
    (p.firstFree p.cursor = none ∧ p.acquire owner = (none, p)) ∨
      ∃ i ip, ∃ free : ip ∉ p.leases.taken, p.firstFree p.cursor = some (i, ⟨ip, free⟩) ∧
        p.acquire owner = (some ip, { p with leases := p.leases.grant owner ip free, next := i - 1 }) := by
  rw [acquire, isNew]
  cases isFree : p.firstFree p.cursor with
  | none => exact .inl ⟨rfl, rfl⟩
  | some found => exact .inr ⟨found.1, found.2.1, found.2.2, rfl, rfl⟩

/-- What a new owner is given is a host address exactly if the gateway is not next. -/
theorem isHost_of_firstFree {i : Nat} {ip : {ip // ip ∉ p.leases.taken}}
    (isFree : p.firstFree p.cursor = some (i, ip)) {gateway : Ipv4Addr}
    (inside : p.subnet.contains gateway) : p.subnet.IsHost gateway ip.1 ↔ ¬ p.GatewayIsNext gateway := by
  obtain ⟨above, below, isNth, _⟩ := p.firstFree_eq_some isFree
  rw [← p.firstFree_eq_gateway_iff isFree inside]
  constructor
  · exact fun host => host.notGateway
  · exact p.subnet.isHost_of_nth isNth above (below.trans (min_le_right _ _))

end IpPool

end Nfrp.Vnet
