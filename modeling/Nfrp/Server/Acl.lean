import Nfrp.P2p.Rendezvous
import Nfrp.Server.HttpHead

/-!
# Access control by address

A rule is an address and how many of its first bits count.  Who is denied is refused; then,
where there is anyone who is allowed, nobody else is let in.  The two families of addresses
are never compared, so that an IPv4 address in its mapped form is one of IPv6.
-/

namespace Nfrp.Security

open Lib Nfrp.NatHole

def width : IpAddr → Nat
  | .v4 _ => 32
  | .v6 _ => 128

structure Cidr where
  net : IpAddr
  bits : Nat
  fits : bits ≤ width net
  deriving DecidableEq

structure AclConfig where
  allow : List (List Char)
  deny : List (List Char)

structure CompiledAcl where
  allow : List Cidr
  deny : List Cidr

section

-- How a text is shown between quotation marks.
variable (shown : List Char → String)

def Cidr.parse (s : List Char) : Except String Cidr :=
  let s := trimmed s
  let (addrPart, bitsPart) :=
    match splitOnce '/' s with
    | some (a, b) => (a, some b)
    | none => (s, none)
  match IpAddr.parse (trimmed addrPart) with
  | none => .error s!"IP 白/黑名单里的地址非法：{shown addrPart}"
  | some net =>
    match bitsPart with
    | none => .ok ⟨net, width net, Nat.le_refl _⟩
    | some b =>
      match fromStrRadix 10 255 (trimmed b) with
      | none => .error s!"CIDR 前缀长度非法：{shown b}"
      | some v =>
        if fits : v ≤ width net then .ok ⟨net, v, fits⟩
        else .error s!"CIDR 前缀长度 {v} 超过 {width net}（{String.ofList s}）"

def AclConfig.compile (cfg : AclConfig) : Except String CompiledAcl := do
  let allow ← cfg.allow.mapM (Cidr.parse shown)
  let deny ← cfg.deny.mapM (Cidr.parse shown)
  return { allow, deny }

end

def Cidr.contains (c : Cidr) (ip : IpAddr) : Bool :=
  match c.net, ip with
  | .v4 net, .v4 i =>
    if c.bits = 0 then true
    else
      let shift := 32 - c.bits
      net >>> shift == i >>> shift
  | .v6 net, .v6 i =>
    if c.bits = 0 then true
    else
      let shift := 128 - c.bits
      net >>> shift == i >>> shift
  | _, _ => false

namespace CompiledAcl

def permits (acl : CompiledAcl) (ip : IpAddr) : Bool :=
  if acl.deny.any (·.contains ip) then false
  else if acl.allow.isEmpty then true
  else acl.allow.any (·.contains ip)

def check (acl : CompiledAcl) (ip : IpAddr) : Except String Unit :=
  if acl.deny.any (·.contains ip) then .error s!"{ipText ip} 命中 IP 黑名单"
  else if !acl.allow.isEmpty && !acl.allow.any (·.contains ip) then .error s!"{ipText ip} 不在 IP 白名单内"
  else .ok ()

end CompiledAcl

def Agree (bits : Nat) : IpAddr → IpAddr → Prop
  | .v4 a, .v4 b => ∀ i < bits, a.getMsbD i = b.getMsbD i
  | .v6 a, .v6 b => ∀ i < bits, a.getMsbD i = b.getMsbD i
  | _, _ => False

/-- Denied by no rule, and allowed by one if there are any. -/
def Allowed (acl : CompiledAcl) (ip : IpAddr) : Prop :=
  (∀ c ∈ acl.deny, ¬Agree c.bits c.net ip) ∧ (acl.allow = [] ∨ ∃ c ∈ acl.allow, Agree c.bits c.net ip)

/-- The form of an IPv4 address that a listener of both families reports. -/
def mapped (addr : Ipv4Addr) : IpAddr := .v6 (BitVec.ofNat 128 (0xffff * 2 ^ 32 + addr.toNat))

theorem shifted_eq_iff {w bits : Nat} (fits : bits ≤ w) (a b : BitVec w) :
    a >>> (w - bits) = b >>> (w - bits) ↔ ∀ i < bits, a.getMsbD i = b.getMsbD i := by
  constructor
  · intro same i inside
    have atBit := congrArg (fun x => x.getMsbD (i + (w - bits))) same
    have placed : i + (w - bits) < w := by omega
    simpa [BitVec.getMsbD_ushiftRight, placed] using atBit
  · intro agree
    apply BitVec.eq_of_getMsbD_eq
    intro i inside
    by_cases shifted : i < w - bits
    · simp [BitVec.getMsbD_ushiftRight, shifted]
    · have same := agree (i - (w - bits)) (by omega)
      simp [BitVec.getMsbD_ushiftRight, shifted, same]

/-- A rule matches what agrees with its network in the bits that count. -/
theorem Cidr.contains_iff (c : Cidr) (ip : IpAddr) : c.contains ip ↔ Agree c.bits c.net ip := by
  obtain ⟨net, bits, fits⟩ := c
  cases net with
  | v4 net =>
    cases ip with
    | v4 i =>
      simp only [Cidr.contains, Agree]
      split
      next none => simp [none]
      next => rw [beq_iff_eq, shifted_eq_iff (show bits ≤ 32 from fits)]
    | v6 i => simp [Cidr.contains, Agree]
  | v6 net =>
    cases ip with
    | v4 i => simp [Cidr.contains, Agree]
    | v6 i =>
      simp only [Cidr.contains, Agree]
      split
      next none => simp [none]
      next => rw [beq_iff_eq, shifted_eq_iff (show bits ≤ 128 from fits)]

namespace CompiledAcl

variable (acl : CompiledAcl) (ip : IpAddr)

theorem permits_iff : acl.permits ip ↔ Allowed acl ip := by
  simp only [permits, Allowed, ← Cidr.contains_iff]
  by_cases denied : acl.deny.any (·.contains ip)
  · obtain ⟨c, member, covers⟩ := List.any_eq_true.mp denied
    rw [if_pos denied]
    exact iff_of_false Bool.false_ne_true fun allowed => allowed.1 c member covers
  · have noRule : ∀ c ∈ acl.deny, ¬c.contains ip := fun c member covers => denied (List.any_eq_true.mpr ⟨c, member, covers⟩)
    rw [if_neg denied, and_iff_right noRule]
    by_cases isEmpty : acl.allow = []
    · simp [isEmpty]
    · simp [isEmpty]

theorem check_iff : acl.check ip = .ok () ↔ Allowed acl ip := by
  rw [← permits_iff, check, permits]
  split
  next => simp
  next => by_cases isEmpty : acl.allow = [] <;> by_cases allowed : acl.allow.any (·.contains ip) <;> simp_all

end CompiledAcl

theorem mapM_eq_ok_iff {Text Rule Error : Type} {read : Text → Except Error Rule} {texts : List Text} {rules : List Rule} :
    texts.mapM read = .ok rules ↔ List.Forall₂ (fun text rule => read text = .ok rule) texts rules := by
  induction texts generalizing rules with
  | nil =>
    rw [List.mapM_nil, List.forall₂_nil_left_iff]
    exact ⟨fun same => (Except.ok.inj same).symm, fun isNil => isNil ▸ rfl⟩
  | cons text texts ih =>
    rw [List.mapM_cons, bind_eq_ok_iff]
    constructor
    · rintro ⟨rule, isRule, both⟩
      obtain ⟨rest, areRules, same⟩ := bind_eq_ok_iff.mp both
      cases same
      exact .cons isRule (ih.mp areRules)
    · rintro (_ | ⟨isRule, areRules⟩)
      exact ⟨_, isRule, bind_eq_ok_iff.mpr ⟨_, ih.mpr areRules, rfl⟩⟩

/-- The rules are those that the texts stand for, and there is no list where one stands for none. -/
theorem AclConfig.compile_iff (shown : List Char → String) (cfg : AclConfig) (acl : CompiledAcl) :
    cfg.compile shown = .ok acl ↔
      List.Forall₂ (fun text rule => Cidr.parse shown text = .ok rule) cfg.allow acl.allow ∧
        List.Forall₂ (fun text rule => Cidr.parse shown text = .ok rule) cfg.deny acl.deny := by
  rw [← mapM_eq_ok_iff, ← mapM_eq_ok_iff, compile, bind_eq_ok_iff]
  constructor
  · rintro ⟨allow, isAllow, both⟩
    obtain ⟨deny, isDeny, same⟩ := bind_eq_ok_iff.mp both
    cases same
    exact ⟨isAllow, isDeny⟩
  · rintro ⟨isAllow, isDeny⟩
    exact ⟨_, isAllow, bind_eq_ok_iff.mpr ⟨_, isDeny, rfl⟩⟩

theorem norm_mapped (addr : Ipv4Addr) : P2p.norm (mapped addr) = .v4 addr := by
  have small := addr.isLt
  have isLong : (BitVec.ofNat 128 (0xffff * 2 ^ 32 + addr.toNat)).toNat = 0xffff * 2 ^ 32 + addr.toNat := by
    rw [BitVec.toNat_ofNat]
    omega
  have isMapped : BitVec.ofNat 128 (0xffff * 2 ^ 32 + addr.toNat) >>> 32 = 0xffff := by
    apply BitVec.eq_of_toNat_eq
    rw [BitVec.toNat_ushiftRight, isLong, Nat.shiftRight_eq_div_pow]
    change (0xffff * 2 ^ 32 + addr.toNat) / 2 ^ 32 = 0xffff
    omega
  have isFront : (BitVec.ofNat 128 (0xffff * 2 ^ 32 + addr.toNat)).truncate 32 = addr := by
    apply BitVec.eq_of_toNat_eq
    rw [BitVec.truncate_eq_setWidth, BitVec.toNat_setWidth, isLong]
    omega
  rw [mapped, P2p.norm, if_pos isMapped, isFront]

/-- Rules match, and lists decide, as they say; it is the same host in both forms, but a rule for
IPv4 does not match the mapped one. -/
theorem decides :
    (∀ shown (cfg : AclConfig) (acl : CompiledAcl), cfg.compile shown = .ok acl ↔
      List.Forall₂ (fun text rule => Cidr.parse shown text = .ok rule) cfg.allow acl.allow ∧
        List.Forall₂ (fun text rule => Cidr.parse shown text = .ok rule) cfg.deny acl.deny) ∧
    (∀ (c : Cidr) ip, c.contains ip ↔ Agree c.bits c.net ip) ∧
    (∀ (acl : CompiledAcl) ip, (acl.permits ip ↔ Allowed acl ip) ∧ (acl.check ip = .ok () ↔ Allowed acl ip)) ∧
    (∀ (addr : Ipv4Addr) ip, P2p.sameHost (mapped addr) ip = P2p.sameHost (.v4 addr) ip ∧
      P2p.sameHost ip (mapped addr) = P2p.sameHost ip (.v4 addr)) ∧
    ∀ (c : Cidr) (net addr : Ipv4Addr), ¬(c.net = .v4 net ∧ c.contains (mapped addr)) := by
  refine ⟨AclConfig.compile_iff, Cidr.contains_iff, fun acl ip => ⟨acl.permits_iff ip, acl.check_iff ip⟩, ?_, ?_⟩
  · intro addr ip
    rw [P2p.sameHost, P2p.sameHost, P2p.sameHost, P2p.sameHost, norm_mapped]
    exact ⟨rfl, rfl⟩
  · rintro c net addr ⟨isNet, covers⟩
    rw [Cidr.contains_iff, isNet] at covers
    exact covers

/-- Who is denied gets in through a listener that reports the mapped form. -/
theorem not_same_mapped :
    let acl : CompiledAcl := ⟨[], [⟨.v4 0x01020304, 32, Nat.le_refl _⟩]⟩
    acl.permits (.v4 0x01020304) = false ∧ acl.permits (mapped 0x01020304) = true := by
  decide

end Nfrp.Security
