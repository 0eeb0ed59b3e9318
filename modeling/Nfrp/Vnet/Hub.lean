import Nfrp.Lib.Runs
import Nfrp.Vnet.Packet
import Nfrp.Vnet.Pool

/-!
# The virtual switch

One switch with an address pool and a gateway.  Registrations come and go in any
order; a registration that was replaced may be cleaned up late.  Packets are
passed on by destination, after their source was checked.
-/

namespace Nfrp.Vnet

open Lib

/-- network → (ip → session) -/
structure Switch where
  nets : AList fun _ : String => AList fun _ : Ipv4Addr => SessionKey

namespace Switch

def new : Switch := ⟨∅⟩

variable (s : Switch)

def register (network : String) (ip : Ipv4Addr) (client : SessionKey) : Switch :=
  ⟨s.nets.insert network (((s.nets.lookup network).getD ∅).insert ip client)⟩

def unregister (network : String) (client : SessionKey) : Switch :=
  match s.nets.lookup network with
  | some m => ⟨s.nets.insert network (retain (fun _ v => v != client) m)⟩
  | none => s

def lookup (network : String) (dst : Ipv4Addr) : Option SessionKey :=
  (s.nets.lookup network).bind (·.lookup dst)

/-- The addresses of a session; their order is for display only. -/
def ipsOf (network : String) (client : SessionKey) : List Ipv4Addr :=
  (((s.nets.lookup network).getD ∅).entries.filter (·.2 = client)).map (·.1)

theorem lookup_register (network : String) (ip dst : Ipv4Addr) (client : SessionKey) :
    (s.register network ip client).lookup network dst =
      if dst = ip then some client else s.lookup network dst := by
  rw [lookup, register, AList.lookup_insert, Option.bind_some, lookup_insert_eq, lookup]
  cases s.nets.lookup network with
  | none => rfl
  | some m => rfl

theorem lookup_unregister (network : String) (client : SessionKey) (dst : Ipv4Addr) :
    (s.unregister network client).lookup network dst = (s.lookup network dst).filter (· != client) := by
  rw [unregister]
  split
  next m isNet =>
    rw [lookup, AList.lookup_insert, Option.bind_some, lookup_retain, lookup, isNet, Option.bind_some]
  next absent => rw [lookup, absent, Option.bind_none, Option.filter_none]

theorem mem_ipsOf {network : String} {client : SessionKey} {ip : Ipv4Addr} :
    ip ∈ s.ipsOf network client ↔ s.lookup network ip = some client := by
  rw [ipsOf, lookup, List.mem_map]
  cases s.nets.lookup network with
  | none => simp
  | some m =>
    rw [Option.bind_some, lookup_eq_some_iff]
    simp

end Switch

structure VirtualNetConfig where
  gateway : String := ""
  network : String := "default"
  subnet : String := ""
  mtu : Nat := 1400

/-- The first message of a member, without its credentials. -/
structure VnetRegister where
  client : String
  network : String := "default"
  address : String := ""

/-- The senders of the message queues are named by numbers. -/
structure VnetHub where
  network : String
  subnet : Subnet
  gateway : Ipv4Addr
  mtu : Nat
  pool : IpPool
  routes : Switch
  sinks : AList fun _ : SessionKey => Nat
  owners : AList fun _ : SessionKey => Nat
  nextGeneration : Nat
  droppedUnroutable : Nat
  droppedFull : Nat
  droppedSpoofed : Nat

structure Joined where
  ip : Ipv4Addr
  subnet : Subnet
  gateway : Ipv4Addr
  mtu : Nat
  generation : Nat

def showAddr (ip : Ipv4Addr) : String :=
  ".".intercalate ((octets ip).map fun octet => toString octet.toNat)

def Subnet.text (s : Subnet) : String :=
  showAddr s.network ++ "/" ++ toString s.prefixLen

/-- What precedes the first slash, without blanks around it. -/
def bareAddress (s : String) : List Char :=
  trimmed (((splitOnce '/' s.toList).map (·.1)).getD s.toList)

namespace VnetHub

/-- The gateway is the first address of the subnet unless it was configured. -/
def gatewayOf (cfg : VirtualNetConfig) (subnetS : String) (subnet : Subnet) : Except String Ipv4Addr :=
  if trim cfg.gateway = "" then
    match subnet.nth 1 with
    | some ip => .ok ip
    | none => .error ("网段 " ++ subnetS ++ " 里取不出网关地址")
  else
    match Ipv4Addr.parse (bareAddress cfg.gateway) with
    | none => .error ("[vnet] gateway 非法：" ++ cfg.gateway)
    | some gw =>
      if subnet.contains gw then .ok gw
      else .error ("[vnet] gateway " ++ showAddr gw ++ " 不在网段 " ++ subnetS ++ " 里")

def new (cfg : VirtualNetConfig) (subnet : Subnet) (gateway : Ipv4Addr) : VnetHub where
  network := cfg.network
  subnet := subnet
  gateway := gateway
  mtu := cfg.mtu
  pool := IpPool.new subnet
  routes := Switch.new
  sinks := ∅
  owners := ∅
  nextGeneration := 0
  droppedUnroutable := 0
  droppedFull := 0
  droppedSpoofed := 0

def fromConfig (cfg : VirtualNetConfig) : Except String VnetHub := do
  let subnetS := trim cfg.subnet
  if subnetS = "" then
    throw "启用了 vnet_port 就必须配 [vnet] subnet（形如 subnet = \"100.64.0.0/24\"）——地址池没法凭空猜"
  let subnet ← Subnet.parse subnetS
  if subnet.size < 4 then
    throw ("[vnet] subnet 太小（" ++ subnetS ++ "），至少要能放下网关和几个客户端")
  let gateway ← gatewayOf cfg subnetS subnet
  pure (new cfg subnet gateway)

variable (g : VnetHub)

def leaveLocked (client : SessionKey) : VnetHub :=
  { g with
    routes := g.routes.unregister g.network client
    pool := g.pool.release client
    sinks := g.sinks.erase client
    owners := g.owners.erase client }

def leave (client : SessionKey) : VnetHub := g.leaveLocked client

def leaveIfCurrent (client : SessionKey) (generation : Nat) : VnetHub :=
  if g.owners.lookup client ≠ some generation then g else g.leaveLocked client

def forget (client : SessionKey) : VnetHub :=
  if client ∈ g.sinks then g.leaveLocked client else g

def assign (client : SessionKey) : Option Ipv4Addr → Except String (Ipv4Addr × IpPool)
  | some w =>
    if !g.subnet.contains w then .error ("请求的地址 " ++ showAddr w ++ " 不在虚拟网段 " ++ g.subnet.text ++ " 内")
    else if w = g.gateway then .error (showAddr w ++ " 是网关地址，不能分配给客户端")
    else
      match g.pool.claim client w with
      | (false, _) => .error ("地址 " ++ showAddr w ++ " 已被占用")
      | (true, pool) => .ok (w, pool)
  | none =>
    match g.pool.acquire client with
    | (none, _) => .error ("虚拟网段 " ++ g.subnet.text ++ " 的地址已用完")
    | (some ip, pool) => .ok (ip, pool)

def enrol (client : SessionKey) (ip : Ipv4Addr) (pool : IpPool) (sink : Nat) : Joined × VnetHub :=
  let generation := (g.nextGeneration + 1) % 2 ^ 64
  (⟨ip, g.subnet, g.gateway, g.mtu, generation⟩,
    { g with
      pool := pool
      routes := g.routes.register g.network ip client
      sinks := g.sinks.insert client sink
      nextGeneration := generation
      owners := g.owners.insert client generation })

def join (client : SessionKey) (want : Option Ipv4Addr) (sink : Nat) : Except String Joined × VnetHub :=
  let g := g.forget client
  match g.assign client want with
  | .error reason => (.error reason, g)
  | .ok (ip, pool) => (.ok (g.enrol client ip pool sink).1, (g.enrol client ip pool sink).2)

end VnetHub

end Nfrp.Vnet
