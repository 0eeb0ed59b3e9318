import Nfrp.P2p.Address

/-!
# Datagrams in messages

A datagram travels over a work connection with the address of its visitor, which is
how a reply finds its way back.
-/

namespace Nfrp.Udp

open Lib hiding SocketAddr
open Nfrp.NatHole Nfrp.P2p

structure UdpAddr where
  ip : String := ""
  port : UInt16 := 0
  zone : String := ""
  deriving DecidableEq, Repr

namespace UdpAddr

def fromSocket : SocketAddr → UdpAddr
  | .v4 addr port => { ip := ipText (.v4 addr), port }
  | .v6 addr port _ scopeId => { ip := ipText (.v6 addr), port, zone := toString scopeId.toNat }

/-- The zone is not read. -/
def toSocket (a : UdpAddr) : Option SocketAddr :=
  (IpAddr.parse a.ip.toList).map fun ip => .new ip a.port

/-- An IPv6 address stands in brackets, with its zone. -/
def key (a : UdpAddr) : String :=
  match IpAddr.parse a.ip.toList with
  | some (.v6 _) =>
    if a.zone = "" then "[" ++ a.ip ++ "]:" ++ toString a.port.toNat
    else "[" ++ a.ip ++ "%" ++ a.zone ++ "]:" ++ toString a.port.toNat
  | _ => a.ip ++ ":" ++ toString a.port.toNat

end UdpAddr

structure UdpPacket where
  content : Option (List UInt8) := none
  localAddr : Option UdpAddr := none
  remoteAddr : Option UdpAddr := none
  deriving DecidableEq, Repr

namespace UdpPacket

def new (payload : List UInt8) (remote : SocketAddr) : UdpPacket where
  content := some payload
  remoteAddr := some (.fromSocket remote)

def payload (pkt : UdpPacket) : List UInt8 := pkt.content.getD []

end UdpPacket

/-- A message on a connection, as far as those who carry datagrams tell messages apart. -/
inductive FrpMessage where
  | udpPacket (pkt : UdpPacket)
  | ping
  | other (name : String)
  deriving DecidableEq, Repr

/-- A visitor is answered at the address it was seen under, the scope left out. -/
theorem toSocket_fromSocket (a : SocketAddr) : (UdpAddr.fromSocket a).toSocket = some (.new a.ip a.port) := by
  cases a with
  | v4 addr port =>
    rw [UdpAddr.fromSocket, UdpAddr.toSocket, parse_ipText]
    rfl
  | v6 addr port flowinfo scopeId =>
    rw [UdpAddr.fromSocket, UdpAddr.toSocket, parse_ipText]
    rfl

end Nfrp.Udp
