import Nfrp.Lib.Bytes
import Nfrp.Lib.Serial

/-!
KCP segments and their wire format.

A datagram carries any number of segments, each a 24-byte header followed by
its data.  `decodeSegs` reads the datagram through checked accesses: `none` is
the panic of an access outside it (or a loop that did not come to an end), so
that the absence of both is a theorem and not a convention.
-/

namespace Nfrp.Kcp

open Lib

abbrev U16 := BitVec 16
abbrev U32 := BitVec 32

/-- `v as i32`: the wrapped difference of two sequence numbers or times, read
as signed. -/
def i32From (v : U32) : Int :=
  v.toInt

def umax (x y : U32) : U32 := if x ≤ y then y else x

def umin (x y : U32) : U32 := if x ≤ y then x else y

def ikcpRtoNdl : U32 := 30
def ikcpRtoMin : U32 := 100
def ikcpRtoDef : U32 := 200
def ikcpRtoMax : U32 := 60000

def ikcpCmdPush : UInt8 := 81
def ikcpCmdAck : UInt8 := 82
def ikcpCmdWask : UInt8 := 83
def ikcpCmdWins : UInt8 := 84
def ikcpAskSend : U32 := 1
def ikcpAskTell : U32 := 2

def ikcpWndSnd : U32 := 32
def ikcpWndRcv : U32 := 128
def ikcpMtuDef : Nat := 1400
def ikcpInterval : U32 := 10
def ikcpOverhead : Nat := 24
def ikcpThreshInit : U32 := 2
def ikcpThreshMin : U32 := 2
def ikcpProbeInit : U32 := 7000
def ikcpProbeLimit : U32 := 120000
def ikcpDeadlinkDefault : U32 := 20

def maxRecvMsg : Nat := 64 * 1024

def header : Nat := ikcpOverhead

structure Seg where
  conv : U32
  cmd : UInt8
  frg : UInt8
  wnd : U16
  ts : U32
  sn : U32
  una : U32
  data : List UInt8
  resendts : U32
  rto : U32
  /-- How many later segments were acknowledged before it. -/
  fastack : U32
  xmit : U32
  deriving DecidableEq, Repr

inductive KcpError where
  | tooShort
  | truncated
  | segTooLarge (len mtu : Nat)
  | wrongConv
  | dead
  deriving DecidableEq, Repr

namespace Seg

def new (data : List UInt8) : Seg where
  conv := 0
  cmd := 0
  frg := 0
  wnd := 0
  ts := 0
  sn := 0
  una := 0
  data := data
  resendts := 0
  rto := 0
  fastack := 0
  xmit := 0

def encodeHeader (seg : Seg) : List UInt8 :=
  leBytes 4 seg.conv.toNat ++ [seg.cmd] ++ [seg.frg] ++ leBytes 2 seg.wnd.toNat ++
    leBytes 4 seg.ts.toNat ++ leBytes 4 seg.sn.toNat ++ leBytes 4 seg.una.toNat ++
    leBytes 4 seg.data.length

def encode (seg : Seg) : List UInt8 :=
  seg.encodeHeader ++ seg.data

/-- What of a segment travels: the sender's bookkeeping does not. -/
def wire (seg : Seg) : Seg :=
  { seg with resendts := 0, rto := 0, fastack := 0, xmit := 0 }

@[simp]
theorem length_encodeHeader (seg : Seg) : seg.encodeHeader.length = header := by
  simp [encodeHeader, header, ikcpOverhead]

@[simp]
theorem length_encode (seg : Seg) : seg.encode.length = header + seg.data.length := by
  simp [encode]

end Seg

def readU32 (pkt : List UInt8) (i : Nat) : Option U32 :=
  (readLe 4 pkt i).map (BitVec.ofNat 32)

def readU16 (pkt : List UInt8) (i : Nat) : Option U16 :=
  (readLe 2 pkt i).map (BitVec.ofNat 16)

/-- The header at `i`, as a segment without data, and the length it announces. -/
def decodeHeader (pkt : List UInt8) (i : Nat) : Option (Seg × Nat) := do
  let conv ← readU32 pkt i
  let cmd ← pkt[i + 4]?
  let frg ← pkt[i + 5]?
  let wnd ← readU16 pkt (i + 6)
  let ts ← readU32 pkt (i + 8)
  let sn ← readU32 pkt (i + 12)
  let una ← readU32 pkt (i + 16)
  let len ← readU32 pkt (i + 20)
  return ({ Seg.new [] with conv, cmd, frg, wnd, ts, sn, una }, len.toNat)

/-- The loop of `decode_segs`, each turn of which consumes a header. -/
def decodeSegsFrom (pkt : List UInt8) :
    (fuel : Nat) → (i : Nat) → List Seg → Option (Except KcpError (List Seg))
  | 0, _, _ => none
  | fuel + 1, i, segs =>
    if i + header ≤ pkt.length then do
      let (seg, len) ← decodeHeader pkt i
      if pkt.length - (i + header) < len then
        return .error .truncated
      else if ikcpMtuDef < len then
        return .error (.segTooLarge len ikcpMtuDef)
      else
        let data ← slice pkt (i + header) (i + header + len)
        decodeSegsFrom pkt fuel (i + header + len) (segs ++ [{ seg with data }])
    else if segs.isEmpty then
      return .error .tooShort
    else
      return .ok segs

def decodeSegs (pkt : List UInt8) : Option (Except KcpError (List Seg)) :=
  decodeSegsFrom pkt (pkt.length + 1) 0 []

end Nfrp.Kcp
