import Nfrp.Kcp.Codec

/-!
# The KCP session

A session as the code computes it: `send` cuts a message into fragments,
`input` feeds it a datagram, `recv` hands out a whole message, `update` and
`flushNow` drive acknowledgements, probes, first transmissions and
retransmissions.  Machine integers wrap, as in the release profile.  `flush` is
split along the numbered steps of the source; `out` grows by one datagram for
each segment emitted.
-/

namespace Nfrp

open Lib

abbrev Kcp.Datagram := List UInt8

open Kcp in
structure Kcp where
  conv : U32
  mss : Nat
  sndUna : U32
  sndNxt : U32
  rcvNxt : U32
  ssthresh : U32
  rxRttval : U32
  rxSrtt : U32
  rxRto : U32
  rxMinrto : U32
  sndWnd : U32
  rcvWnd : U32
  rmtWnd : U32
  cwnd : U32
  probe : U32
  interval : U32
  tsFlush : U32
  nodelay : Bool
  updated : Bool
  tsProbe : U32
  probeWait : U32
  incr : U32
  current : U32
  /-- Zero switches fast retransmission off. -/
  fastresend : U32
  sndQueue : List Seg
  rcvQueue : List Seg
  sndBuf : List Seg
  rcvBuf : List Seg
  acklist : List (U32 × U32)
  out : List Datagram
  dead : Bool
  deriving DecidableEq, Repr

namespace Kcp

/-- An MTU of zero selects the default.  The subtraction is that of `usize`: an
MTU below the header wraps around, and one equal to it leaves no room for data,
so that `send` divides by zero. -/
def new (conv : U32) (mtu : Nat) : Kcp where
  conv := conv
  mss := ((if mtu = 0 then ikcpMtuDef else mtu) + 2 ^ 64 - header) % 2 ^ 64
  sndUna := 0
  sndNxt := 0
  rcvNxt := 0
  ssthresh := ikcpThreshInit
  rxRttval := 0
  rxSrtt := 0
  rxRto := ikcpRtoDef
  rxMinrto := ikcpRtoMin
  sndWnd := ikcpWndSnd
  rcvWnd := ikcpWndRcv
  rmtWnd := ikcpWndRcv
  cwnd := 0
  probe := 0
  interval := ikcpInterval
  tsFlush := ikcpInterval
  nodelay := false
  updated := false
  tsProbe := 0
  probeWait := 0
  incr := 0
  current := 0
  fastresend := 0
  sndQueue := []
  rcvQueue := []
  sndBuf := []
  rcvBuf := []
  acklist := []
  out := []
  dead := false

def setNodelay (k : Kcp) (nodelay : Bool) (interval fastresend : U32) : Kcp :=
  let clamped := umin (umax interval 1) 5000
  { k with
    nodelay := nodelay
    rxMinrto := if nodelay then ikcpRtoNdl else ikcpRtoMin
    interval := if 0 < interval then clamped else k.interval
    tsFlush := if 0 < interval then clamped else k.tsFlush
    fastresend := fastresend
    incr := 0 }

def fragmentCount (mss len : Nat) : Nat :=
  (len + mss - 1) / mss

/-- The chunks of a message, numbered downwards so that the last carries zero. -/
def fragments (mss : Nat) (buf : List UInt8) : List Seg :=
  let count := fragmentCount mss buf.length
  (List.range count).map fun i =>
    { Seg.new ((buf.drop (i * mss)).take mss) with frg := UInt8.ofNat (count - 1 - i) }

/-- `none` is the panic of a division by zero. -/
def send (k : Kcp) (buf : List UInt8) : Option (Kcp × Nat) :=
  if buf.isEmpty then some (k, 0)
  else if k.mss = 0 then none
  else if 255 < fragmentCount k.mss buf.length then some (k, 0)
  else some ({ k with sndQueue := k.sndQueue ++ fragments k.mss buf }, buf.length)

def completeLength : List Seg → Option Nat
  | [] => none
  | seg :: rest =>
    if seg.frg = 0 then some seg.data.length
    else (completeLength rest).map (seg.data.length + ·)

def popMessage : List Seg → List UInt8 × List Seg
  | [] => ([], [])
  | seg :: rest =>
    if seg.frg = 0 then (seg.data, rest)
    else (seg.data ++ (popMessage rest).1, (popMessage rest).2)

def recv (k : Kcp) : Kcp × Option (List UInt8) :=
  match completeLength k.rcvQueue with
  | none => (k, none)
  | some complete =>
    if maxRecvMsg < complete then
      ({ k with rcvQueue := [], rcvBuf := [] }, none)
    else
      ({ k with rcvQueue := (popMessage k.rcvQueue).2 }, some (popMessage k.rcvQueue).1)

def updateRtt (k : Kcp) (rtt : U32) : Kcp :=
  let delta := rtt - k.rxSrtt
  let absDelta := if delta.toInt < 0 then -delta else delta
  let rxSrtt := if k.rxSrtt = 0 then rtt else k.rxSrtt + delta.sdiv 8
  let rxRttval := if k.rxSrtt = 0 then rtt / 2
    else k.rxRttval + (absDelta - k.rxRttval).sdiv 4
  let rto := rxSrtt + umax (rxRttval * 4) k.interval
  { k with rxSrtt, rxRttval, rxRto := umin (umax rto k.rxMinrto) ikcpRtoMax }

/-- Count a skipped acknowledgement on the leading segments after `sn`. -/
def bumpFastack (sn : U32) : List Seg → List Seg
  | [] => []
  | seg :: rest =>
    if 0 < i32From (seg.sn - sn) then
      { seg with fastack := seg.fastack + 1 } :: bumpFastack sn rest
    else
      seg :: rest

def insertSeg (new : Seg) : List Seg → List Seg
  | [] => [new]
  | seg :: rest =>
    if 0 < i32From (seg.sn - new.sn) then new :: seg :: rest
    else seg :: insertSeg new rest

/-- Move what is contiguous from the receive buffer to the receive queue, as far
as there is room. -/
def moveContiguous (rcvWnd : U32) :
    (rcvBuf rcvQueue : List Seg) → (rcvNxt : U32) → List Seg × List Seg × U32
  | [], rcvQueue, rcvNxt => ([], rcvQueue, rcvNxt)
  | front :: rcvBuf, rcvQueue, rcvNxt =>
    if front.sn ≠ rcvNxt ∨ rcvWnd.toNat ≤ rcvQueue.length then
      (front :: rcvBuf, rcvQueue, rcvNxt)
    else
      moveContiguous rcvWnd rcvBuf (rcvQueue ++ [front]) (rcvNxt + 1)

def handleUna (k : Kcp) (una : U32) : Kcp :=
  { k with
    sndBuf := k.sndBuf.filter fun s => 0 ≤ i32From (s.sn - una)
    sndUna := if 0 < i32From (una - k.sndUna) then una else k.sndUna }

def handleAck (k : Kcp) (sn ts : U32) : Kcp :=
  let rtt := k.current - ts
  let k := if rtt < 0x80000000 then k.updateRtt rtt else k
  { k with sndBuf := bumpFastack sn (k.sndBuf.eraseP fun s => s.sn = sn) }

/-- The number is inside the receive window and not yet moved out of it. -/
def Acceptable (rcvNxt rcvWnd sn : U32) : Prop :=
  i32From (sn - (rcvNxt + rcvWnd)) < 0 ∧ 0 ≤ i32From (sn - rcvNxt)

instance (rcvNxt rcvWnd sn : U32) : Decidable (Acceptable rcvNxt rcvWnd sn) :=
  inferInstanceAs (Decidable (_ ∧ _))

/-- The receive buffer with a segment put in its place, unless its number is
already there. -/
def bufferSeg (rcvBuf : List Seg) (seg : Seg) : List Seg :=
  if rcvBuf.any fun s => s.sn = seg.sn then rcvBuf
  else insertSeg { seg with resendts := 0 } rcvBuf

def handlePush (k : Kcp) (seg : Seg) : Kcp :=
  if Acceptable k.rcvNxt k.rcvWnd seg.sn then
    let moved := moveContiguous k.rcvWnd (bufferSeg k.rcvBuf seg) k.rcvQueue k.rcvNxt
    { k with
      acklist := k.acklist ++ [(seg.sn, seg.ts)]
      rcvBuf := moved.1
      rcvQueue := moved.2.1
      rcvNxt := moved.2.2 }
  else
    k

/-- What every segment says, whatever its command: the peer's window and UNA. -/
def hear (k : Kcp) (seg : Seg) : Kcp :=
  handleUna { k with rmtWnd := seg.wnd.setWidth 32 } seg.una

def handleSeg (k : Kcp) (seg : Seg) : Kcp :=
  let k := k.hear seg
  if seg.cmd = ikcpCmdAck then k.handleAck seg.sn seg.ts
  else if seg.cmd = ikcpCmdPush then k.handlePush seg
  else if seg.cmd = ikcpCmdWask then { k with probe := k.probe ||| ikcpAskTell }
  else k

/-- The segments of a datagram, up to the first of another conversation. -/
def inputSegs (k : Kcp) : List Seg → Kcp × Except KcpError Unit
  | [] => (k, .ok ())
  | seg :: segs =>
    if seg.conv ≠ k.conv then (k, .error .wrongConv)
    else inputSegs (k.handleSeg seg) segs

def input (k : Kcp) (pkt : Datagram) : Kcp × Except KcpError Unit :=
  match (decodeSegs pkt).get (decodeSegs_isSome pkt) with
  | .error e => (k, .error e)
  | .ok segs => k.inputSegs segs

def wndUnused (k : Kcp) : U32 :=
  let queued := BitVec.ofNat 32 k.rcvQueue.length
  if queued ≤ k.rcvWnd then k.rcvWnd - queued else 0

def emit (k : Kcp) (seg : Seg) : Kcp :=
  { k with out := k.out ++ [seg.encode] }

def control (k : Kcp) (cmd : UInt8) (ts sn : U32) : Seg :=
  { Seg.new [] with
    conv := k.conv
    cmd := cmd
    wnd := k.wndUnused.setWidth 16
    ts := ts
    sn := sn
    una := k.rcvNxt }

def flushAcks (k : Kcp) : Kcp :=
  (k.acklist.foldl (fun k ack => k.emit (k.control ikcpCmdAck ack.2 ack.1))
    { k with acklist := [] })

/-- Step 2: when to ask a peer without window, judged at `current`. -/
def scheduleProbe (k : Kcp) : Kcp :=
  if k.rmtWnd = 0 then
    if k.probeWait = 0 then
      { k with probeWait := ikcpProbeInit, tsProbe := k.current + ikcpProbeInit }
    else if 0 ≤ i32From (k.current - k.tsProbe) then
      let probeWait := umin (k.probeWait + k.probeWait / 2) ikcpProbeLimit
      { k with
        probeWait := probeWait
        tsProbe := k.current + probeWait
        probe := k.probe ||| ikcpAskSend }
    else k
  else
    { k with tsProbe := 0, probeWait := 0 }

def flushProbes (k : Kcp) : Kcp :=
  let asked := if k.probe &&& ikcpAskSend ≠ 0 then k.emit (k.control ikcpCmdWask 0 0) else k
  let told := if k.probe &&& ikcpAskTell ≠ 0 then asked.emit (asked.control ikcpCmdWins 0 0)
    else asked
  { told with probe := 0 }

/-- Step 3: the congestion window, which nothing reads when `nodelay` is set. -/
def growCwnd (k : Kcp) : Kcp :=
  if k.nodelay then k
  else if k.cwnd < k.ssthresh then
    { k with cwnd := k.cwnd + 1, incr := k.incr + BitVec.ofNat 32 k.mss }
  else
    let incr := BitVec.ofNat 32 (k.mss * k.mss) / umax k.incr 1 + BitVec.ofNat 32 k.mss / 16
    { k with incr := 0, cwnd := umin (k.cwnd + umax incr 1) (umax k.rmtWnd 1 * 2) }

def stamp (k : Kcp) (sn : U32) (seg : Seg) : Seg :=
  { seg with
    conv := k.conv
    cmd := ikcpCmdPush
    wnd := k.wndUnused.setWidth 16
    ts := k.current
    sn := sn
    una := k.rcvNxt
    resendts := k.current
    rto := k.rxRto
    fastack := 0
    xmit := 0 }

/-- Step 4: queued segments enter the send buffer while the window is open. -/
def fillSndBuf (k : Kcp) (maxSn : U32) : (sndQueue sndBuf : List Seg) → (sndNxt : U32) → Kcp
  | [], sndBuf, sndNxt => { k with sndQueue := [], sndBuf := sndBuf, sndNxt := sndNxt }
  | seg :: sndQueue, sndBuf, sndNxt =>
    if i32From (sndNxt - maxSn) < 0 then
      k.fillSndBuf maxSn sndQueue (sndBuf ++ [k.stamp sndNxt seg]) (sndNxt + 1)
    else
      { k with sndQueue := seg :: sndQueue, sndBuf := sndBuf, sndNxt := sndNxt }

def promoteQueued (k : Kcp) : Kcp :=
  k.fillSndBuf (k.sndUna + umin k.sndWnd k.rmtWnd) k.sndQueue k.sndBuf k.sndNxt

/-- The fast retransmission threshold, unreachable in practice when switched off. -/
def fastLimit (k : Kcp) : U32 :=
  if 0 < k.fastresend then k.fastresend else 0xFFFFFFFF

inductive Resend where
  | first
  | timeout
  | fast
  | none
  deriving DecidableEq, Repr

def resendRule (k : Kcp) (seg : Seg) : Resend :=
  if seg.xmit = 0 then .first
  else if 0 ≤ i32From (k.current - seg.resendts) then .timeout
  else if k.fastLimit ≤ seg.fastack then .fast
  else .none

def resendSeg (k : Kcp) (seg : Seg) : Seg :=
  let rtomin : U32 := if k.nodelay then 0 else k.rxRto >>> 3
  let sent := { seg with ts := k.current, wnd := k.wndUnused.setWidth 16, una := k.rcvNxt }
  match k.resendRule seg with
  | .first =>
    { sent with xmit := seg.xmit + 1, rto := k.rxRto, resendts := k.current + k.rxRto + rtomin }
  | .timeout =>
    let rto := seg.rto + if k.nodelay then seg.rto / 2 else umax seg.rto k.rxRto
    { sent with xmit := seg.xmit + 1, rto := rto, resendts := k.current + rto }
  | .fast =>
    { sent with
      xmit := seg.xmit + 1
      fastack := 0
      rto := k.rxRto
      resendts := k.current + k.rxRto }
  | .none => seg

def resent (k : Kcp) : List Seg :=
  (k.sndBuf.filter fun seg => k.resendRule seg ≠ .none).map k.resendSeg

def changeCount (k : Kcp) : U32 :=
  BitVec.ofNat 32
    (k.sndBuf.filter fun seg => k.resendRule seg = .timeout ∨ k.resendRule seg = .fast).length

def lostPeer (k : Kcp) : Bool :=
  k.sndBuf.any fun seg => k.resendRule seg = .timeout ∧ ikcpDeadlinkDefault ≤ seg.xmit + 1

/-- Step 6: shrink the window after a retransmission, give up a dead peer. -/
def settle (k : Kcp) (change : U32) (lost : Bool) : Kcp :=
  let shrunk :=
    if 0 < change ∧ k.nodelay = false then
      let ssthresh := umax ((k.sndNxt - k.sndUna) / 2) ikcpThreshMin
      let cwnd := ssthresh + umax k.fastresend 1
      { k with ssthresh := ssthresh, cwnd := cwnd, incr := cwnd * BitVec.ofNat 32 k.mss }
    else k
  if lost then
    { shrunk with
      ssthresh := ikcpThreshMin
      cwnd := 1
      incr := BitVec.ofNat 32 k.mss
      dead := true }
  else shrunk

def retransmit (k : Kcp) : Kcp :=
  let emitted := k.resent.foldl emit { k with sndBuf := k.sndBuf.map k.resendSeg }
  emitted.settle k.changeCount k.lostPeer

def flush (k : Kcp) : Kcp :=
  k.flushAcks.scheduleProbe.flushProbes.growCwnd.promoteQueued.retransmit

/-- The time the next flush is counted from: the first update starts the count,
and so does a clock that seems to run backwards. -/
def flushStart (k : Kcp) (current : U32) : U32 :=
  let started := if k.updated then k.tsFlush else current
  if 0x80000000 ≤ current - started then current else started

def FlushDue (k : Kcp) (current : U32) : Prop :=
  k.interval ≤ current - k.flushStart current ∨ 10000 ≤ current - k.flushStart current

instance (k : Kcp) (current : U32) : Decidable (k.FlushDue current) :=
  inferInstanceAs (Decidable (_ ∨ _))

def update (k : Kcp) (current : U32) : Kcp :=
  if k.FlushDue current then
    flush { k with current := current, updated := true, tsFlush := current }
  else
    { k with current := current, updated := true, tsFlush := k.flushStart current }

def flushNow (k : Kcp) (current : U32) : Kcp :=
  flush { k with current := current }

end Kcp

end Nfrp
