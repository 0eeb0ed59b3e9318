import Nfrp.Kcp.Session
import Nfrp.Lib.Overflow

/-!
# The clock functions with overflow checks

`updateRtt`, `flush` and `update` once more, as a build with overflow checks runs them: every
addition, multiplication and signed difference of the source that is not one of its wrapping
ones can fail, and then there is no session left.  A function that returns has computed what
the wrapping one computes.
-/

namespace Nfrp.Kcp

open Lib

def smoothChecked (k : Kcp) (rtt : U32) : Option (U32 × U32) :=
  if k.rxSrtt = 0 then some (rtt, rtt / 2)
  else
    (minusSigned rtt k.rxSrtt).bind fun delta =>
    (plusSigned k.rxSrtt (delta.sdiv 8)).bind fun rxSrtt =>
    (if delta.toInt < 0 then negateSigned delta else some delta).bind fun absDelta =>
    (minusSigned absDelta k.rxRttval).bind fun gap =>
    (plusSigned k.rxRttval (gap.sdiv 4)).map fun rxRttval => (rxSrtt, rxRttval)

def updateRttChecked (k : Kcp) (rtt : U32) : Option Kcp :=
  (k.smoothChecked rtt).bind fun smoothed =>
  (times smoothed.2 4).bind fun deviation =>
  (plus smoothed.1 (umax deviation k.interval)).map fun rto =>
    { k with
      rxSrtt := smoothed.1
      rxRttval := smoothed.2
      rxRto := umin (umax rto k.rxMinrto) ikcpRtoMax }

def handleAckChecked (k : Kcp) (sn ts : U32) : Option Kcp :=
  let rtt := k.current - ts
  (if rtt < 0x80000000 then k.updateRttChecked rtt else some k).map fun k =>
    { k with sndBuf := bumpFastack sn (k.sndBuf.eraseP fun s => s.sn = sn) }

def handleSegChecked (k : Kcp) (seg : Seg) : Option Kcp :=
  if seg.cmd = ikcpCmdAck then (k.hear seg).handleAckChecked seg.sn seg.ts else some (k.handleSeg seg)

def inputSegsChecked (k : Kcp) : List Seg → Option (Kcp × Except KcpError Unit)
  | [] => some (k, .ok ())
  | seg :: segs =>
    if seg.conv ≠ k.conv then some (k, .error .wrongConv)
    else (k.handleSegChecked seg).bind fun k => inputSegsChecked k segs

def inputChecked (k : Kcp) (pkt : Datagram) : Option (Kcp × Except KcpError Unit) :=
  match (decodeSegs pkt).get (decodeSegs_isSome pkt) with
  | .error e => some (k, .error e)
  | .ok segs => k.inputSegsChecked segs

def scheduleProbeChecked (k : Kcp) : Option Kcp :=
  if k.rmtWnd = 0 then
    if k.probeWait = 0 then
      (plus k.current ikcpProbeInit).map fun tsProbe => { k with probeWait := ikcpProbeInit, tsProbe }
    else if 0 ≤ i32From (k.current - k.tsProbe) then
      (plus k.probeWait (k.probeWait / 2)).bind fun grown =>
      (plus k.current (umin grown ikcpProbeLimit)).map fun tsProbe =>
        { k with
          probeWait := umin grown ikcpProbeLimit
          tsProbe
          probe := k.probe ||| ikcpAskSend }
    else some k
  else
    some { k with tsProbe := 0, probeWait := 0 }

/-- The square of the segment size is one of `usize`. -/
def growCwndChecked (k : Kcp) : Option Kcp :=
  if k.nodelay then some k
  else if k.cwnd < k.ssthresh then
    (plus k.cwnd 1).bind fun cwnd =>
    (plus k.incr (BitVec.ofNat 32 k.mss)).map fun incr => { k with cwnd, incr }
  else
    (if k.mss * k.mss < 2 ^ 64 then some (k.mss * k.mss) else none).bind fun square =>
    (plus (BitVec.ofNat 32 square / umax k.incr 1) (BitVec.ofNat 32 k.mss / 16)).bind fun incr =>
    (plus k.cwnd (umax incr 1)).bind fun cwnd =>
    (times (umax k.rmtWnd 1) 2).map fun limit => { k with incr := 0, cwnd := umin cwnd limit }

def resendSegChecked (k : Kcp) (seg : Seg) : Option Seg :=
  let rtomin : U32 := if k.nodelay then 0 else k.rxRto >>> 3
  let sent := { seg with ts := k.current, wnd := k.wndUnused.setWidth 16, una := k.rcvNxt }
  match k.resendRule seg with
  | .first =>
    (plus seg.xmit 1).bind fun xmit =>
    (plus k.current k.rxRto).bind fun due =>
    (plus due rtomin).map fun resendts => { sent with xmit, rto := k.rxRto, resendts }
  | .timeout =>
    (plus seg.rto (if k.nodelay then seg.rto / 2 else umax seg.rto k.rxRto)).bind fun rto =>
    (plus seg.xmit 1).bind fun xmit =>
    (plus k.current rto).map fun resendts => { sent with xmit, rto, resendts }
  | .fast =>
    (plus k.current k.rxRto).bind fun resendts =>
    (plus seg.xmit 1).map fun xmit => { sent with xmit, fastack := 0, rto := k.rxRto, resendts }
  | .none => some seg

def resendAllChecked (k : Kcp) : List Seg → Option (List Seg)
  | [] => some []
  | seg :: segs =>
    (k.resendSegChecked seg).bind fun seg => (k.resendAllChecked segs).map (seg :: ·)

def changeCountChecked (k : Kcp) : Option U32 :=
  let count := (k.sndBuf.filter fun seg => k.resendRule seg = .timeout ∨ k.resendRule seg = .fast).length
  if count < 2 ^ 32 then some (BitVec.ofNat 32 count) else none

def settleChecked (k : Kcp) (change : U32) (lost : Bool) : Option Kcp :=
  (if 0 < change ∧ k.nodelay = false then
    let ssthresh := umax ((k.sndNxt - k.sndUna) / 2) ikcpThreshMin
    (plus ssthresh (umax k.fastresend 1)).bind fun cwnd =>
    (times cwnd (BitVec.ofNat 32 k.mss)).map fun incr => { k with ssthresh, cwnd, incr }
  else some k).map fun shrunk =>
    if lost then
      { shrunk with
        ssthresh := ikcpThreshMin
        cwnd := 1
        incr := BitVec.ofNat 32 k.mss
        dead := true }
    else shrunk

def retransmitChecked (k : Kcp) : Option Kcp :=
  (k.resendAllChecked k.sndBuf).bind fun sndBuf =>
  k.changeCountChecked.bind fun change =>
    (k.resent.foldl emit { k with sndBuf }).settleChecked change k.lostPeer

def flushChecked (k : Kcp) : Option Kcp :=
  k.flushAcks.scheduleProbeChecked.bind fun probed =>
  probed.flushProbes.growCwndChecked.bind fun grown =>
  grown.promoteQueued.retransmitChecked

def updateChecked (k : Kcp) (current : U32) : Option Kcp :=
  if k.FlushDue current then
    flushChecked { k with current := current, updated := true, tsFlush := current }
  else
    some { k with current := current, updated := true, tsFlush := k.flushStart current }

def applyChecked (k : Kcp) : Op → Option Kcp
  | .update current => k.updateChecked current
  | .flushNow current => flushChecked { k with current := current }
  | .input pkt => (k.inputChecked pkt).map Prod.fst
  | op => some (k.apply op)

def runChecked (k : Kcp) : List Op → Option Kcp
  | [] => some k
  | op :: ops => (k.applyChecked op).bind fun k => k.runChecked ops

end Nfrp.Kcp
