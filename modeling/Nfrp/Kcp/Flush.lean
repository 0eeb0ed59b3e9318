import Nfrp.Kcp.State

/-!
# What a flush does

Each stage of `flush` is stated once as an explicit update of the session, and
`flush_spec` puts the stages together: later proofs never open a stage again.
-/

namespace Nfrp.Kcp

open Lib

theorem foldl_emit (k : Kcp) (segs : List Seg) :
    segs.foldl emit k = { k with out := k.out ++ segs.map Seg.encode } := by
  induction segs generalizing k with
  | nil => simp
  | cons seg segs ih =>
    rw [List.foldl_cons, ih]
    simp [emit]

def acks (k : Kcp) : List Seg :=
  k.acklist.map fun ack => k.control ikcpCmdAck ack.2 ack.1

theorem flushAcks_eq (k : Kcp) :
    k.flushAcks = { k with acklist := [], out := k.out ++ k.acks.map Seg.encode } := by
  have general : ∀ (pending : List (U32 × U32)) (k : Kcp),
      pending.foldl (fun k ack => k.emit (k.control ikcpCmdAck ack.2 ack.1)) k =
        { k with
          out := k.out ++
            (pending.map fun ack => k.control ikcpCmdAck ack.2 ack.1).map Seg.encode } := by
    intro pending
    induction pending with
    | nil => intro k; simp
    | cons ack pending ih =>
      intro k
      rw [List.foldl_cons, ih]
      simp [emit, control, wndUnused]
  rw [flushAcks, general]
  simp [acks, control, wndUnused]

def probes (k : Kcp) : List Seg :=
  (if k.probe &&& ikcpAskSend ≠ 0 then [k.control ikcpCmdWask 0 0] else []) ++
    if k.probe &&& ikcpAskTell ≠ 0 then [k.control ikcpCmdWins 0 0] else []

theorem flushProbes_eq (k : Kcp) :
    k.flushProbes = { k with probe := 0, out := k.out ++ k.probes.map Seg.encode } := by
  unfold flushProbes probes
  split <;> split <;> simp [emit, control, wndUnused]

theorem scheduleProbe_eq (k : Kcp) :
    ∃ tsProbe probeWait probe, k.scheduleProbe = { k with tsProbe, probeWait, probe } := by
  unfold scheduleProbe
  split
  · split
    · exact ⟨_, _, _, rfl⟩
    · split <;> exact ⟨_, _, _, rfl⟩
  · exact ⟨_, _, _, rfl⟩

theorem growCwnd_eq (k : Kcp) : ∃ cwnd incr, k.growCwnd = { k with cwnd, incr } := by
  unfold growCwnd
  split
  · exact ⟨_, _, rfl⟩
  · split <;> exact ⟨_, _, rfl⟩

/-- Segments as they enter the send buffer, numbered from `sn` on. -/
def stampAll (k : Kcp) : U32 → List Seg → List Seg
  | _, [] => []
  | sn, seg :: rest => k.stamp sn seg :: stampAll k (sn + 1) rest

/-- A front of the queue moves, and a nonempty one if the window is open. -/
theorem fillSndBuf_spec (k : Kcp) (maxSn : U32) (sndQueue sndBuf : List Seg) (sndNxt : U32) :
    ∃ moved rest, sndQueue = moved ++ rest ∧
      (moved = [] ↔ sndQueue = [] ∨ 0 ≤ i32From (sndNxt - maxSn)) ∧
      k.fillSndBuf maxSn sndQueue sndBuf sndNxt =
        { k with
          sndQueue := rest
          sndBuf := sndBuf ++ k.stampAll sndNxt moved
          sndNxt := sndNxt + BitVec.ofNat 32 moved.length } := by
  induction sndQueue generalizing sndBuf sndNxt with
  | nil => exact ⟨[], [], by simp [fillSndBuf, stampAll]⟩
  | cons seg sndQueue ih =>
    rw [fillSndBuf]
    by_cases isOpen : i32From (sndNxt - maxSn) < 0
    · obtain ⟨moved, rest, split, -, filled⟩ :=
        ih (sndBuf ++ [k.stamp sndNxt seg]) (sndNxt + 1)
      refine ⟨seg :: moved, rest, by rw [split, List.cons_append], ?_, ?_⟩
      · simpa using isOpen
      · rw [if_pos isOpen, filled, add_one_add_ofNat]
        simp [stampAll]
    · refine ⟨[], seg :: sndQueue, rfl, ?_, ?_⟩
      · simpa using isOpen
      · rw [if_neg isOpen]
        simp [stampAll]

theorem settle_eq (k : Kcp) (change : U32) (lost : Bool) :
    ∃ ssthresh cwnd incr dead, k.settle change lost = { k with ssthresh, cwnd, incr, dead } := by
  unfold settle
  split <;> split <;> exact ⟨_, _, _, _, rfl⟩

theorem retransmit_eq (k : Kcp) :
    ∃ ssthresh cwnd incr dead, k.retransmit =
      { k with
        sndBuf := k.sndBuf.map k.resendSeg
        out := k.out ++ k.resent.map Seg.encode
        ssthresh, cwnd, incr, dead } := by
  obtain ⟨ssthresh, cwnd, incr, dead, settled⟩ :=
    settle_eq { k with
      sndBuf := k.sndBuf.map k.resendSeg
      out := k.out ++ k.resent.map Seg.encode } k.changeCount k.lostPeer
  exact ⟨ssthresh, cwnd, incr, dead, by rw [retransmit, foldl_emit, settled]⟩

/-- The part of the session that decides what is received. -/
structure ReceiveSide where
  conv : U32
  rcvNxt : U32
  rcvWnd : U32
  rcvQueue : List Seg
  rcvBuf : List Seg

def receiveSide (k : Kcp) : ReceiveSide :=
  ⟨k.conv, k.rcvNxt, k.rcvWnd, k.rcvQueue, k.rcvBuf⟩

theorem beforePromote_eq (k : Kcp) :
    ∃ tsProbe probeWait cwnd incr, k.flushAcks.scheduleProbe.flushProbes.growCwnd =
      { k with
        acklist := []
        probe := 0
        out := k.out ++ k.acks.map Seg.encode ++ k.flushAcks.scheduleProbe.probes.map Seg.encode
        tsProbe, probeWait, cwnd, incr } := by
  obtain ⟨tsProbe, probeWait, probe, scheduled⟩ := scheduleProbe_eq k.flushAcks
  obtain ⟨cwnd, incr, grown⟩ := growCwnd_eq k.flushAcks.scheduleProbe.flushProbes
  refine ⟨tsProbe, probeWait, cwnd, incr, ?_⟩
  rw [grown, flushProbes_eq, scheduled, flushAcks_eq]

def beforeRetransmit (k : Kcp) : Kcp :=
  k.flushAcks.scheduleProbe.flushProbes.growCwnd.promoteQueued

theorem flush_eq (k : Kcp) : k.flush = k.beforeRetransmit.retransmit := rfl

/-- The segments of a send buffer that step 5 sends, as it sends them. -/
def dueSegs (k : Kcp) (sndBuf : List Seg) : List Seg :=
  (sndBuf.filter fun seg => k.resendRule seg ≠ .none).map k.resendSeg

@[simp]
theorem resendSeg_sn (k : Kcp) (seg : Seg) : (k.resendSeg seg).sn = seg.sn := by
  unfold resendSeg
  cases k.resendRule seg <;> rfl

@[simp]
theorem resendSeg_cmd (k : Kcp) (seg : Seg) : (k.resendSeg seg).cmd = seg.cmd := by
  unfold resendSeg
  cases k.resendRule seg <;> rfl

/-- Everything a flush does to what is sent: a front of the queue enters the
buffer, step 5 passes over the buffer, and acknowledgements, probes and due
segments are emitted. -/
theorem flush_spec (k : Kcp) :
    ∃ moved rest tsProbe probeWait ssthresh cwnd incr dead,
      k.sndQueue = moved ++ rest ∧
      (moved = [] ↔ k.sndQueue = [] ∨
        0 ≤ i32From (k.sndNxt - (k.sndUna + umin k.sndWnd k.rmtWnd))) ∧
      k.flush =
        { k with
          acklist := []
          probe := 0
          sndQueue := rest
          sndBuf := (k.sndBuf ++ k.stampAll k.sndNxt moved).map k.resendSeg
          sndNxt := k.sndNxt + BitVec.ofNat 32 moved.length
          out := k.out ++ (k.acks ++ k.flushAcks.scheduleProbe.probes ++
            k.dueSegs (k.sndBuf ++ k.stampAll k.sndNxt moved)).map Seg.encode
          tsProbe, probeWait, ssthresh, cwnd, incr, dead } := by
  obtain ⟨ssthresh, cwnd, incr, dead, resent⟩ := retransmit_eq k.beforeRetransmit
  obtain ⟨tsProbe, probeWait, _, _, before⟩ := beforePromote_eq k
  obtain ⟨moved, rest, split, opened, promoted⟩ :=
    fillSndBuf_spec k.flushAcks.scheduleProbe.flushProbes.growCwnd
      (k.sndUna + umin k.sndWnd k.rmtWnd) k.sndQueue k.sndBuf k.sndNxt
  have sameStamps : ∀ sn segs,
      stampAll k.flushAcks.scheduleProbe.flushProbes.growCwnd sn segs = k.stampAll sn segs := by
    intro sn segs
    induction segs generalizing sn with
    | nil => rfl
    | cons seg segs ih =>
      rw [stampAll, ih, before]
      rfl
  have ready : k.beforeRetransmit =
      { k.flushAcks.scheduleProbe.flushProbes.growCwnd with
        sndQueue := rest
        sndBuf := k.sndBuf ++ k.stampAll k.sndNxt moved
        sndNxt := k.sndNxt + BitVec.ofNat 32 moved.length } := by
    rw [← sameStamps, ← promoted, beforeRetransmit, promoteQueued, before]
  refine ⟨moved, rest, tsProbe, probeWait, ssthresh, cwnd, incr, dead, split, opened, ?_⟩
  rw [flush_eq, resent, ready, before]
  simp only [List.map_append, List.append_assoc]
  rfl

@[simp]
theorem flush_receiveSide (k : Kcp) : k.flush.receiveSide = k.receiveSide := by
  obtain ⟨_, _, _, _, _, _, _, _, _, _, flushed⟩ := flush_spec k
  rw [flushed]
  rfl

end Nfrp.Kcp
