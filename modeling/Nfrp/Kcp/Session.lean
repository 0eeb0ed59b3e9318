import Nfrp.Lib.Runs
import Nfrp.Kcp.Flush

/-!
# Operations on a session

`Op` lists what the owner of a session may call, in any order.  Each part of
the session is touched by few of them: the receiving side by `input` and `recv`
alone, the sending side by `send`, `input` and the flushes.
-/

namespace Nfrp.Kcp

open Lib

inductive Op where
  | send (buf : List UInt8)
  | update (current : U32)
  | flushNow (current : U32)
  | input (pkt : Datagram)
  | recv
  | setNodelay (nodelay : Bool) (interval fastresend : U32)
  /-- The owner takes the next datagram from `out`. -/
  | pump
  deriving DecidableEq, Repr

/-- A `send` that panics leaves nothing to run further. -/
def apply (k : Kcp) : Op → Kcp
  | .send buf => ((k.send buf).map Prod.fst).getD k
  | .update current => k.update current
  | .flushNow current => k.flushNow current
  | .input pkt => (k.input pkt).1
  | .recv => k.recv.1
  | .setNodelay nodelay interval fastresend => k.setNodelay nodelay interval fastresend
  | .pump => { k with out := k.out.tail }

/-- The segments of a datagram that are processed: those before the first one
of another conversation. -/
def handled (k : Kcp) (pkt : Datagram) : List Seg :=
  match (decodeSegs pkt).get (decodeSegs_isSome pkt) with
  | .error _ => []
  | .ok segs => segs.takeWhile fun seg => seg.conv = k.conv

theorem handled_encode (k : Kcp) {seg : Seg} (bounded : seg.data.length < 2 ^ 32) :
    k.handled seg.encode =
      if seg.data.length ≤ ikcpMtuDef ∧ seg.conv = k.conv then [seg.wire] else [] := by
  have decoded := decodeSegs_encode bounded
  have sameConv : seg.wire.conv = seg.conv := rfl
  unfold handled
  by_cases fits : seg.data.length ≤ ikcpMtuDef
  · by_cases same : seg.conv = k.conv <;> simp [decoded, fits, same, sameConv]
  · simp [decoded, fits]

theorem handleAck_eq (k : Kcp) (sn ts : U32) :
    ∃ rxSrtt rxRttval rxRto, k.handleAck sn ts =
      { k with
        rxSrtt, rxRttval, rxRto
        sndBuf := bumpFastack sn (k.sndBuf.eraseP fun s => s.sn = sn) } := by
  by_cases sample : k.current - ts < 0x80000000
  · refine ⟨(k.updateRtt (k.current - ts)).rxSrtt, (k.updateRtt (k.current - ts)).rxRttval,
      (k.updateRtt (k.current - ts)).rxRto, ?_⟩
    simp only [handleAck, if_pos sample]
    rfl
  · refine ⟨k.rxSrtt, k.rxRttval, k.rxRto, ?_⟩
    simp only [handleAck, if_neg sample]

theorem handlePush_eq (k : Kcp) (seg : Seg) :
    ∃ acklist rcvBuf rcvQueue rcvNxt,
      k.handlePush seg = { k with acklist, rcvBuf, rcvQueue, rcvNxt } := by
  by_cases acceptable : Acceptable k.rcvNxt k.rcvWnd seg.sn
  · exact ⟨_, _, _, _, if_pos acceptable⟩
  · exact ⟨_, _, _, _, if_neg acceptable⟩

theorem handleSeg_cases (k : Kcp) (seg : Seg) :
    (seg.cmd = ikcpCmdAck ∧ k.handleSeg seg = (k.hear seg).handleAck seg.sn seg.ts) ∨
      (seg.cmd = ikcpCmdPush ∧ k.handleSeg seg = (k.hear seg).handlePush seg) ∨
      (seg.cmd ≠ ikcpCmdAck ∧ seg.cmd ≠ ikcpCmdPush ∧
        ∃ probe, k.handleSeg seg = { k.hear seg with probe }) := by
  unfold handleSeg
  by_cases isAck : seg.cmd = ikcpCmdAck
  · exact .inl ⟨isAck, if_pos isAck⟩
  · by_cases isPush : seg.cmd = ikcpCmdPush
    · exact .inr (.inl ⟨isPush, by simp only [if_neg isAck, if_pos isPush]⟩)
    · refine .inr (.inr ⟨isAck, isPush, ?_⟩)
      simp only [if_neg isAck, if_neg isPush]
      by_cases isWask : seg.cmd = ikcpCmdWask
      · exact ⟨_, if_pos isWask⟩
      · exact ⟨(k.hear seg).probe, if_neg isWask⟩

theorem mem_bumpFastack {sn : U32} {segs : List Seg} {seg : Seg}
    (membership : seg ∈ bumpFastack sn segs) : ∃ original ∈ segs, ∃ fastack, seg = { original with fastack } := by
  induction segs with
  | nil => simp [bumpFastack] at membership
  | cons first rest ih =>
    rw [bumpFastack] at membership
    split at membership
    · rcases List.mem_cons.mp membership with rfl | later
      · exact ⟨first, List.mem_cons_self, _, rfl⟩
      · obtain ⟨original, inRest, bumped⟩ := ih later
        exact ⟨original, List.mem_cons_of_mem _ inRest, bumped⟩
    · exact ⟨seg, membership, seg.fastack, rfl⟩

theorem mem_hear_sndBuf {k : Kcp} {seg sent : Seg} (membership : sent ∈ (k.hear seg).sndBuf) :
    sent ∈ k.sndBuf ∧ 0 ≤ i32From (sent.sn - seg.una) := by
  obtain ⟨inBuffer, kept⟩ := List.mem_filter.mp membership
  exact ⟨inBuffer, of_decide_eq_true kept⟩

/-- Input adds nothing to the send buffer; an acknowledgement may count a
segment as skipped. -/
theorem mem_handleSeg_sndBuf {k : Kcp} {seg sent : Seg} (membership : sent ∈ (k.handleSeg seg).sndBuf) :
    ∃ original ∈ (k.hear seg).sndBuf, ∃ fastack, sent = { original with fastack } := by
  rcases handleSeg_cases k seg with ⟨_, handled⟩ | ⟨_, handled⟩ | ⟨_, _, probe, handled⟩
  · obtain ⟨_, _, _, acked⟩ := handleAck_eq (k.hear seg) seg.sn seg.ts
    rw [handled, acked] at membership
    obtain ⟨original, kept, bumped⟩ := mem_bumpFastack membership
    exact ⟨original, List.mem_of_mem_eraseP kept, bumped⟩
  · obtain ⟨_, _, _, _, pushed⟩ := handlePush_eq (k.hear seg) seg
    rw [handled, pushed] at membership
    exact ⟨sent, membership, sent.fastack, rfl⟩
  · rw [handled] at membership
    exact ⟨sent, membership, sent.fastack, rfl⟩

@[simp]
theorem handleAck_receiveSide (k : Kcp) (sn ts : U32) :
    (k.handleAck sn ts).receiveSide = k.receiveSide := by
  obtain ⟨_, _, _, handled⟩ := handleAck_eq k sn ts
  rw [handled]
  rfl

namespace ReceiveSide

def push (r : ReceiveSide) (seg : Seg) : ReceiveSide :=
  if Acceptable r.rcvNxt r.rcvWnd seg.sn then
    let moved := moveContiguous r.rcvWnd (bufferSeg r.rcvBuf seg) r.rcvQueue r.rcvNxt
    { r with rcvBuf := moved.1, rcvQueue := moved.2.1, rcvNxt := moved.2.2 }
  else
    r

def recv (r : ReceiveSide) : ReceiveSide × Option (List UInt8) :=
  match completeLength r.rcvQueue with
  | none => (r, none)
  | some complete =>
    if maxRecvMsg < complete then
      ({ r with rcvQueue := [], rcvBuf := [] }, none)
    else
      ({ r with rcvQueue := (popMessage r.rcvQueue).2 }, some (popMessage r.rcvQueue).1)

end ReceiveSide

theorem handlePush_receiveSide (k : Kcp) (seg : Seg) :
    (k.handlePush seg).receiveSide = k.receiveSide.push seg := by
  by_cases acceptable : Acceptable k.rcvNxt k.rcvWnd seg.sn
  · have onSide : Acceptable k.receiveSide.rcvNxt k.receiveSide.rcvWnd seg.sn := acceptable
    rw [handlePush, if_pos acceptable, ReceiveSide.push, if_pos onSide]
    rfl
  · have onSide : ¬ Acceptable k.receiveSide.rcvNxt k.receiveSide.rcvWnd seg.sn := acceptable
    rw [handlePush, if_neg acceptable, ReceiveSide.push, if_neg onSide]

theorem handleSeg_receiveSide (k : Kcp) (seg : Seg) :
    (k.handleSeg seg).receiveSide =
      if seg.cmd = ikcpCmdPush then k.receiveSide.push seg else k.receiveSide := by
  rcases handleSeg_cases k seg with ⟨isAck, handled⟩ | ⟨isPush, handled⟩ |
    ⟨_, notPush, probe, handled⟩
  · have notPush : seg.cmd ≠ ikcpCmdPush := by
      rw [isAck]
      decide
    rw [handled, if_neg notPush, handleAck_receiveSide]
    rfl
  · rw [handled, if_pos isPush, handlePush_receiveSide]
    rfl
  · rw [handled, if_neg notPush]
    rfl

theorem recv_eq (k : Kcp) : ∃ rcvQueue rcvBuf, k.recv.1 = { k with rcvQueue, rcvBuf } := by
  unfold recv
  cases completeLength k.rcvQueue with
  | none => exact ⟨_, _, rfl⟩
  | some complete =>
    by_cases tooLong : maxRecvMsg < complete
    · exact ⟨[], [], by simp only [if_pos tooLong]⟩
    · exact ⟨(popMessage k.rcvQueue).2, k.rcvBuf, by simp only [if_neg tooLong]⟩

theorem recv_receiveSide (k : Kcp) :
    k.recv.1.receiveSide = k.receiveSide.recv.1 ∧ k.recv.2 = k.receiveSide.recv.2 := by
  unfold recv ReceiveSide.recv
  simp only [receiveSide]
  cases completeLength k.rcvQueue with
  | none => exact ⟨rfl, rfl⟩
  | some complete => by_cases tooLong : maxRecvMsg < complete <;> simp [tooLong]

@[simp]
theorem handleSeg_conv (k : Kcp) (seg : Seg) : (k.handleSeg seg).conv = k.conv := by
  have conv := congrArg ReceiveSide.conv (handleSeg_receiveSide k seg)
  have pushConv : (k.receiveSide.push seg).conv = k.conv := by
    unfold ReceiveSide.push
    split <;> rfl
  split at conv
  · exact conv.trans pushConv
  · exact conv

theorem inputSegs_fst (k : Kcp) (segs : List Seg) :
    (k.inputSegs segs).1 = (segs.takeWhile fun seg => seg.conv = k.conv).foldl handleSeg k := by
  induction segs generalizing k with
  | nil => rfl
  | cons seg segs ih =>
    by_cases same : seg.conv = k.conv
    · simp only [inputSegs, same, ne_eq, not_true_eq_false, if_false, ih,
        handleSeg_conv, List.takeWhile_cons, decide_true, if_true, List.foldl_cons]
    · simp [inputSegs, same]

theorem input_fst (k : Kcp) (pkt : Datagram) :
    (k.input pkt).1 = (k.handled pkt).foldl handleSeg k := by
  unfold input handled
  split
  next decoded => simp [decoded]
  next segs decoded => simp [decoded, inputSegs_fst]

theorem input_encode_receiveSide (k : Kcp) {seg : Seg} (bounded : seg.data.length < 2 ^ 32) :
    (k.input seg.encode).1.receiveSide =
      if seg.data.length ≤ ikcpMtuDef ∧ seg.conv = k.conv ∧ seg.cmd = ikcpCmdPush then
        k.receiveSide.push seg.wire
      else k.receiveSide := by
  have sameCmd : seg.wire.cmd = seg.cmd := rfl
  rw [input_fst, handled_encode k bounded]
  by_cases fits : seg.data.length ≤ ikcpMtuDef
  · by_cases same : seg.conv = k.conv
    · simp only [fits, same, and_self, if_true, List.foldl_cons, List.foldl_nil,
        handleSeg_receiveSide, sameCmd, true_and]
    · simp [same]
  · simp [fits]

theorem foldl_eq_run (k : Kcp) (segs : List Seg) : segs.foldl handleSeg k = run handleSeg k segs := by
  induction segs generalizing k with
  | nil => rfl
  | cons seg segs ih => exact ih (k.handleSeg seg)

@[simp]
theorem flushNow_receiveSide (k : Kcp) (current : U32) :
    (k.flushNow current).receiveSide = k.receiveSide :=
  flush_receiveSide _

theorem update_cases (k : Kcp) (current : U32) :
    ∃ tsFlush,
      (k.FlushDue current ∧ k.update current = flush { k with current, updated := true, tsFlush }) ∨
        k.update current = { k with current, updated := true, tsFlush } := by
  by_cases due : k.FlushDue current
  · exact ⟨current, .inl ⟨due, if_pos due⟩⟩
  · exact ⟨k.flushStart current, .inr (if_neg due)⟩

@[simp]
theorem update_receiveSide (k : Kcp) (current : U32) :
    (k.update current).receiveSide = k.receiveSide := by
  obtain ⟨tsFlush, ⟨-, flushed⟩ | waited⟩ := update_cases k current
  · rw [flushed, flush_receiveSide]
    rfl
  · rw [waited]
    rfl

/-- `send` takes the message: it returns a length other than zero. -/
def Accepts (k : Kcp) (buf : List UInt8) : Prop :=
  ∃ after len, k.send buf = some (after, len) ∧ 0 < len

theorem accepts_iff {k : Kcp} {buf : List UInt8} :
    k.Accepts buf ↔ 0 < k.mss ∧ buf ≠ [] ∧ fragmentCount k.mss buf.length ≤ 255 := by
  rw [Nat.pos_iff_ne_zero]
  unfold Accepts send
  by_cases empty : buf = []
  · simp [empty]
  · have isNonempty : ¬ buf.isEmpty := by simpa using empty
    rw [if_neg isNonempty]
    by_cases noRoom : k.mss = 0
    · simp [noRoom]
    · rw [if_neg noRoom]
      by_cases tooMany : 255 < fragmentCount k.mss buf.length
      · simp [tooMany]
      · simp [noRoom, empty, tooMany, List.length_pos_iff, not_lt.mp tooMany]

instance (k : Kcp) (buf : List UInt8) : Decidable (k.Accepts buf) :=
  decidable_of_iff _ accepts_iff.symm

theorem apply_send_cases (k : Kcp) (buf : List UInt8) :
    (¬ k.Accepts buf ∧ k.apply (.send buf) = k) ∨
      (k.Accepts buf ∧
        k.apply (.send buf) = { k with sndQueue := k.sndQueue ++ fragments k.mss buf }) := by
  by_cases accepts : k.Accepts buf
  · obtain ⟨room, nonempty, few⟩ := accepts_iff.mp accepts
    refine .inr ⟨accepts, ?_⟩
    simp [apply, send, nonempty, room.ne', not_lt.mpr few]
  · refine .inl ⟨accepts, ?_⟩
    by_cases empty : buf = []
    · simp [apply, send, empty]
    · by_cases noRoom : k.mss = 0
      · simp [apply, send, empty, noRoom]
      · have tooMany : 255 < fragmentCount k.mss buf.length := by
          by_contra few
          exact accepts (accepts_iff.mpr ⟨Nat.pos_of_ne_zero noRoom, empty, not_lt.mp few⟩)
        simp [apply, send, noRoom, tooMany]

@[simp]
theorem apply_send_receiveSide (k : Kcp) (buf : List UInt8) :
    (k.apply (.send buf)).receiveSide = k.receiveSide := by
  rcases apply_send_cases k buf with ⟨_, refused⟩ | ⟨_, queued⟩
  · rw [refused]
  · rw [queued]
    rfl

/-- What an operation does: it touches the message queues, the clock and what is to be sent
at most, or it flushes, or it handles the segments of a datagram, or it is a setting. -/
theorem apply_cases (k : Kcp) (op : Op) :
    (∃ sndQueue rcvQueue rcvBuf current updated tsFlush out,
        k.apply op = { k with sndQueue, rcvQueue, rcvBuf, current, updated, tsFlush, out }) ∨
      ((∃ current, op = .flushNow current ∨ op = .update current ∧ k.FlushDue current) ∧
        ∃ current updated tsFlush, k.apply op = flush { k with current, updated, tsFlush }) ∨
      (∃ pkt, op = .input pkt ∧ k.apply op = run handleSeg k (k.handled pkt)) ∨
      ∃ nodelay interval fastresend, op = .setNodelay nodelay interval fastresend := by
  cases op with
  | send buf =>
    rcases apply_send_cases k buf with ⟨_, refused⟩ | ⟨_, queued⟩
    · exact .inl ⟨_, _, _, _, _, _, _, refused⟩
    · exact .inl ⟨_, _, _, _, _, _, _, queued⟩
  | update current =>
    obtain ⟨tsFlush, ⟨due, flushed⟩ | waited⟩ := update_cases k current
    · exact .inr (.inl ⟨⟨current, .inr ⟨rfl, due⟩⟩, _, _, _, flushed⟩)
    · exact .inl ⟨_, _, _, _, _, _, _, waited⟩
  | flushNow current => exact .inr (.inl ⟨⟨current, .inl rfl⟩, _, _, _, rfl⟩)
  | input pkt => exact .inr (.inr (.inl ⟨pkt, rfl, (input_fst k pkt).trans (foldl_eq_run k _)⟩))
  | recv =>
    obtain ⟨_, _, received⟩ := recv_eq k
    exact .inl ⟨_, _, _, _, _, _, _, received⟩
  | setNodelay nodelay interval fastresend => exact .inr (.inr (.inr ⟨_, _, _, rfl⟩))
  | pump => exact .inl ⟨_, _, _, _, _, _, _, rfl⟩

@[simp]
theorem flush_mss (k : Kcp) : k.flush.mss = k.mss := by
  obtain ⟨_, _, _, _, _, _, _, _, _, _, flushed⟩ := flush_spec k
  rw [flushed]

theorem handleSeg_mss (k : Kcp) (seg : Seg) : (k.handleSeg seg).mss = k.mss := by
  rcases handleSeg_cases k seg with ⟨_, handled⟩ | ⟨_, handled⟩ | ⟨_, _, probe, handled⟩
  · obtain ⟨_, _, _, acked⟩ := handleAck_eq (k.hear seg) seg.sn seg.ts
    rw [handled, acked]
    rfl
  · obtain ⟨_, _, _, _, pushed⟩ := handlePush_eq (k.hear seg) seg
    rw [handled, pushed]
    rfl
  · rw [handled]
    rfl

@[simp]
theorem apply_mss (k : Kcp) (op : Op) : (k.apply op).mss = k.mss := by
  rcases apply_cases k op with ⟨_, _, _, _, _, _, _, kept⟩ | ⟨-, _, _, _, flushed⟩ | ⟨pkt, -, handled⟩ | ⟨_, _, _, rfl⟩
  · rw [kept]
  · rw [flushed, flush_mss]
  · rw [handled]
    exact @run_invariant _ _ handleSeg (fun after => after.mss = k.mss)
      (fun after seg same => (handleSeg_mss after seg).trans same) _ rfl _
  · rfl

/-- A property of the receiving side that its two operations preserve is
preserved by every operation of the session. -/
theorem apply_receiveSide_invariant {invariant : ReceiveSide → Prop}
    (onPush : ∀ r seg, invariant r → invariant (r.push seg))
    (onRecv : ∀ r, invariant r → invariant r.recv.1)
    (k : Kcp) (op : Op) (holds : invariant k.receiveSide) : invariant (k.apply op).receiveSide := by
  cases op with
  | send buf => simpa using holds
  | update current => simpa [apply] using holds
  | flushNow current => simpa [apply] using holds
  | input pkt =>
    simp only [apply, input_fst, foldl_eq_run]
    refine @run_invariant _ _ handleSeg (fun k => invariant (receiveSide k)) ?_ _ holds _
    intro k seg holds
    rw [handleSeg_receiveSide]
    split
    · exact onPush _ _ holds
    · exact holds
  | recv =>
    simp only [apply, (recv_receiveSide k).1]
    exact onRecv _ holds
  | setNodelay nodelay interval fastresend => exact holds
  | pump => exact holds

end Nfrp.Kcp
