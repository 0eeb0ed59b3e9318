import Nfrp.Kcp.ReceiveWindow

/-!
# Messages held back

What is contiguous at the front of the receive buffer moves to the queue only
when a push arrives, and only as far as the queue has room.  `recv` makes room
but moves nothing.  A push `FindsRoom` when the queue can take everything the
push makes contiguous; as long as every push does, no complete message stays
behind in the buffer.
-/

namespace Nfrp.Kcp

open Lib

/-- The front of a receive buffer that is contiguous from `sn` on. -/
def contiguousFrom : U32 → List Seg → List Seg
  | _, [] => []
  | sn, seg :: rest => if seg.sn = sn then seg :: contiguousFrom (sn + 1) rest else []

namespace ReceiveSide

/-- What was accepted and is contiguous after the last message handed out. -/
def held (r : ReceiveSide) : List Seg :=
  r.rcvQueue ++ contiguousFrom r.rcvNxt r.rcvBuf

def HoldsMessage (r : ReceiveSide) : Prop :=
  (completeLength r.held).isSome

instance (r : ReceiveSide) : Decidable r.HoldsMessage :=
  inferInstanceAs (Decidable (_ = true))

/-- The queue has room for everything the segment makes contiguous. -/
def HasRoomFor (r : ReceiveSide) (seg : Seg) : Prop :=
  Acceptable r.rcvNxt r.rcvWnd seg.sn →
    r.rcvQueue.length + (contiguousFrom r.rcvNxt (bufferSeg r.rcvBuf seg)).length ≤ r.rcvWnd.toNat

instance (r : ReceiveSide) (seg : Seg) : Decidable (r.HasRoomFor seg) :=
  inferInstanceAs (Decidable (_ → _))

def Moved (r : ReceiveSide) : Prop :=
  contiguousFrom r.rcvNxt r.rcvBuf = []

end ReceiveSide

theorem contiguousFrom_append {sn : U32} {moved rest : List Seg} (consecutive : Consecutive sn moved) :
    contiguousFrom sn (moved ++ rest) =
      moved ++ contiguousFrom (sn + BitVec.ofNat 32 moved.length) rest := by
  induction moved generalizing sn with
  | nil => simp
  | cons seg moved ih =>
    obtain ⟨isNext, consecutive⟩ := consecutive
    rw [List.cons_append, contiguousFrom, if_pos isNext, ih consecutive,
      List.cons_append, List.length_cons, add_one_add_ofNat]

theorem contiguousFrom_eq_nil_iff {sn : U32} {rcvBuf : List Seg} :
    contiguousFrom sn rcvBuf = [] ↔ ∀ front rest, rcvBuf = front :: rest → front.sn ≠ sn := by
  cases rcvBuf with
  | nil => simp [contiguousFrom]
  | cons seg rest =>
    by_cases isNext : seg.sn = sn <;> simp [contiguousFrom, isNext]

/-- A push leaves nothing to move exactly when it finds room. -/
theorem ReceiveSide.push_moved_iff {r : ReceiveSide} (queued : r.rcvQueue.length ≤ r.rcvWnd.toNat)
    (moved : r.Moved) (seg : Seg) : (r.push seg).Moved ↔ r.HasRoomFor seg := by
  unfold ReceiveSide.push
  by_cases acceptable : Acceptable r.rcvNxt r.rcvWnd seg.sn
  · obtain ⟨front, split, queue, nxt, consecutive, room, stop⟩ :=
      moveContiguous_spec r.rcvWnd (bufferSeg r.rcvBuf seg) r.rcvQueue r.rcvNxt
    generalize moveContiguous r.rcvWnd (bufferSeg r.rcvBuf seg) r.rcvQueue r.rcvNxt = after
      at split queue nxt room stop ⊢
    have contiguous : contiguousFrom r.rcvNxt (bufferSeg r.rcvBuf seg) =
        front ++ contiguousFrom after.2.2 after.1 := by
      rw [split, contiguousFrom_append consecutive, nxt]
    rw [if_pos acceptable, HasRoomFor, contiguous, List.length_append]
    have fits := room queued
    rw [List.length_append] at fits
    constructor
    · intro nothingLeft _
      rw [Moved] at nothingLeft
      rw [nothingLeft]
      exact fits
    · intro roomy
      by_contra left
      obtain ⟨next, rest, isFront, isNext⟩ : ∃ next rest, after.1 = next :: rest ∧
          next.sn = after.2.2 := by
        by_contra gap
        exact left (contiguousFrom_eq_nil_iff.mpr fun next rest isFront isNext =>
          gap ⟨next, rest, isFront, isNext⟩)
      have full := stop next rest isFront (isNext.trans nxt)
      have bound := roomy acceptable
      rw [List.length_append] at full
      have positive : 0 < (contiguousFrom after.2.2 after.1).length :=
        List.length_pos_iff.mpr left
      omega
  · rw [if_neg acceptable]
    exact ⟨fun _ inside => absurd inside acceptable, fun _ => moved⟩

theorem ReceiveSide.recv_moved {r : ReceiveSide} (moved : r.Moved) : r.recv.1.Moved := by
  unfold ReceiveSide.recv
  split
  · exact moved
  · split
    · rfl
    · exact moved

/-- When `recv` finds nothing and nothing was left to move, nothing is held. -/
theorem ReceiveSide.recv_none {r : ReceiveSide} (moved : r.Moved) (nothing : r.recv.2 = none) :
    ¬ r.recv.1.HoldsMessage := by
  have empty : contiguousFrom r.rcvNxt r.rcvBuf = [] := moved
  unfold ReceiveSide.recv at nothing ⊢
  cases complete : completeLength r.rcvQueue with
  | none => simp [HoldsMessage, held, empty, complete]
  | some length =>
    by_cases tooLong : maxRecvMsg < length
    · simp [HoldsMessage, held, contiguousFrom, completeLength, tooLong]
    · simp [complete, tooLong] at nothing

def FindsRoom (k : Kcp) (seg : Seg) : Prop :=
  seg.cmd = ikcpCmdPush → k.receiveSide.HasRoomFor seg

instance (k : Kcp) (seg : Seg) : Decidable (k.FindsRoom seg) :=
  inferInstanceAs (Decidable (_ → _))

def InputFindsRoom (k : Kcp) : Op → Prop
  | .input pkt => RunMeets handleSeg FindsRoom k (k.handled pkt)
  | .send _ | .update _ | .flushNow _ | .recv | .setNodelay _ _ _ | .pump => True

instance (k : Kcp) : (op : Op) → Decidable (k.InputFindsRoom op)
  | .input pkt => inferInstanceAs (Decidable (RunMeets handleSeg FindsRoom k (k.handled pkt)))
  | .send _ | .update _ | .flushNow _ | .recv | .setNodelay _ _ _ | .pump => .isTrue trivial

/-- A receiving side that is in order and has nothing left to move. -/
structure Settled (k : Kcp) : Prop where
  windowed : k.receiveSide.Windowed
  moved : k.receiveSide.Moved

theorem handleSeg_settled {k : Kcp} {seg : Seg} (room : k.FindsRoom seg) (settled : k.Settled) :
    (k.handleSeg seg).Settled := by
  by_cases isPush : seg.cmd = ikcpCmdPush
  · refine ⟨?_, ?_⟩
    · rw [handleSeg_receiveSide, if_pos isPush]
      exact settled.windowed.push seg
    · rw [handleSeg_receiveSide, if_pos isPush]
      exact (ReceiveSide.push_moved_iff settled.windowed.queued settled.moved seg).mpr (room isPush)
  · refine ⟨?_, ?_⟩
    · rw [handleSeg_receiveSide, if_neg isPush]
      exact settled.windowed
    · rw [handleSeg_receiveSide, if_neg isPush]
      exact settled.moved

theorem apply_settled {k : Kcp} {op : Op} (room : k.InputFindsRoom op) (settled : k.Settled) :
    (k.apply op).Settled := by
  have unchanged : (k.apply op).receiveSide = k.receiveSide → (k.apply op).Settled := by
    intro same
    exact ⟨same ▸ settled.windowed, same ▸ settled.moved⟩
  cases op with
  | send buf => exact unchanged (apply_send_receiveSide k buf)
  | update current => exact unchanged (update_receiveSide k current)
  | flushNow current => exact unchanged (flushNow_receiveSide k current)
  | input pkt =>
    simp only [apply, input_fst, foldl_eq_run]
    exact run_invariant_of_meets (fun _ _ room settled => handleSeg_settled room settled) settled
      room
  | recv =>
    refine ⟨?_, ?_⟩
    · rw [apply, (recv_receiveSide k).1]
      exact settled.windowed.recv
    · rw [apply, (recv_receiveSide k).1]
      exact ReceiveSide.recv_moved settled.moved
  | setNodelay nodelay interval fastresend => exact unchanged rfl
  | pump => exact unchanged rfl

/-- In every run whose processed pushes all find room, a `recv` that returns
nothing leaves no complete message behind. -/
theorem no_message_held (conv : U32) (mtu : Nat) (ops : List Op)
    (room : RunMeets apply InputFindsRoom (Kcp.new conv mtu) ops) :
    let k := run apply (Kcp.new conv mtu) ops
    k.recv.2 = none → ¬ k.recv.1.receiveSide.HoldsMessage := by
  intro k nothing
  have settled : k.Settled := by
    refine run_invariant_of_meets (fun _ _ room settled => apply_settled room settled) ?_ room
    exact ⟨ReceiveSide.Windowed.run conv mtu [], rfl⟩
  rw [(recv_receiveSide k).2] at nothing
  rw [(recv_receiveSide k).1]
  exact ReceiveSide.recv_none settled.moved nothing

def oneByte (sn : U32) : Seg :=
  { Seg.new [7] with conv := 1, cmd := ikcpCmdPush, wnd := 128, sn := sn }

/-- With 129 messages pushed before the first `recv`, the last one stays in the
buffer when the queue has been emptied. -/
theorem message_held :
    let pushes := (List.range 129).map fun i => Op.input (oneByte (BitVec.ofNat 32 i)).encode
    let k := run apply (Kcp.new 1 0) (pushes ++ List.replicate 128 .recv)
    k.recv.2 = none ∧ k.recv.1.receiveSide.HoldsMessage := by
  decide +kernel

theorem no_message_held_example :
    let ops := [Op.input (oneByte 1).encode, .input (oneByte 0).encode, .recv, .recv]
    let k := run apply (Kcp.new 1 0) ops
    k.recv.2 = none → ¬ k.recv.1.receiveSide.HoldsMessage :=
  no_message_held 1 0 _ (by decide)

end Nfrp.Kcp
