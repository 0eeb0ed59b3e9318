import Nfrp.Kcp.Reassembly

/-!
# Do the size limits agree?

`send` refuses only what its countdown byte cannot number.  The receiver also
limits the data of one segment, the segments it queues and the bytes of a
message.  A message that `send` accepts comes out of a drained receiver exactly
when it respects these limits as well, and not every accepted one does.
-/

namespace Nfrp.Kcp

open Lib

def returned (k : Kcp) : List Datagram → List (List UInt8)
  | [] => []
  | pkt :: pkts => (k.input pkt).1.recv.2.toList ++ returned (k.input pkt).1.recv.1 pkts

structure Drained (k : Kcp) : Prop where
  wnd : k.rcvWnd = ikcpWndRcv
  rcvQueue : k.rcvQueue = []
  rcvBuf : k.rcvBuf = []

/-- All segments of a message, in order, numbered as the receiver expects. -/
structure Carries (k : Kcp) (mss : Nat) (buf : List UInt8) (segs : List Seg) : Prop where
  conv : ∀ seg ∈ segs, seg.conv = k.conv
  push : ∀ seg ∈ segs, seg.cmd = ikcpCmdPush
  pieces : segs.map Seg.piece = Kcp.pieces mss buf
  numbered : Consecutive k.rcvNxt segs

/-- The segments a sender stamps from the number the receiver waits for. -/
theorem stampAll_carries {sender receiver : Kcp} (conv : sender.conv = receiver.conv) (buf : List UInt8) :
    receiver.Carries sender.mss buf
      (sender.stampAll receiver.rcvNxt (fragments sender.mss buf)) := by
  have general : ∀ (segs : List Seg) (sn : U32),
      (∀ seg ∈ sender.stampAll sn segs, seg.conv = sender.conv ∧ seg.cmd = ikcpCmdPush) ∧
        (sender.stampAll sn segs).map Seg.piece = segs.map Seg.piece ∧
        Consecutive sn (sender.stampAll sn segs) := by
    intro segs
    induction segs with
    | nil => intro sn; exact ⟨by simp [stampAll], rfl, trivial⟩
    | cons seg segs ih =>
      intro sn
      obtain ⟨stamped, samePieces, numbered⟩ := ih (sn + 1)
      refine ⟨List.forall_mem_cons.mpr ⟨⟨rfl, rfl⟩, stamped⟩, ?_, rfl, numbered⟩
      rw [stampAll, List.map_cons, List.map_cons, samePieces]
      rfl
  obtain ⟨stamped, samePieces, numbered⟩ := general (fragments sender.mss buf) receiver.rcvNxt
  exact ⟨fun seg membership => (stamped seg membership).1.trans conv,
    fun seg membership => (stamped seg membership).2, samePieces, numbered⟩

theorem recv_length_le {k : Kcp} {buf : List UInt8} (received : k.recv.2 = some buf) :
    buf.length ≤ maxRecvMsg := by
  rw [(recv_receiveSide k).2] at received
  cases found : firstWhole EndsMessage (k.receiveSide.rcvQueue.map Seg.piece) with
  | none =>
    rw [ReceiveSide.recv_of_not_found found] at received
    exact absurd received (by simp)
  | some first =>
    rcases ReceiveSide.recv_of_found found with ⟨-, cleared⟩ | ⟨fits, _, -, popped⟩
    · rw [cleared] at received
      exact absurd received (by simp)
    · rw [popped] at received
      exact Option.some.inj received ▸ fits

theorem returned_length_le {k : Kcp} {pkts : List Datagram} {buf : List UInt8}
    (membership : buf ∈ k.returned pkts) : buf.length ≤ maxRecvMsg := by
  induction pkts generalizing k with
  | nil => simp [returned] at membership
  | cons pkt pkts ih =>
    rcases List.mem_append.mp membership with now | later
    · exact recv_length_le (Option.mem_toList.mp now)
    · exact ih later

theorem ReceiveSide.push_next {r : ReceiveSide} {seg : Seg} (wnd : r.rcvWnd = ikcpWndRcv)
    (rcvBuf : r.rcvBuf = []) (room : r.rcvQueue.length < ikcpWndRcv.toNat) (isNext : seg.sn = r.rcvNxt) :
    r.push seg =
      { r with
        rcvQueue := r.rcvQueue ++ [{ seg with resendts := 0 }]
        rcvNxt := r.rcvNxt + 1 } := by
  have acceptable : Acceptable r.rcvNxt r.rcvWnd seg.sn := by
    have fromEnd : r.rcvNxt - (r.rcvNxt + ikcpWndRcv) = -128 := by
      unfold ikcpWndRcv
      bv_omega
    rw [isNext, wnd, Acceptable, fromEnd, BitVec.sub_self]
    decide
  have notFull : ¬ ikcpWndRcv.toNat ≤ r.rcvQueue.length := not_le.mpr room
  rw [ReceiveSide.push, if_pos acceptable, rcvBuf, wnd]
  simp [bufferSeg, insertSeg, moveContiguous, isNext, notFull]

/-- Within the limits of the receiver, the rest of a message that has arrived in
part comes out as the whole message. -/
theorem returned_complete {k : Kcp} {segs : List Seg} {front : List Piece}
    (wnd : k.rcvWnd = ikcpWndRcv) (rcvBuf : k.rcvBuf = [])
    (rcvQueue : k.rcvQueue.map Seg.piece = front) (nonempty : segs ≠ [])
    (whole : Whole EndsMessage (front ++ segs.map Seg.piece))
    (conv : ∀ seg ∈ segs, seg.conv = k.conv) (push : ∀ seg ∈ segs, seg.cmd = ikcpCmdPush)
    (numbered : Consecutive k.rcvNxt segs) (narrow : ∀ seg ∈ segs, seg.data.length ≤ ikcpMtuDef)
    (few : front.length + segs.length ≤ ikcpWndRcv.toNat)
    (short : ((front ++ segs.map Seg.piece).flatMap Prod.snd).length ≤ maxRecvMsg) :
    k.returned (segs.map Seg.encode) = [(front ++ segs.map Seg.piece).flatMap Prod.snd] := by
  induction segs generalizing k front with
  | nil => exact absurd rfl nonempty
  | cons seg segs ih =>
    obtain ⟨isNext, numbered⟩ := numbered
    obtain ⟨sameConv, conv⟩ := List.forall_mem_cons.mp conv
    obtain ⟨isPush, push⟩ := List.forall_mem_cons.mp push
    obtain ⟨fits, narrow⟩ := List.forall_mem_cons.mp narrow
    have queued : k.rcvQueue.length = front.length := by
      rw [← rcvQueue, List.length_map]
    have small : seg.data.length < 2 ^ 32 := by
      rw [ikcpMtuDef] at fits
      omega
    have side : (k.input seg.encode).1.receiveSide =
        { k.receiveSide with
          rcvQueue := k.rcvQueue ++ [seg.wire]
          rcvNxt := k.rcvNxt + 1 } := by
      rw [input_encode_receiveSide k small, if_pos ⟨fits, sameConv, isPush⟩]
      exact ReceiveSide.push_next wnd rcvBuf (by simp [receiveSide] at few ⊢; omega) isNext
    have arrived : (k.input seg.encode).1.receiveSide.rcvQueue.map Seg.piece =
        front ++ [seg.piece] := by
      rw [side, List.map_append, rcvQueue]
      rfl
    rw [List.map_cons, returned, (recv_receiveSide _).2]
    cases segs with
    | nil =>
      have found : firstWhole EndsMessage
          ((k.input seg.encode).1.receiveSide.rcvQueue.map Seg.piece) =
            some (front ++ [seg.piece], []) := by
        rw [arrived]
        simpa using firstWhole_append whole []
      rcases ReceiveSide.recv_of_found found with ⟨tooLong, -⟩ | ⟨-, _, -, popped⟩
      · exact absurd short (not_le.mpr tooLong)
      · rw [popped]
        rfl
    | cons next rest =>
      have notFound : firstWhole EndsMessage
          ((k.input seg.encode).1.receiveSide.rcvQueue.map Seg.piece) = none := by
        rw [arrived]
        refine firstWhole_eq_none_of_front whole ⟨(next :: rest).map Seg.piece, by simp⟩ ?_
        simp
      have unchanged : (k.input seg.encode).1.recv.1.receiveSide =
          { k.receiveSide with
            rcvQueue := k.rcvQueue ++ [seg.wire]
            rcvNxt := k.rcvNxt + 1 } := by
        rw [(recv_receiveSide _).1, ReceiveSide.recv_of_not_found notFound, side]
      rw [ReceiveSide.recv_of_not_found notFound, Option.toList_none, List.nil_append]
      have regrouped : front ++ (seg :: next :: rest).map Seg.piece =
          (front ++ [seg.piece]) ++ (next :: rest).map Seg.piece := by simp
      rw [regrouped] at whole short ⊢
      generalize (k.input seg.encode).1.recv.1 = after at unchanged ⊢
      have afterQueue : after.rcvQueue = k.rcvQueue ++ [seg.wire] :=
        congrArg ReceiveSide.rcvQueue unchanged
      have afterConv : after.conv = k.conv := congrArg ReceiveSide.conv unchanged
      have afterNxt : after.rcvNxt = k.rcvNxt + 1 := congrArg ReceiveSide.rcvNxt unchanged
      refine ih ?_ ?_ ?_ (by simp) whole ?_ push ?_ narrow ?_ short
      · exact (congrArg ReceiveSide.rcvWnd unchanged).trans wnd
      · exact (congrArg ReceiveSide.rcvBuf unchanged).trans rcvBuf
      · rw [afterQueue, List.map_append, rcvQueue]
        rfl
      · exact fun other membership => (conv other membership).trans afterConv.symm
      · rw [afterNxt]
        exact numbered
      · simp only [List.length_append, List.length_cons, List.length_nil] at few ⊢
        omega

/-- A receiver on its way to a message, before any of it is handed out. -/
structure Collecting (k : Kcp) (base : U32) (mss : Nat) (buf : List UInt8) : Prop where
  windowed : k.receiveSide.Windowed
  narrow : ∀ seg ∈ k.rcvQueue ++ k.rcvBuf, seg.data.length ≤ ikcpMtuDef
  reassembles : Reassembles base (pieces mss buf) [] k.receiveSide

theorem Collecting.input {k : Kcp} {base : U32} {mss : Nat} {buf : List UInt8} {seg : Seg}
    (collecting : k.Collecting base mss buf) (few : (pieces mss buf).length < 2 ^ 32)
    (bounded : seg.data.length < 2 ^ 32) (genuine : Genuine base (pieces mss buf) seg) :
    (k.input seg.encode).1.Collecting base mss buf := by
  have side := input_encode_receiveSide k bounded
  generalize (k.input seg.encode).1 = after at side ⊢
  split at side
  next accepted =>
    refine ⟨side ▸ collecting.windowed.push seg.wire, ?_, side ▸ collecting.reassembles.push few genuine⟩
    intro stored membership
    have inPushed : stored ∈ (k.receiveSide.push seg.wire).rcvQueue ++
        (k.receiveSide.push seg.wire).rcvBuf := side ▸ membership
    rcases ReceiveSide.mem_push inPushed with old | rfl
    · exact collecting.narrow stored old
    · exact accepted.1
  next _ =>
    refine ⟨side ▸ collecting.windowed, ?_, side ▸ collecting.reassembles⟩
    intro stored membership
    have before : stored ∈ k.receiveSide.rcvQueue ++ k.receiveSide.rcvBuf := side ▸ membership
    exact collecting.narrow stored before

/-- A receiver that hands out anything had room for all of it. -/
theorem limits_of_returned {k : Kcp} {base : U32} {mss : Nat} {buf message : List UInt8} {segs : List Seg}
    (positive : 0 < mss) (nonempty : buf ≠ []) (few : fragmentCount mss buf.length ≤ 255)
    (collecting : k.Collecting base mss buf)
    (genuine : ∀ seg ∈ segs, seg.data.length < 2 ^ 32 ∧ Genuine base (pieces mss buf) seg)
    (membership : message ∈ k.returned (segs.map Seg.encode)) :
    fragmentCount mss buf.length ≤ ikcpWndRcv.toNat ∧ min buf.length mss ≤ ikcpMtuDef := by
  induction segs generalizing k with
  | nil => simp [returned] at membership
  | cons seg segs ih =>
    obtain ⟨⟨bounded, isGenuine⟩, genuine⟩ := List.forall_mem_cons.mp genuine
    have counted : (pieces mss buf).length < 2 ^ 32 := by
      rw [length_pieces]
      omega
    have next := collecting.input counted bounded isGenuine
    rw [List.map_cons, returned] at membership
    generalize (k.input seg.encode).1 = after at next membership
    have received := @Reassembles.recv _ _ mss [buf] [] after.receiveSide
      (by simpa using ⟨pieces_whole positive nonempty few, pieces_flatten positive buf⟩)
      (by simp) (by simp) next.reassembles
    rcases received with nothing | ⟨found, isBuf, arrived, -⟩
    · obtain ⟨sameSide, sameResult⟩ := recv_receiveSide after
      rw [nothing] at sameSide sameResult
      rw [sameResult, Option.toList_none, List.nil_append] at membership
      obtain ⟨rcvQueue, rcvBuf, kept⟩ := recv_eq after
      rw [kept] at sameSide membership
      refine ih ⟨sameSide ▸ next.windowed, ?_, sameSide ▸ next.reassembles⟩ genuine
        membership
      intro stored inEither
      have queueEq : rcvQueue = after.rcvQueue := congrArg ReceiveSide.rcvQueue sameSide
      have bufEq : rcvBuf = after.rcvBuf := congrArg ReceiveSide.rcvBuf sameSide
      exact next.narrow stored (by simpa [queueEq, bufEq] using inEither)
    · obtain rfl : found = buf := by simpa using isBuf
      refine ⟨?_, ?_⟩
      · have room := next.windowed.queued
        rw [next.windowed.wnd] at room
        have inQueue := arrived.length_le
        rw [length_pieces, List.length_map] at inQueue
        exact inQueue.trans room
      · obtain ⟨piece, isPiece, longest⟩ := exists_longest_piece positive nonempty
        obtain ⟨stored, inQueue, rfl⟩ := List.mem_map.mp (arrived.subset isPiece)
        rw [← longest]
        exact next.narrow stored (List.mem_append_left _ inQueue)

/-- An accepted message whose segments reach a drained receiver in order comes
out if and only if it is no longer than a message may be, its fragments fit the
receive window, and none is larger than the MTU. -/
theorem returned_iff {sender receiver : Kcp} {buf : List UInt8} {segs : List Seg}
    (accepts : sender.Accepts buf) (drained : receiver.Drained)
    (carries : receiver.Carries sender.mss buf segs) :
    buf ∈ receiver.returned (segs.map Seg.encode) ↔
      buf.length ≤ maxRecvMsg ∧ fragmentCount sender.mss buf.length ≤ ikcpWndRcv.toNat ∧
        min buf.length sender.mss ≤ ikcpMtuDef := by
  obtain ⟨positive, nonempty, few⟩ := accepts_iff.mp accepts
  have whole := pieces_whole positive nonempty few
  constructor
  · intro membership
    have short := returned_length_le membership
    refine ⟨short, @limits_of_returned receiver receiver.rcvNxt _ _ _ _ positive nonempty few
      ⟨?_, ?_, ?_⟩ ?_ membership⟩
    · exact ⟨drained.wnd, by simp [receiveSide, drained.rcvBuf], by simp [receiveSide, drained.rcvQueue]⟩
    · simp [drained.rcvQueue, drained.rcvBuf]
    · exact ⟨by simp [receiveSide, drained.rcvQueue], by simp [receiveSide, drained.rcvQueue],
        by simp [receiveSide, drained.rcvBuf]⟩
    · intro seg membership
      have inPieces : seg.piece ∈ pieces sender.mss buf :=
        carries.pieces ▸ List.mem_map_of_mem membership
      have bounded := piece_length_le inPieces
      rw [maxRecvMsg] at short
      refine ⟨by simp only [Seg.piece] at bounded; omega, ?_⟩
      obtain ⟨i, inside, rfl⟩ := List.getElem_of_mem membership
      refine ⟨i, ?_, carries.numbered.getElem inside⟩
      rw [← carries.pieces, List.getElem?_map, List.getElem?_eq_getElem inside]
      rfl
  · rintro ⟨short, window, mtu⟩
    have flattened := pieces_flatten positive buf
    have complete := @returned_complete receiver segs [] drained.wnd drained.rcvBuf
      (by simp [drained.rcvQueue]) ?_ (by rw [List.nil_append, carries.pieces]; exact whole)
      carries.conv carries.push carries.numbered ?_ ?_
      (by rw [List.nil_append, carries.pieces, flattened]; exact short)
    · rw [complete, List.nil_append, carries.pieces, flattened]
      exact List.mem_singleton.mpr rfl
    · rintro rfl
      exact whole.ne_nil carries.pieces.symm
    · intro seg membership
      have inPieces : seg.piece ∈ pieces sender.mss buf :=
        carries.pieces ▸ List.mem_map_of_mem membership
      exact (piece_length_le inPieces).trans mtu
    · have counted := congrArg List.length carries.pieces
      rw [List.length_map, length_pieces] at counted
      simpa [counted] using window

/-- A message one byte longer than the receiver allows, in 48 fragments. -/
def longMessage : List UInt8 :=
  List.replicate 65537 7

/-- It is accepted under the default MTU, and lost by a new receiver that gets
all its segments. -/
theorem accepted_not_returned :
    (Kcp.new 1 0).Accepts longMessage ∧ (Kcp.new 1 0).Drained ∧
      ∃ segs, (Kcp.new 1 0).Carries (Kcp.new 1 0).mss longMessage segs ∧
        longMessage ∉ (Kcp.new 1 0).returned (segs.map Seg.encode) := by
  have length : longMessage.length = 65537 := List.length_replicate
  refine ⟨accepts_iff.mpr ⟨by decide, ?_, ?_⟩, ⟨rfl, rfl, rfl⟩, _, stampAll_carries rfl longMessage, ?_⟩
  · intro empty
    rw [empty] at length
    exact absurd length (by decide)
  · rw [length]
    decide
  · intro membership
    have short := returned_length_le membership
    rw [length] at short
    exact absurd short (by decide)

theorem returned_iff_example :
    let segs := (Kcp.new 1 0).stampAll 0 (fragments (Kcp.new 1 0).mss [1, 2, 3])
    [1, 2, 3] ∈ (Kcp.new 1 0).returned (segs.map Seg.encode) ↔
      [1, 2, 3].length ≤ maxRecvMsg ∧ fragmentCount (Kcp.new 1 0).mss [1, 2, 3].length ≤ ikcpWndRcv.toNat ∧
        min [1, 2, 3].length (Kcp.new 1 0).mss ≤ ikcpMtuDef :=
  @returned_iff (Kcp.new 1 0) (Kcp.new 1 0) [1, 2, 3] _ ⟨_, 3, rfl, by decide⟩ ⟨rfl, rfl, rfl⟩
    (stampAll_carries rfl [1, 2, 3])

end Nfrp.Kcp
