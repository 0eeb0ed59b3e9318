import Nfrp.Kcp.Reassembly

/-!
# What a session sends

Every push a session ever emits is genuine: it carries the piece of the
accepted messages that its number says.  The pieces sent are a front of those
accepted, the queue is the rest, and `sndNxt` counts the former.
-/

namespace Nfrp.Kcp

open Lib

def Honest (sent : List Piece) (pkt : Datagram) : Prop :=
  ∃ seg, pkt = seg.encode ∧ seg.data.length < 2 ^ 32 ∧ (seg.cmd = ikcpCmdPush → Genuine 0 sent seg)

theorem Honest.mono {sent longer : List Piece} {pkt : Datagram} (honest : Honest sent pkt)
    (grown : sent <+: longer) : Honest longer pkt := by
  obtain ⟨seg, encoded, bounded, genuine⟩ := honest
  exact ⟨seg, encoded, bounded, fun isPush => (genuine isPush).mono grown⟩

theorem honest_control {sent : List Piece} {seg : Seg} (noData : seg.data = [])
    (notPush : seg.cmd ≠ ikcpCmdPush) : Honest sent seg.encode :=
  ⟨seg, rfl, by simp [noData], fun isPush => absurd isPush notPush⟩

theorem Genuine.honest {sent : List Piece} {seg : Seg} (genuine : Genuine 0 sent seg)
    (narrow : ∀ piece ∈ sent, piece.2.length < 2 ^ 32) : Honest sent seg.encode := by
  obtain ⟨i, isPiece, number⟩ := genuine
  exact ⟨seg, rfl, narrow seg.piece (List.mem_of_getElem? isPiece), fun _ => ⟨i, isPiece, number⟩⟩

/-- The sending side of a session: `sent` and then the queue are all the pieces
it was given, and it holds and emits nothing that is not genuine. -/
structure Sends (stream sent : List Piece) (k : Kcp) : Prop where
  queue : stream = sent ++ k.sndQueue.map Seg.piece
  next : k.sndNxt = BitVec.ofNat 32 sent.length
  buffered : ∀ seg ∈ k.sndBuf, Genuine 0 sent seg
  out : ∀ pkt ∈ k.out, Honest sent pkt

theorem resendSeg_piece (k : Kcp) (seg : Seg) : (k.resendSeg seg).piece = seg.piece := by
  unfold resendSeg
  cases k.resendRule seg <;> rfl

theorem Genuine.resendSeg {base : U32} {sent : List Piece} {seg : Seg} (genuine : Genuine base sent seg)
    (k : Kcp) : Genuine base sent (k.resendSeg seg) := by
  obtain ⟨i, isPiece, number⟩ := genuine
  exact ⟨i, by rw [resendSeg_piece, isPiece], by rw [resendSeg_sn, number]⟩

theorem stampAll_genuine (k : Kcp) (sent : List Piece) (segs : List Seg) :
    ∀ seg ∈ k.stampAll (BitVec.ofNat 32 sent.length) segs, Genuine 0 (sent ++ segs.map Seg.piece) seg := by
  induction segs generalizing sent with
  | nil => simp [stampAll]
  | cons first rest ih =>
    rw [stampAll, List.forall_mem_cons]
    constructor
    · refine ⟨sent.length, ?_, by simp [stamp]⟩
      rw [List.getElem?_append_right (Nat.le_refl _), Nat.sub_self]
      rfl
    · have later := ih (sent ++ [first.piece])
      rw [List.length_append, List.length_singleton, BitVec.ofNat_add] at later
      simpa using later

namespace Sends

variable {stream sent : List Piece} {k : Kcp}

/-- A flush sends a front of the queue, and everything it emits is honest. -/
theorem flush (sends : Sends stream sent k) (narrow : ∀ piece ∈ stream, piece.2.length < 2 ^ 32) :
    ∃ more, sent <+: more ∧ Sends stream more k.flush := by
  obtain ⟨moved, rest, _, _, _, _, _, _, split, -, flushed⟩ := flush_spec k
  have longer : sent <+: sent ++ moved.map Seg.piece := List.prefix_append _ _
  have buffered : ∀ seg ∈ k.sndBuf ++ k.stampAll k.sndNxt moved,
      Genuine 0 (sent ++ moved.map Seg.piece) seg := by
    rw [sends.next]
    exact List.forall_mem_append.mpr ⟨fun seg membership => (sends.buffered seg membership).mono longer,
      stampAll_genuine k sent moved⟩
  have queue : stream = (sent ++ moved.map Seg.piece) ++ rest.map Seg.piece := by
    rw [sends.queue, split, List.map_append, List.append_assoc]
  have narrowMore : ∀ piece ∈ sent ++ moved.map Seg.piece, piece.2.length < 2 ^ 32 := by
    rw [queue] at narrow
    exact (List.forall_mem_append.mp narrow).1
  refine ⟨sent ++ moved.map Seg.piece, longer, ?_⟩
  rw [flushed]
  refine ⟨queue, ?_, ?_, ?_⟩
  · simp only [sends.next, List.length_append, List.length_map, BitVec.ofNat_add]
  · intro seg membership
    obtain ⟨original, inBuffer, rfl⟩ := List.mem_map.mp membership
    exact (buffered original inBuffer).resendSeg k
  · refine List.forall_mem_append.mpr ⟨fun pkt membership => (sends.out pkt membership).mono longer, ?_⟩
    intro pkt membership
    obtain ⟨seg, emitted, rfl⟩ := List.mem_map.mp membership
    rcases List.mem_append.mp emitted with control | due
    · rcases List.mem_append.mp control with acknowledgement | probe
      · obtain ⟨ack, -, rfl⟩ := List.mem_map.mp acknowledgement
        exact honest_control rfl (show ikcpCmdAck ≠ ikcpCmdPush by decide)
      · rcases List.mem_append.mp probe with asked | told
        · rw [List.mem_ite_nil_right, List.mem_singleton] at asked
          rw [asked.2]
          exact honest_control rfl (show ikcpCmdWask ≠ ikcpCmdPush by decide)
        · rw [List.mem_ite_nil_right, List.mem_singleton] at told
          rw [told.2]
          exact honest_control rfl (show ikcpCmdWins ≠ ikcpCmdPush by decide)
    · obtain ⟨original, kept, rfl⟩ := List.mem_map.mp due
      have inBuffer := (List.mem_filter.mp kept).1
      exact ((buffered original inBuffer).resendSeg k).honest narrowMore

theorem handleSeg (sends : Sends stream sent k) (seg : Seg) : Sends stream sent (k.handleSeg seg) := by
  have unchanged : (k.handleSeg seg).sndQueue = k.sndQueue ∧ (k.handleSeg seg).sndNxt = k.sndNxt ∧
      (k.handleSeg seg).out = k.out := by
    rcases handleSeg_cases k seg with ⟨_, handled⟩ | ⟨_, handled⟩ | ⟨_, _, probe, handled⟩
    · obtain ⟨_, _, _, acked⟩ := handleAck_eq (k.hear seg) seg.sn seg.ts
      rw [handled, acked]
      exact ⟨rfl, rfl, rfl⟩
    · obtain ⟨_, _, _, _, pushed⟩ := handlePush_eq (k.hear seg) seg
      rw [handled, pushed]
      exact ⟨rfl, rfl, rfl⟩
    · rw [handled]
      exact ⟨rfl, rfl, rfl⟩
  obtain ⟨sndQueue, sndNxt, out⟩ := unchanged
  refine ⟨sndQueue ▸ sends.queue, sndNxt ▸ sends.next, ?_, out ▸ sends.out⟩
  intro stored membership
  obtain ⟨original, heard, fastack, rfl⟩ := mem_handleSeg_sndBuf membership
  exact sends.buffered original (mem_hear_sndBuf heard).1

/-- No operation but `send` changes what the session has been given. -/
theorem apply (sends : Sends stream sent k) (narrow : ∀ piece ∈ stream, piece.2.length < 2 ^ 32)
    {op : Op} (notSend : ∀ buf, op ≠ .send buf) :
    ∃ more, sent <+: more ∧ Sends stream more (k.apply op) := by
  cases op with
  | send buf => exact absurd rfl (notSend buf)
  | update current =>
    obtain ⟨tsFlush, ⟨-, flushed⟩ | waited⟩ := update_cases k current
    · rw [Kcp.apply, flushed]
      exact flush ⟨sends.queue, sends.next, sends.buffered, sends.out⟩ narrow
    · rw [Kcp.apply, waited]
      exact ⟨sent, List.prefix_refl _, sends.queue, sends.next, sends.buffered, sends.out⟩
  | flushNow current => exact flush ⟨sends.queue, sends.next, sends.buffered, sends.out⟩ narrow
  | input pkt =>
    refine ⟨sent, List.prefix_refl _, ?_⟩
    simp only [Kcp.apply, input_fst, foldl_eq_run]
    exact run_invariant (fun _ seg sends => sends.handleSeg seg) sends _
  | recv =>
    obtain ⟨_, _, received⟩ := recv_eq k
    rw [Kcp.apply, received]
    exact ⟨sent, List.prefix_refl _, sends.queue, sends.next, sends.buffered, sends.out⟩
  | setNodelay nodelay interval fastresend =>
    exact ⟨sent, List.prefix_refl _, sends.queue, sends.next, sends.buffered, sends.out⟩
  | pump =>
    refine ⟨sent, List.prefix_refl _, sends.queue, sends.next, sends.buffered, ?_⟩
    exact fun pkt membership => sends.out pkt (List.mem_of_mem_tail membership)

theorem send (sends : Sends stream sent k) (buf : List UInt8) :
    Sends (stream ++ pieces k.mss buf) sent { k with sndQueue := k.sndQueue ++ fragments k.mss buf } := by
  refine ⟨?_, sends.next, sends.buffered, sends.out⟩
  rw [sends.queue, List.map_append, List.append_assoc]
  rfl

end Sends

end Nfrp.Kcp
