import Nfrp.Kcp.Fragments
import Nfrp.Kcp.ReceiveWindow

/-!
# Reassembly

A receiver that is given only genuine segments, in any order and any number of
times, holds a front of what was sent: what it has handed out followed by its
queue.  Sequence numbers identify pieces as long as fewer than 2^32 were sent.
-/

namespace Nfrp.Kcp

open Lib

/-- The segment carries the piece its number says, counted from `base`. -/
def Genuine (base : U32) (sent : List Piece) (seg : Seg) : Prop :=
  ∃ i, sent[i]? = some seg.piece ∧ seg.sn = base + BitVec.ofNat 32 i

theorem Genuine.mono {base : U32} {sent longer : List Piece} {seg : Seg}
    (genuine : Genuine base sent seg) (grown : sent <+: longer) : Genuine base longer seg := by
  obtain ⟨i, piece, number⟩ := genuine
  obtain ⟨inside, -⟩ := List.getElem?_eq_some_iff.mp piece
  obtain ⟨rest, rfl⟩ := grown
  exact ⟨i, (List.getElem?_append_left inside).trans piece, number⟩

/-- The pieces handed out, then the queue, are a front of what was sent. -/
structure Reassembles (base : U32) (sent taken : List Piece) (r : ReceiveSide) :
    Prop where
  front : taken ++ r.rcvQueue.map Seg.piece <+: sent
  next : r.rcvNxt = base + BitVec.ofNat 32 (taken.length + r.rcvQueue.length)
  buffered : ∀ seg ∈ r.rcvBuf, Genuine base sent seg

theorem mem_bufferSeg {rcvBuf : List Seg} {seg stored : Seg}
    (membership : stored ∈ bufferSeg rcvBuf seg) :
    stored ∈ rcvBuf ∨ stored = { seg with resendts := 0 } := by
  unfold bufferSeg at membership
  split at membership
  · exact .inl membership
  · rcases List.mem_cons.mp ((insertSeg_perm _ _).mem_iff.mp membership) with isNew | old
    · exact .inr isNew
    · exact .inl old

theorem ReceiveSide.mem_push {r : ReceiveSide} {seg stored : Seg}
    (membership : stored ∈ (r.push seg).rcvQueue ++ (r.push seg).rcvBuf) :
    stored ∈ r.rcvQueue ++ r.rcvBuf ∨ stored = { seg with resendts := 0 } := by
  unfold ReceiveSide.push at membership
  split at membership
  · obtain ⟨moved, split, queue, -⟩ :=
      moveContiguous_spec r.rcvWnd (bufferSeg r.rcvBuf seg) r.rcvQueue r.rcvNxt
    simp only [queue, List.append_assoc, ← split] at membership
    rcases List.mem_append.mp membership with queued | buffered
    · exact .inl (List.mem_append_left _ queued)
    · rcases mem_bufferSeg buffered with old | isNew
      · exact .inl (List.mem_append_right _ old)
      · exact .inr isNew
  · exact .inl membership

theorem prefix_concat_of_getElem? {α : Type} {front sent : List α} {item : α} (isFront : front <+: sent)
    (next : sent[front.length]? = some item) : front ++ [item] <+: sent := by
  obtain ⟨rest, rfl⟩ := isFront
  rw [List.getElem?_append_right (Nat.le_refl _), Nat.sub_self] at next
  cases rest with
  | nil => simp at next
  | cons first rest =>
    obtain rfl : first = item := by simpa using next
    exact ⟨rest, by simp⟩

/-- Consecutive genuine segments continue the front they follow. -/
theorem Consecutive.continues {base : U32} {sent front : List Piece}
    {moved : List Seg} (small : sent.length < 2 ^ 32) (isFront : front <+: sent)
    (genuine : ∀ seg ∈ moved, Genuine base sent seg)
    (consecutive : Consecutive (base + BitVec.ofNat 32 front.length) moved) :
    front ++ moved.map Seg.piece <+: sent := by
  induction moved generalizing front with
  | nil => simpa using isFront
  | cons seg moved ih =>
    obtain ⟨isNext, consecutive⟩ := consecutive
    obtain ⟨⟨i, piece, number⟩, genuine⟩ := List.forall_mem_cons.mp genuine
    have position : i = front.length := by
      have inside := (List.getElem?_eq_some_iff.mp piece).1
      have bounded := isFront.length_le
      exact (add_ofNat_inj (by omega) (by omega)).mp (number.symm.trans isNext)
    rw [position] at piece
    have longer := prefix_concat_of_getElem? isFront piece
    rw [add_ofNat_add_one] at consecutive
    have continued := ih longer genuine (by simpa using consecutive)
    simpa using continued

namespace Reassembles

variable {base : U32} {sent taken : List Piece} {r : ReceiveSide}

theorem mono {longer : List Piece} (reassembles : Reassembles base sent taken r)
    (grown : sent <+: longer) : Reassembles base longer taken r :=
  ⟨reassembles.front.trans grown, reassembles.next,
    fun seg membership => (reassembles.buffered seg membership).mono grown⟩

/-- A genuine push keeps the queue a continuation of what was handed out. -/
theorem push (reassembles : Reassembles base sent taken r) (small : sent.length < 2 ^ 32) {seg : Seg}
    (genuine : Genuine base sent seg) : Reassembles base sent taken (r.push seg) := by
  unfold ReceiveSide.push
  split
  next _ =>
    obtain ⟨moved, split, queue, nxt, consecutive, -⟩ :=
      moveContiguous_spec r.rcvWnd (bufferSeg r.rcvBuf seg) r.rcvQueue r.rcvNxt
    have buffered : ∀ stored ∈ bufferSeg r.rcvBuf seg, Genuine base sent stored := by
      intro stored membership
      rcases mem_bufferSeg membership with old | rfl
      · exact reassembles.buffered stored old
      · exact genuine
    rw [split] at buffered
    obtain ⟨movedGenuine, restGenuine⟩ := List.forall_mem_append.mp buffered
    refine ⟨?_, ?_, restGenuine⟩
    · have consecutive : Consecutive
          (base + BitVec.ofNat 32 (taken ++ r.rcvQueue.map Seg.piece).length) moved := by
        rw [List.length_append, List.length_map, ← reassembles.next]
        exact consecutive
      have continued := Consecutive.continues small reassembles.front movedGenuine consecutive
      simpa only [queue, List.map_append, List.append_assoc] using continued
    · simp only [nxt, queue]
      rw [reassembles.next, List.length_append, ← Nat.add_assoc, BitVec.add_assoc, ← BitVec.ofNat_add]
  next _ => exact reassembles

end Reassembles

/-- What `recv` does to a receiver of genuine segments of whole messages: it
finds nothing, or the message that follows those handed out, which it hands out
or, when it is too long, drops together with everything else it holds. -/
theorem Reassembles.recv {base : U32} {sent : List Piece} {mss : Nat}
    {accepted got : List (List UInt8)} {r : ReceiveSide}
    (whole : ∀ buf ∈ accepted, Whole EndsMessage (pieces mss buf) ∧ (pieces mss buf).flatMap Prod.snd = buf)
    (isSent : sent <+: accepted.flatMap (pieces mss)) (inOrder : got <+: accepted)
    (reassembles : Reassembles base sent (got.flatMap (pieces mss)) r) :
    r.recv = (r, none) ∨
      ∃ buf, got ++ [buf] <+: accepted ∧ pieces mss buf <+: r.rcvQueue.map Seg.piece ∧
        ((maxRecvMsg < buf.length ∧ r.recv = ({ r with rcvQueue := [], rcvBuf := [] }, none)) ∨
          (buf.length ≤ maxRecvMsg ∧ r.recv.2 = some buf ∧
            Reassembles base sent ((got ++ [buf]).flatMap (pieces mss)) r.recv.1)) := by
  obtain ⟨later, rfl⟩ := inOrder
  have arrived : r.rcvQueue.map Seg.piece <+: (later.map (pieces mss)).flatten := by
    have front := reassembles.front.trans isSent
    rw [List.flatMap_append, List.prefix_append_right_inj] at front
    exact front
  have laterWhole : ∀ items ∈ later.map (pieces mss), Whole EndsMessage items := by
    intro items membership
    obtain ⟨buf, inLater, rfl⟩ := List.mem_map.mp membership
    exact (whole buf (List.mem_append_right _ inLater)).1
  cases found : firstWhole EndsMessage (r.rcvQueue.map Seg.piece) with
  | none => exact .inl (ReceiveSide.recv_of_not_found found)
  | some first =>
    obtain ⟨message, rest⟩ := first
    obtain ⟨queue, others, messages⟩ := firstWhole_eq_some_of_front laterWhole arrived found
    obtain ⟨buf, remaining, rfl, rfl, -⟩ := List.map_eq_cons_iff.mp messages
    have data : (pieces mss buf).flatMap Prod.snd = buf := (whole buf (by simp)).2
    refine .inr ⟨buf, by simp, ⟨rest, queue.symm⟩, ?_⟩
    rcases ReceiveSide.recv_of_found found with ⟨tooLong, cleared⟩ | ⟨fits, rcvQueue, queued, received⟩
    · rw [data] at tooLong
      exact .inl ⟨tooLong, cleared⟩
    · rw [data] at fits received
      refine .inr ⟨fits, by rw [received], ?_⟩
      have counted : r.rcvQueue.length = (pieces mss buf).length + rcvQueue.length := by
        rw [← r.rcvQueue.length_map Seg.piece, queue, List.length_append, ← queued, List.length_map]
      rw [received]
      refine ⟨?_, ?_, reassembles.buffered⟩
      · have front := reassembles.front
        rw [queue] at front
        simpa [queued] using front
      · simp only [reassembles.next, counted, List.flatMap_append, List.flatMap_singleton,
          List.length_append, Nat.add_assoc]

end Nfrp.Kcp
