import Nfrp.Kcp.Session

/-!
# The receive window

The receive buffer is a window of sequence numbers starting at `rcvNxt`; moving
its contiguous front to the queue slides the window.  Nothing here trusts the
peer: the window test on an arriving number is what bounds both queues.
-/

namespace Nfrp.Kcp

open Lib

def Consecutive : U32 → List Seg → Prop
  | _, [] => True
  | sn, seg :: rest => seg.sn = sn ∧ Consecutive (sn + 1) rest

theorem Consecutive.getElem {sn : U32} {segs : List Seg} (consecutive : Consecutive sn segs) {i : Nat}
    (inside : i < segs.length) : segs[i].sn = sn + BitVec.ofNat 32 i := by
  induction segs generalizing sn i with
  | nil => simp at inside
  | cons seg rest ih =>
    obtain ⟨isNext, consecutive⟩ := consecutive
    cases i with
    | zero => simpa using isNext
    | succ i =>
      have later := ih consecutive (by simpa using inside)
      rw [add_one_add_ofNat] at later
      exact later

/-- The move takes a consecutive front off the buffer and stops only at a gap,
at the end of the buffer or for want of room. -/
theorem moveContiguous_spec (rcvWnd : U32) (rcvBuf rcvQueue : List Seg) (rcvNxt : U32) :
    ∃ moved,
      rcvBuf = moved ++ (moveContiguous rcvWnd rcvBuf rcvQueue rcvNxt).1 ∧
      (moveContiguous rcvWnd rcvBuf rcvQueue rcvNxt).2.1 = rcvQueue ++ moved ∧
      (moveContiguous rcvWnd rcvBuf rcvQueue rcvNxt).2.2 =
        rcvNxt + BitVec.ofNat 32 moved.length ∧
      Consecutive rcvNxt moved ∧
      (rcvQueue.length ≤ rcvWnd.toNat → (rcvQueue ++ moved).length ≤ rcvWnd.toNat) ∧
      ∀ front rest, (moveContiguous rcvWnd rcvBuf rcvQueue rcvNxt).1 = front :: rest →
        front.sn = rcvNxt + BitVec.ofNat 32 moved.length →
          rcvWnd.toNat ≤ (rcvQueue ++ moved).length := by
  induction rcvBuf generalizing rcvQueue rcvNxt with
  | nil => exact ⟨[], by simp [moveContiguous, Consecutive]⟩
  | cons front rcvBuf ih =>
    by_cases stops : front.sn ≠ rcvNxt ∨ rcvWnd.toNat ≤ rcvQueue.length
    · refine ⟨[], ?_⟩
      simp only [moveContiguous, if_pos stops, Consecutive, List.nil_append, List.append_nil,
        List.length_nil, true_and]
      refine ⟨by simp, fun room => room, ?_⟩
      rintro _ _ ⟨rfl, rfl⟩ isNext
      rcases stops with gap | full
      · exact absurd (by simpa using isNext) gap
      · exact full
    · obtain ⟨moved, split, queue, nxt, consecutive, room, stop⟩ :=
        ih (rcvQueue ++ [front]) (rcvNxt + 1)
      obtain ⟨isNext, notFull⟩ := not_or.mp stops
      refine ⟨front :: moved, ?_⟩
      simp only [moveContiguous, if_neg stops, List.length_cons, ← add_one_add_ofNat]
      simp only [List.append_assoc, List.singleton_append] at queue room stop
      refine ⟨by rw [List.cons_append, ← split], queue, nxt,
        ⟨not_not.mp isNext, consecutive⟩, ?_, stop⟩
      intro _
      exact room (by rw [List.length_append, List.length_singleton]; omega)

theorem insertSeg_perm (new : Seg) (rcvBuf : List Seg) :
    (insertSeg new rcvBuf).Perm (new :: rcvBuf) := by
  induction rcvBuf with
  | nil => exact .refl _
  | cons seg rest ih =>
    rw [insertSeg]
    split
    · exact .refl _
    · exact (ih.cons seg).trans (.swap new seg rest)

theorem insertSeg_inWindow {base : U32} {size : Nat} {new : Seg} {rcvBuf : List Seg}
    (narrow : 2 * size ≤ 2 ^ 32) (window : InWindow base size (rcvBuf.map Seg.sn))
    (inside : offset base new.sn < size) (fresh : ∀ seg ∈ rcvBuf, seg.sn ≠ new.sn) :
    InWindow base size ((insertSeg new rcvBuf).map Seg.sn) := by
  induction rcvBuf with
  | nil => simpa [insertSeg, InWindow] using inside
  | cons seg rest ih =>
    rw [List.map_cons, InWindow.cons_iff] at window
    obtain ⟨segInside, segFirst, restWindow⟩ := window
    have compared : i32From (seg.sn - new.sn) =
        (offset base seg.sn : Int) - offset base new.sn :=
      toInt_sub_eq_offset_sub (by omega) (by omega)
    rw [insertSeg]
    by_cases later : 0 < i32From (seg.sn - new.sn)
    · have newFirst : offset base new.sn < offset base seg.sn := by omega
      rw [if_pos later, List.map_cons, InWindow.cons_iff]
      refine ⟨inside, ?_, InWindow.cons_iff.mpr ⟨segInside, segFirst, restWindow⟩⟩
      intro sn membership
      rcases List.mem_cons.mp membership with rfl | inRest
      · exact newFirst
      · exact newFirst.trans (segFirst sn inRest)
    · have distinct : offset base seg.sn ≠ offset base new.sn :=
        fun same => fresh seg (by simp) (offset_inj.mp same)
      rw [if_neg later, List.map_cons, InWindow.cons_iff]
      refine ⟨segInside, ?_, ih restWindow
        fun other membership => fresh other (by simp [membership])⟩
      intro sn membership
      obtain ⟨other, inInserted, rfl⟩ := List.mem_map.mp membership
      rcases List.mem_cons.mp ((insertSeg_perm new rest).mem_iff.mp inInserted) with
        rfl | inRest
      · omega
      · exact segFirst other.sn (List.mem_map_of_mem inRest)

theorem Acceptable.offset_lt {rcvNxt rcvWnd sn : U32} (narrow : 2 * rcvWnd.toNat < 2 ^ 32)
    (acceptable : Acceptable rcvNxt rcvWnd sn) : offset rcvNxt sn < rcvWnd.toNat := by
  obtain ⟨beforeEnd, notBefore⟩ := acceptable
  have half : 2 * offset rcvNxt sn < 2 ^ 32 := toInt_sub_nonneg_iff.mp notBefore
  have end_offset : offset rcvNxt (rcvNxt + rcvWnd) = rcvWnd.toNat := offset_base_add _ _
  have compared : i32From (sn - (rcvNxt + rcvWnd)) =
      (offset rcvNxt sn : Int) - offset rcvNxt (rcvNxt + rcvWnd) :=
    toInt_sub_eq_offset_sub half (by omega)
  omega

theorem bufferSeg_inWindow {base : U32} {size : Nat} {seg : Seg} {rcvBuf : List Seg}
    (narrow : 2 * size ≤ 2 ^ 32) (window : InWindow base size (rcvBuf.map Seg.sn))
    (inside : offset base seg.sn < size) :
    InWindow base size ((bufferSeg rcvBuf seg).map Seg.sn) := by
  unfold bufferSeg
  split
  next _ => exact window
  next absent =>
    refine @insertSeg_inWindow _ _ { seg with resendts := 0 } _ narrow window inside ?_
    simpa using absent

theorem InWindow.drop_consecutive {base : U32} {size : Nat} {moved rest : List Seg}
    (window : InWindow base size ((moved ++ rest).map Seg.sn)) (consecutive : Consecutive base moved) :
    InWindow (base + BitVec.ofNat 32 moved.length) size (rest.map Seg.sn) := by
  induction moved generalizing base with
  | nil => simpa using window
  | cons seg moved ih =>
    obtain ⟨isBase, consecutive⟩ := consecutive
    simp only [List.cons_append, List.map_cons, isBase] at window
    have slid := ih (window.pop (by decide)) consecutive
    rw [add_one_add_ofNat] at slid
    exact slid

structure ReceiveSide.Windowed (r : ReceiveSide) : Prop where
  wnd : r.rcvWnd = ikcpWndRcv
  buffered : InWindow r.rcvNxt r.rcvWnd.toNat (r.rcvBuf.map Seg.sn)
  queued : r.rcvQueue.length ≤ r.rcvWnd.toNat

namespace ReceiveSide

theorem Windowed.narrow {r : ReceiveSide} (windowed : r.Windowed) :
    2 * r.rcvWnd.toNat < 2 ^ 32 := by
  rw [windowed.wnd]
  decide

theorem Windowed.push {r : ReceiveSide} (windowed : r.Windowed) (seg : Seg) :
    (r.push seg).Windowed := by
  unfold ReceiveSide.push
  split
  next acceptable =>
    have inside := acceptable.offset_lt windowed.narrow
    have narrow := windowed.narrow
    have buffered := bufferSeg_inWindow (by omega) windowed.buffered inside
    obtain ⟨moved, split, queue, nxt, consecutive, room, -⟩ :=
      moveContiguous_spec r.rcvWnd (bufferSeg r.rcvBuf seg) r.rcvQueue r.rcvNxt
    rw [split] at buffered
    refine ⟨windowed.wnd, ?_, ?_⟩
    · simp only [nxt]
      exact InWindow.drop_consecutive buffered consecutive
    · simp only [queue]
      exact room windowed.queued
  next _ => exact windowed

theorem popMessage_suffix (queue : List Seg) : (popMessage queue).2 <:+ queue := by
  induction queue with
  | nil => exact List.suffix_refl _
  | cons seg rest ih =>
    rw [popMessage]
    split
    · exact List.suffix_cons _ _
    · exact ih.trans (List.suffix_cons _ _)

theorem Windowed.recv {r : ReceiveSide} (windowed : r.Windowed) : r.recv.1.Windowed := by
  unfold ReceiveSide.recv
  split
  · exact windowed
  · split
    · exact ⟨windowed.wnd, by simp, by simp⟩
    · exact ⟨windowed.wnd, windowed.buffered,
        (popMessage_suffix r.rcvQueue).length_le.trans windowed.queued⟩

theorem Windowed.run (conv : U32) (mtu : Nat) (ops : List Op) :
    (Lib.run apply (Kcp.new conv mtu) ops).receiveSide.Windowed := by
  refine @run_invariant _ _ apply (fun k => (receiveSide k).Windowed) ?_ _ ?_ ops
  · exact apply_receiveSide_invariant (fun r seg windowed => windowed.push seg)
      fun r windowed => windowed.recv
  · exact ⟨rfl, by simp [receiveSide, Kcp.new], by simp [receiveSide, Kcp.new]⟩

end ReceiveSide

/-- Whatever datagrams arrive, the receive buffer is strictly sorted within the
window after `rcvNxt` and both queues together hold at most two windows. -/
theorem receive_window_invariant (conv : U32) (mtu : Nat) (ops : List Op) :
    let k := run apply (Kcp.new conv mtu) ops
    (k.rcvBuf.map Seg.sn).Pairwise Before ∧
      (k.rcvBuf.map Seg.sn).Nodup ∧
      (∀ seg ∈ k.rcvBuf, (seg.sn - k.rcvNxt).toNat < k.rcvWnd.toNat) ∧
      k.rcvQueue.length ≤ k.rcvWnd.toNat ∧
      k.rcvQueue.length + k.rcvBuf.length ≤ 2 * k.rcvWnd.toNat := by
  intro k
  have windowed := ReceiveSide.Windowed.run conv mtu ops
  have narrow := windowed.narrow
  have buffered : InWindow k.rcvNxt k.rcvWnd.toNat (k.rcvBuf.map Seg.sn) := windowed.buffered
  have queued : k.rcvQueue.length ≤ k.rcvWnd.toNat := windowed.queued
  have count : k.rcvBuf.length ≤ k.rcvWnd.toNat := by simpa using buffered.length_le
  refine ⟨buffered.pairwise_before (le_of_lt narrow), buffered.nodup, ?_, queued, by omega⟩
  intro seg membership
  exact buffered.2 seg.sn (List.mem_map_of_mem membership)

end Nfrp.Kcp
