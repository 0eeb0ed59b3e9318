import Nfrp.Kcp.Session

/-!
# Datagrams that are refused

A datagram is decoded as a whole before any of it is processed, so one that cannot be decoded
changes nothing.  The number of the conversation is compared segment by segment while they are
processed: what stands before a segment of another conversation has been applied when the
datagram is refused.
-/

namespace Nfrp.Kcp

open Lib

def InputAtomic (k : Kcp) (pkt : Datagram) : Prop :=
  ∀ e, (k.input pkt).2 = .error e → (k.input pkt).1 = k

/-- The datagram starts with a segment of the conversation and holds one of another. -/
def Mixed (conv : U32) (pkt : Datagram) : Prop :=
  ∃ first rest, decodeSegs pkt = some (.ok (first :: rest)) ∧ first.conv = conv ∧
    ∃ seg ∈ rest, seg.conv ≠ conv

theorem inputSegs_snd (k : Kcp) (segs : List Seg) :
    (k.inputSegs segs).2 = if ∀ seg ∈ segs, seg.conv = k.conv then .ok () else .error .wrongConv := by
  induction segs generalizing k with
  | nil => rfl
  | cons seg segs ih =>
    by_cases same : seg.conv = k.conv
    · simp only [inputSegs, same, ne_eq, not_true_eq_false, if_false, ih,
        handleSeg_conv, List.forall_mem_cons, true_and]
    · simp [inputSegs, same]

theorem input_of_decoded {pkt : Datagram} {segs : List Seg} (decoded : decodeSegs pkt = some (.ok segs)) (k : Kcp) :
    k.input pkt = k.inputSegs segs := by
  simp only [input, decoded, Option.get_some]

theorem handleSeg_rmtWnd (k : Kcp) (seg : Seg) : (k.handleSeg seg).rmtWnd = seg.wnd.setWidth 32 := by
  rcases handleSeg_cases k seg with ⟨_, handled⟩ | ⟨_, handled⟩ | ⟨_, _, probe, handled⟩
  · obtain ⟨_, _, _, acked⟩ := handleAck_eq (k.hear seg) seg.sn seg.ts
    rw [handled, acked]
    rfl
  · obtain ⟨_, _, _, _, pushed⟩ := handlePush_eq (k.hear seg) seg
    rw [handled, pushed]
    rfl
  · rw [handled]
    rfl

theorem foldl_handleSeg_rmtWnd (k : Kcp) (segs : List Seg) (last : Seg) :
    ((segs ++ [last]).foldl handleSeg k).rmtWnd = last.wnd.setWidth 32 := by
  rw [List.foldl_append]
  exact handleSeg_rmtWnd _ last

/-- What is not mixed is refused by the decoder or for its first segment. -/
theorem inputAtomic_of_not_mixed {k : Kcp} {pkt : Datagram} (unmixed : ¬ Mixed k.conv pkt) : k.InputAtomic pkt := by
  intro e failed
  obtain ⟨outcome, decoded⟩ := Option.isSome_iff_exists.mp (decodeSegs_isSome pkt)
  cases outcome with
  | error reason => simp only [input, decoded, Option.get_some]
  | ok segs =>
    rw [input_of_decoded decoded] at failed ⊢
    cases segs with
    | nil => rfl
    | cons first rest =>
      by_cases own : first.conv = k.conv
      · have same : ∀ seg ∈ first :: rest, seg.conv = k.conv := by
          intro seg membership
          by_contra foreign
          rcases List.mem_cons.mp membership with rfl | inRest
          · exact foreign own
          · exact unmixed ⟨first, rest, decoded, own, seg, inRest, foreign⟩
        rw [inputSegs_snd, if_pos same] at failed
        cases failed
      · simp [inputSegs, own]

theorem not_inputAtomic_of_mixed {k : Kcp} {pkt : Datagram} (mixed : Mixed k.conv pkt) :
    ∃ last : Seg, ∀ rmtWnd, rmtWnd ≠ last.wnd.setWidth 32 → ¬ InputAtomic { k with rmtWnd } pkt := by
  obtain ⟨first, rest, decoded, own, seg, inRest, foreign⟩ := mixed
  have applied : (first :: rest).takeWhile (fun seg => seg.conv = k.conv) ≠ [] := by
    simp [own]
  obtain ⟨segs, last, isLast⟩ := (List.eq_nil_or_concat _).resolve_left applied
  refine ⟨last, fun rmtWnd other atomic => other ?_⟩
  have refused : (input { k with rmtWnd } pkt).2 = .error .wrongConv := by
    rw [input_of_decoded decoded, inputSegs_snd, if_neg]
    intro same
    exact foreign (same seg (List.mem_cons_of_mem first inRest))
  have unchanged := congrArg Kcp.rmtWnd (atomic _ refused)
  rw [input_of_decoded decoded, inputSegs_fst, isLast, List.concat_eq_append, foldl_handleSeg_rmtWnd] at unchanged
  exact unchanged.symm

/-- Refusing a datagram changes nothing, whatever window the peer reported before, exactly if
the datagram is not mixed. -/
theorem inputAtomic_iff (k : Kcp) (pkt : Datagram) :
    (∀ rmtWnd, InputAtomic { k with rmtWnd } pkt) ↔ ¬ Mixed k.conv pkt := by
  constructor
  · intro atomic mixed
    obtain ⟨last, breaks⟩ := not_inputAtomic_of_mixed mixed
    apply breaks (last.wnd.setWidth 32 + 1) _ (atomic _)
    simp
  · intro unmixed rmtWnd
    exact inputAtomic_of_not_mixed unmixed

def mixedPkt : Datagram :=
  { Seg.new [7] with conv := 1, cmd := ikcpCmdPush, wnd := 128 }.encode ++ { Seg.new [] with conv := 2 }.encode

theorem not_inputAtomic_mixedPkt :
    ((Kcp.new 1 0).input mixedPkt).2 = .error .wrongConv ∧
      ((Kcp.new 1 0).input mixedPkt).1.recv.2 = some [7] ∧ ¬ InputAtomic (Kcp.new 1 0) mixedPkt := by
  have refused : ((Kcp.new 1 0).input mixedPkt).2 = .error .wrongConv := by decide
  refine ⟨refused, by decide, fun atomic => ?_⟩
  have unchanged : ((Kcp.new 1 0).input mixedPkt).1 ≠ Kcp.new 1 0 := by decide
  exact unchanged (atomic _ refused)

end Nfrp.Kcp
