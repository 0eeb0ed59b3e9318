import Nfrp.Kcp.Acknowledge

/-!
# Which segments an acknowledgement skips

Fast retransmission counts, for a segment still in flight, the acknowledgements of segments
after it.  The code walks the send buffer from its front and counts as long as it finds
segments after the acknowledged one, so a segment that was skipped ends the walk.
-/

namespace Nfrp.Kcp

open Lib

/-- What an acknowledgement leaves in the send buffer. -/
def survivors (k : Kcp) (seg : Seg) : List Seg :=
  (k.hear seg).sndBuf.eraseP fun s => s.sn = seg.sn

/-- The segments before the acknowledged one are counted, and no others. -/
def SkippedCounted (k : Kcp) (seg : Seg) : Prop :=
  ∀ sent ∈ k.sndBuf, ∀ left ∈ (k.handleSeg seg).sndBuf, left.sn = sent.sn →
    left.fastack = if Before sent.sn seg.sn then sent.fastack + 1 else sent.fastack

instance (k : Kcp) (seg : Seg) : Decidable (k.SkippedCounted seg) :=
  inferInstanceAs (Decidable (∀ sent ∈ k.sndBuf, ∀ left ∈ (k.handleSeg seg).sndBuf, _ → _))

variable {k : Kcp} {seg : Seg}

theorem handleSeg_sndBuf_of_ack (isAck : seg.cmd = ikcpCmdAck) :
    (k.handleSeg seg).sndBuf = bumpFastack seg.sn (k.survivors seg) := by
  obtain ⟨_, _, _, acked⟩ := handleAck_eq (k.hear seg) seg.sn seg.ts
  simp only [handleSeg, if_pos isAck, acked]
  rfl

/-- In a sorted buffer only one segment carries the acknowledged number. -/
theorem mem_survivors_iff (sorted : (k.sndBuf.map Seg.sn).Pairwise Before) {sent : Seg} :
    sent ∈ k.survivors seg ↔
      sent ∈ k.sndBuf ∧ 0 ≤ i32From (sent.sn - seg.una) ∧ sent.sn ≠ seg.sn := by
  constructor
  · intro remains
    have distinct : ((k.hear seg).sndBuf.map Seg.sn).Nodup := by
      apply List.Nodup.sublist (List.filter_sublist.map Seg.sn)
      apply sorted.imp
      rintro first _ earlier rfl
      simp [Before] at earlier
    have heard := mem_hear_sndBuf (List.mem_of_mem_eraseP remains)
    exact ⟨heard.1, heard.2, eraseP_sn_ne distinct sent remains⟩
  · rintro ⟨inBuffer, uncovered, other⟩
    apply (List.mem_eraseP_of_neg _).mpr
    · simp [hear, handleUna, inBuffer, uncovered]
    · simp [other]

/-- The front of what an acknowledgement leaves is counted if it is after the acknowledged
number and left alone if it was skipped. -/
theorem not_skippedCounted (sorted : (k.sndBuf.map Seg.sn).Pairwise Before) (isAck : seg.cmd = ikcpCmdAck)
    {front : Seg} {rest : List Seg} (isFront : k.survivors seg = front :: rest) : ¬ k.SkippedCounted seg := by
  intro counted
  have remains : front ∈ k.survivors seg := by
    rw [isFront]
    exact List.mem_cons_self
  obtain ⟨inBuffer, -, other⟩ := (mem_survivors_iff sorted).mp remains
  have counter := counted front inBuffer
  rw [handleSeg_sndBuf_of_ack isAck, isFront, bumpFastack] at counter
  by_cases after : 0 < i32From (front.sn - seg.sn)
  · rw [if_pos after] at counter
    have grown := counter _ List.mem_cons_self rfl
    rw [if_neg (show ¬ Before front.sn seg.sn from not_lt.mpr after.le)] at grown
    simp at grown
  · rw [if_neg after] at counter
    have same := counter _ List.mem_cons_self rfl
    have skipped : Before front.sn seg.sn := by
      apply lt_of_le_of_ne (not_lt.mp after)
      intro equal
      apply other
      have difference : front.sn - seg.sn = 0 := BitVec.toInt_inj.mp equal
      simpa using BitVec.sub_eq_iff_eq_add.mp difference
    rw [if_pos skipped] at same
    simp at same

/-- The acknowledgement is counted as it should be exactly if there is nothing to count. -/
theorem skippedCounted_iff (sorted : (k.sndBuf.map Seg.sn).Pairwise Before) (isAck : seg.cmd = ikcpCmdAck) :
    k.SkippedCounted seg ↔ ∀ sent ∈ k.sndBuf, 0 ≤ i32From (sent.sn - seg.una) → sent.sn = seg.sn := by
  constructor
  · intro counted sent inBuffer uncovered
    by_contra other
    have remains := (mem_survivors_iff sorted).mpr ⟨inBuffer, uncovered, other⟩
    obtain ⟨front, rest, isFront⟩ := List.exists_cons_of_ne_nil (List.ne_nil_of_mem remains)
    exact not_skippedCounted sorted isAck isFront counted
  · intro acknowledged sent _ left remains
    rw [handleSeg_sndBuf_of_ack isAck] at remains
    obtain ⟨original, survives, -⟩ := mem_bumpFastack remains
    obtain ⟨inBuffer, uncovered, other⟩ := (mem_survivors_iff sorted).mp survives
    exact absurd (acknowledged original inBuffer uncovered) other

def twoInFlight : Kcp :=
  run apply (Kcp.new 1 0) [.send [1], .send [2], .flushNow 0]

def ackOf (sn una : U32) : Seg :=
  { Seg.new [] with conv := 1, cmd := ikcpCmdAck, wnd := 128, sn, una }

theorem skippedCounted_twoInFlight :
    twoInFlight.SkippedCounted (ackOf 0 1) ↔
      ∀ sent ∈ twoInFlight.sndBuf, 0 ≤ i32From (sent.sn - 1) → sent.sn = 0 :=
  skippedCounted_iff (by decide) rfl

/-- The second segment arrives and the first does not: nothing is counted for the first.  If
the first arrives, it is counted for the second. -/
theorem not_skippedCounted_twoInFlight :
    (twoInFlight.sndBuf.map Seg.sn).Pairwise Before ∧
      ¬ twoInFlight.SkippedCounted (ackOf 1 0) ∧ ¬ twoInFlight.SkippedCounted (ackOf 0 0) := by
  decide

end Nfrp.Kcp
