import Nfrp.Kcp.Session

/-!
# Which pushes are acknowledged

A push below the end of the receive window deserves an answer that lets the
sender forget it, also when it repeats something already delivered: the first
acknowledgement may have been lost.  The code queues an acknowledgement only
for numbers not before `rcvNxt`.  A repeated number is answered only if the
flush has something else to send, whose UNA then covers it.
-/

namespace Nfrp.Kcp

open Lib

/-- The segment makes a sender drop `sn` from its send buffer. -/
def Seg.Releases (seg : Seg) (sn : U32) : Prop :=
  (seg.cmd = ikcpCmdAck ∧ seg.sn = sn) ∨ i32From (sn - seg.una) < 0

instance (seg : Seg) (sn : U32) : Decidable (seg.Releases sn) :=
  inferInstanceAs (Decidable (_ ∨ _))

def emittedBy (k : Kcp) (current : U32) : List Datagram :=
  (k.flushNow current).out.drop k.out.length

/-- One of the datagrams carries a header that releases the number. -/
def Acknowledges (pkts : List Datagram) (sn : U32) : Prop :=
  ∃ pkt ∈ pkts, ∃ seg len, decodeHeader pkt 0 = some (seg, len) ∧ seg.Releases sn

def Due (k : Kcp) (current : U32) (seg : Seg) : Prop :=
  seg.xmit = 0 ∨ 0 ≤ i32From (current - seg.resendts) ∨ k.fastLimit ≤ seg.fastack

/-- A flush at `current` has something to send: acknowledgements, a probe, a
segment in flight that is due, or a queued one that the window lets out. -/
def HasOutput (k : Kcp) (current : U32) : Prop :=
  k.acklist ≠ [] ∨
    (k.probe &&& ikcpAskSend ≠ 0 ∨ k.probe &&& ikcpAskTell ≠ 0 ∨
      (k.rmtWnd = 0 ∧ k.probeWait ≠ 0 ∧ 0 ≤ i32From (current - k.tsProbe))) ∨
    (∃ seg ∈ k.sndBuf, k.Due current seg) ∨
    (k.sndQueue ≠ [] ∧ i32From (k.sndNxt - (k.sndUna + umin k.sndWnd k.rmtWnd)) < 0)

theorem resendRule_ne_none_iff (k : Kcp) (seg : Seg) :
    k.resendRule seg ≠ .none ↔ k.Due k.current seg := by
  unfold resendRule Due
  by_cases fresh : seg.xmit = 0
  · rw [if_pos fresh]
    exact ⟨fun _ => .inl fresh, fun _ => by decide⟩
  · rw [if_neg fresh]
    by_cases timeout : 0 ≤ i32From (k.current - seg.resendts)
    · rw [if_pos timeout]
      exact ⟨fun _ => .inr (.inl timeout), fun _ => by decide⟩
    · rw [if_neg timeout]
      by_cases fast : k.fastLimit ≤ seg.fastack
      · rw [if_pos fast]
        exact ⟨fun _ => .inr (.inr fast), fun _ => by decide⟩
      · rw [if_neg fast]
        simp only [ne_eq, not_true_eq_false, fresh, timeout, fast, or_self]

theorem acks_eq_nil_iff (k : Kcp) : k.acks = [] ↔ k.acklist = [] :=
  List.map_eq_nil_iff

theorem probes_eq_nil_iff (k : Kcp) :
    k.probes = [] ↔ k.probe &&& ikcpAskSend = 0 ∧ k.probe &&& ikcpAskTell = 0 := by
  simp only [probes, List.append_eq_nil_iff, ite_eq_right_iff, reduceCtorEq, imp_false, ne_eq,
    not_not]

theorem scheduled_probes_eq_nil_iff (k : Kcp) :
    k.scheduleProbe.probes = [] ↔
      k.probe &&& ikcpAskSend = 0 ∧ k.probe &&& ikcpAskTell = 0 ∧
        ¬ (k.rmtWnd = 0 ∧ k.probeWait ≠ 0 ∧ 0 ≤ i32From (k.current - k.tsProbe)) := by
  have asks : (k.probe ||| ikcpAskSend) &&& ikcpAskSend ≠ 0 := by
    intro cleared
    have lowBit := congrArg (fun v : U32 => v.getLsbD 0) cleared
    simp [ikcpAskSend] at lowBit
  rw [probes_eq_nil_iff]
  unfold scheduleProbe
  by_cases closed : k.rmtWnd = 0
  · rw [if_pos closed]
    by_cases unscheduled : k.probeWait = 0
    · rw [if_pos unscheduled]
      simp only [closed, unscheduled, ne_eq, not_true_eq_false, false_and, and_false, not_false_eq_true,
        and_true]
    · rw [if_neg unscheduled]
      by_cases due : 0 ≤ i32From (k.current - k.tsProbe)
      · rw [if_pos due]
        simp only [closed, unscheduled, due, asks, ne_eq, not_false_eq_true, and_self, not_true_eq_false,
          and_false, false_and]
      · rw [if_neg due]
        simp only [due, and_false, not_false_eq_true, and_true]
  · rw [if_neg closed]
    simp only [closed, false_and, not_false_eq_true, and_true]

theorem dueSegs_eq_nil_iff (k : Kcp) (sndBuf : List Seg) :
    k.dueSegs sndBuf = [] ↔ ∀ seg ∈ sndBuf, ¬ k.Due k.current seg := by
  simp only [dueSegs, List.map_eq_nil_iff, List.filter_eq_nil_iff, decide_eq_true_eq,
    resendRule_ne_none_iff]

theorem stampAll_eq_nil_iff (k : Kcp) (sn : U32) (segs : List Seg) :
    k.stampAll sn segs = [] ↔ segs = [] := by
  cases segs <;> simp [stampAll]

theorem mem_stampAll {k : Kcp} {sn : U32} {segs : List Seg} {seg : Seg}
    (membership : seg ∈ k.stampAll sn segs) : seg.cmd = ikcpCmdPush ∧ seg.xmit = 0 := by
  induction segs generalizing sn with
  | nil => simp [stampAll] at membership
  | cons first rest ih =>
    rcases List.mem_cons.mp membership with rfl | later
    · exact ⟨rfl, rfl⟩
    · exact ih later

theorem resendSeg_una_of_due {k : Kcp} {seg : Seg} (due : k.resendRule seg ≠ .none) :
    (k.resendSeg seg).una = k.rcvNxt := by
  unfold resendSeg
  cases rule : k.resendRule seg with
  | first => rfl
  | timeout => rfl
  | fast => rfl
  | none => exact absurd rule due

theorem mem_acks_iff {k : Kcp} {seg : Seg} :
    seg ∈ k.acks ↔ ∃ ack ∈ k.acklist, k.control ikcpCmdAck ack.2 ack.1 = seg :=
  List.mem_map

theorem mem_probes {k : Kcp} {seg : Seg} (membership : seg ∈ k.probes) :
    seg.una = k.rcvNxt ∧ seg.cmd ≠ ikcpCmdAck := by
  rcases List.mem_append.mp membership with asked | told
  · rw [List.mem_ite_nil_right, List.mem_singleton] at asked
    rw [asked.2]
    exact ⟨rfl, show ikcpCmdWask ≠ ikcpCmdAck by decide⟩
  · rw [List.mem_ite_nil_right, List.mem_singleton] at told
    rw [told.2]
    exact ⟨rfl, show ikcpCmdWins ≠ ikcpCmdAck by decide⟩

theorem mem_dueSegs {k : Kcp} {sndBuf : List Seg} {seg : Seg}
    (pushes : ∀ seg ∈ sndBuf, seg.cmd = ikcpCmdPush) (membership : seg ∈ k.dueSegs sndBuf) :
    seg.una = k.rcvNxt ∧ seg.cmd ≠ ikcpCmdAck := by
  obtain ⟨original, kept, rfl⟩ := List.mem_map.mp membership
  obtain ⟨inBuffer, due⟩ := List.mem_filter.mp kept
  refine ⟨resendSeg_una_of_due (of_decide_eq_true due), ?_⟩
  rw [resendSeg_cmd, pushes original inBuffer]
  decide

theorem hasOutput_iff {k : Kcp} {moved : List Seg}
    (opened : moved = [] ↔ k.sndQueue = [] ∨
      0 ≤ i32From (k.sndNxt - (k.sndUna + umin k.sndWnd k.rmtWnd))) :
    k.acks ++ k.flushAcks.scheduleProbe.probes ++
        k.dueSegs (k.sndBuf ++ k.stampAll k.sndNxt moved) = [] ↔ ¬ k.HasOutput k.current := by
  have stamped : (∀ seg ∈ k.stampAll k.sndNxt moved, ¬ k.Due k.current seg) ↔ moved = [] := by
    constructor
    · intro notDue
      by_contra nonempty
      obtain ⟨seg, membership⟩ := List.exists_mem_of_ne_nil _
        (mt (stampAll_eq_nil_iff k k.sndNxt moved).mp nonempty)
      exact notDue seg membership (.inl (mem_stampAll membership).2)
    · rintro rfl
      simp [stampAll]
  rw [List.append_eq_nil_iff, List.append_eq_nil_iff, acks_eq_nil_iff,
    scheduled_probes_eq_nil_iff, dueSegs_eq_nil_iff, List.forall_mem_append, stamped, opened,
    flushAcks_eq]
  simp only [HasOutput, ne_eq, not_or, not_exists, not_and, not_not, not_lt]
  tauto

/-- What a flush emits: every segment carries the receiver's `rcvNxt`, the
acknowledgements are those queued, and there is nothing only if there is no
output to make. -/
theorem emittedBy_spec {k : Kcp} (current : U32) (pushes : ∀ seg ∈ k.sndBuf, seg.cmd = ikcpCmdPush) :
    ∃ segs, k.emittedBy current = segs.map Seg.encode ∧
      (∀ seg ∈ segs, seg.una = k.rcvNxt) ∧
      (∀ sn, (∃ seg ∈ segs, seg.cmd = ikcpCmdAck ∧ seg.sn = sn) ↔ ∃ ts, (sn, ts) ∈ k.acklist) ∧
      (segs = [] ↔ ¬ k.HasOutput current) := by
  obtain ⟨moved, rest, _, _, _, _, _, _, -, opened, flushed⟩ := flush_spec { k with current }
  have probeSide : ({ k with current } : Kcp).flushAcks.scheduleProbe.rcvNxt = k.rcvNxt := by
    obtain ⟨_, _, _, scheduled⟩ := scheduleProbe_eq ({ k with current } : Kcp).flushAcks
    rw [scheduled, flushAcks_eq]
  have buffered : ∀ seg ∈ k.sndBuf ++ stampAll { k with current } k.sndNxt moved,
      seg.cmd = ikcpCmdPush :=
    List.forall_mem_append.mpr ⟨pushes, fun seg membership => (mem_stampAll membership).1⟩
  refine ⟨_, ?_, ?_, ?_, hasOutput_iff opened⟩
  · rw [emittedBy, flushNow, flushed]
    exact List.drop_left
  · intro seg membership
    rcases List.mem_append.mp membership with control | due
    · rcases List.mem_append.mp control with acknowledgement | probe
      · obtain ⟨ack, _, rfl⟩ := mem_acks_iff.mp acknowledgement
        rfl
      · rw [(mem_probes probe).1]
        exact probeSide
    · exact (mem_dueSegs buffered due).1
  · intro sn
    constructor
    · rintro ⟨seg, membership, isAck, rfl⟩
      rcases List.mem_append.mp membership with control | due
      · rcases List.mem_append.mp control with acknowledgement | probe
        · obtain ⟨ack, queued, rfl⟩ := mem_acks_iff.mp acknowledgement
          exact ⟨ack.2, queued⟩
        · exact absurd isAck (mem_probes probe).2
      · exact absurd isAck (mem_dueSegs buffered due).2
    · rintro ⟨ts, queued⟩
      refine ⟨({ k with current } : Kcp).control ikcpCmdAck ts sn, ?_, rfl, rfl⟩
      exact List.mem_append_left _ (List.mem_append_left _
        (mem_acks_iff.mpr ⟨(sn, ts), queued, rfl⟩))

theorem acknowledges_emittedBy_iff {k : Kcp} (pushes : ∀ seg ∈ k.sndBuf, seg.cmd = ikcpCmdPush)
    (current sn : U32) :
    Acknowledges (k.emittedBy current) sn ↔
      (∃ ts, (sn, ts) ∈ k.acklist) ∨ (i32From (sn - k.rcvNxt) < 0 ∧ k.HasOutput current) := by
  obtain ⟨segs, emitted, una, acknowledged, empty⟩ := emittedBy_spec current pushes
  rw [emitted, ← acknowledged]
  constructor
  · rintro ⟨pkt, inEmitted, header, len, decoded, releases⟩
    obtain ⟨seg, membership, rfl⟩ := List.mem_map.mp inEmitted
    obtain ⟨_, encoded⟩ := decodeHeader_encode seg
    obtain ⟨rfl, -⟩ := Prod.mk.inj (Option.some.inj (decoded.symm.trans encoded))
    rcases releases with ⟨isAck, same⟩ | covered
    · exact .inl ⟨seg, membership, isAck, same⟩
    · refine .inr ⟨by simpa only [una seg membership] using covered, ?_⟩
      by_contra silent
      rw [empty.mpr silent] at membership
      exact List.not_mem_nil membership
  · rintro (⟨seg, membership, isAck, same⟩ | ⟨before, output⟩)
    · obtain ⟨len, encoded⟩ := decodeHeader_encode seg
      exact ⟨_, List.mem_map_of_mem membership, _, len, encoded, .inl ⟨isAck, same⟩⟩
    · obtain ⟨seg, membership⟩ := List.exists_mem_of_ne_nil segs
        fun silent => absurd output (empty.mp silent)
      obtain ⟨len, encoded⟩ := decodeHeader_encode seg
      refine ⟨_, List.mem_map_of_mem membership, _, len, encoded, .inr ?_⟩
      simpa only [una seg membership] using before

theorem eraseP_sn_ne {sn : U32} {segs : List Seg} (distinct : (segs.map Seg.sn).Nodup) :
    ∀ seg ∈ segs.eraseP fun s => s.sn = sn, seg.sn ≠ sn := by
  induction segs with
  | nil => simp
  | cons first rest ih =>
    obtain ⟨fresh, distinct⟩ := List.nodup_cons.mp distinct
    by_cases isFirst : first.sn = sn
    · rw [List.eraseP_cons_of_pos (by simpa using isFirst)]
      rintro seg membership same
      exact fresh (List.mem_map.mpr ⟨seg, membership, same.trans isFirst.symm⟩)
    · rw [List.eraseP_cons_of_neg (by simpa using isFirst)]
      exact List.forall_mem_cons.mpr ⟨isFirst, ih distinct⟩

def Reachable (k : Kcp) : Prop :=
  ∃ conv mtu ops, k = run apply (Kcp.new conv mtu) ops

theorem flush_sndBuf_push {k : Kcp} (pushes : ∀ seg ∈ k.sndBuf, seg.cmd = ikcpCmdPush) :
    ∀ seg ∈ k.flush.sndBuf, seg.cmd = ikcpCmdPush := by
  obtain ⟨moved, _, _, _, _, _, _, _, -, -, flushed⟩ := flush_spec k
  rw [flushed]
  intro seg membership
  obtain ⟨original, inBuffer, rfl⟩ := List.mem_map.mp membership
  rw [resendSeg_cmd]
  rcases List.mem_append.mp inBuffer with old | stamped
  · exact pushes original old
  · exact (mem_stampAll stamped).1

theorem apply_sndBuf_push (k : Kcp) (op : Op) (pushes : ∀ seg ∈ k.sndBuf, seg.cmd = ikcpCmdPush) :
    ∀ seg ∈ (k.apply op).sndBuf, seg.cmd = ikcpCmdPush := by
  rcases apply_cases k op with ⟨_, _, _, _, _, _, _, kept⟩ | ⟨-, _, _, _, flushed⟩ | ⟨pkt, -, handled⟩ | ⟨_, _, _, rfl⟩
  · rw [kept]
    exact pushes
  · rw [flushed]
    exact flush_sndBuf_push pushes
  · rw [handled]
    refine @run_invariant _ _ handleSeg (fun k => ∀ seg ∈ k.sndBuf, seg.cmd = ikcpCmdPush) ?_ _ pushes _
    intro k seg pushes sent membership
    obtain ⟨original, heard, fastack, rfl⟩ := mem_handleSeg_sndBuf membership
    exact pushes original (mem_hear_sndBuf heard).1
  · exact pushes

theorem Reachable.sndBuf_push {k : Kcp} (reachable : k.Reachable) :
    ∀ seg ∈ k.sndBuf, seg.cmd = ikcpCmdPush := by
  obtain ⟨conv, mtu, ops, rfl⟩ := reachable
  exact @run_invariant _ _ apply (fun k => ∀ seg ∈ k.sndBuf, seg.cmd = ikcpCmdPush)
    apply_sndBuf_push _ (by simp [Kcp.new]) ops

def Quiet (k : Kcp) : Op → Prop
  | .flushNow _ => False
  | .update current => ¬ k.FlushDue current
  | .send _ | .input _ | .recv | .setNodelay _ _ _ | .pump => True

instance (k : Kcp) : (op : Op) → Decidable (k.Quiet op)
  | .flushNow _ => .isFalse id
  | .update current => inferInstanceAs (Decidable (¬ k.FlushDue current))
  | .send _ | .input _ | .recv | .setNodelay _ _ _ | .pump => .isTrue trivial

theorem handleSeg_acklist {k : Kcp} {ack : U32 × U32} (queued : ack ∈ k.acklist) (seg : Seg) :
    ack ∈ (k.handleSeg seg).acklist := by
  rcases handleSeg_cases k seg with ⟨_, handled⟩ | ⟨_, handled⟩ | ⟨_, _, probe, handled⟩
  · obtain ⟨_, _, _, acked⟩ := handleAck_eq (k.hear seg) seg.sn seg.ts
    rw [handled, acked]
    exact queued
  · rw [handled, handlePush]
    split
    · exact List.mem_append_left _ queued
    · exact queued
  · rw [handled]
    exact queued

theorem apply_acklist {k : Kcp} {op : Op} {ack : U32 × U32} (quiet : k.Quiet op)
    (queued : ack ∈ k.acklist) : ack ∈ (k.apply op).acklist := by
  rcases apply_cases k op with ⟨_, _, _, _, _, _, _, kept⟩ | ⟨⟨_, rfl | ⟨rfl, due⟩⟩, _, _, _, flushed⟩ | ⟨pkt, -, handled⟩ | ⟨_, _, _, rfl⟩
  · rw [kept]
    exact queued
  · exact absurd quiet id
  · exact absurd due quiet
  · rw [handled]
    exact @run_invariant _ _ handleSeg (fun k => ack ∈ k.acklist)
      (fun _ seg queued => handleSeg_acklist queued seg) _ queued _
  · exact queued

/-- A push below the end of the window is answered by the next flush exactly if
it is not before `rcvNxt` when it arrives, an acknowledgement of its number is
still queued at the flush, or it is before `rcvNxt` then and the flush has some
output to make. -/
theorem push_acknowledged_iff {k : Kcp} (reachable : k.Reachable) {seg : Seg}
    (isPush : seg.cmd = ikcpCmdPush) (below : i32From (seg.sn - (k.rcvNxt + k.rcvWnd)) < 0)
    {ops : List Op} (quiet : RunMeets apply Quiet (k.handleSeg seg) ops) (current : U32) :
    let waiting := run apply (k.handleSeg seg) ops
    Acknowledges (waiting.emittedBy current) seg.sn ↔
      0 ≤ i32From (seg.sn - k.rcvNxt) ∨ (∃ ts, (seg.sn, ts) ∈ waiting.acklist) ∨
        (i32From (seg.sn - waiting.rcvNxt) < 0 ∧ waiting.HasOutput current) := by
  intro waiting
  have pushes : ∀ sent ∈ waiting.sndBuf, sent.cmd = ikcpCmdPush := by
    refine @run_invariant _ _ apply (fun k => ∀ seg ∈ k.sndBuf, seg.cmd = ikcpCmdPush)
      apply_sndBuf_push _ ?_ ops
    intro sent membership
    obtain ⟨original, heard, _, rfl⟩ := mem_handleSeg_sndBuf membership
    exact reachable.sndBuf_push original (mem_hear_sndBuf heard).1
  have accepted : 0 ≤ i32From (seg.sn - k.rcvNxt) → ∃ ts, (seg.sn, ts) ∈ waiting.acklist := by
    intro notBefore
    have notAck : seg.cmd ≠ ikcpCmdAck := by
      rw [isPush]
      decide
    have handled : k.handleSeg seg = (k.hear seg).handlePush seg := by
      simp only [handleSeg, if_neg notAck, if_pos isPush]
    have acceptable : Acceptable (k.hear seg).rcvNxt (k.hear seg).rcvWnd seg.sn :=
      ⟨below, notBefore⟩
    refine ⟨seg.ts, ?_⟩
    refine @run_invariant_of_meets _ _ apply Quiet (fun k => (seg.sn, seg.ts) ∈ k.acklist) ?_ _ ?_ _ quiet
    · exact fun _ _ quiet queued => apply_acklist quiet queued
    · rw [handled, handlePush, if_pos acceptable]
      exact List.mem_append_right _ (List.mem_singleton.mpr rfl)
  rw [acknowledges_emittedBy_iff pushes]
  constructor
  · exact .inr
  · rintro (notBefore | answered)
    · exact .inl (accepted notBefore)
    · exact answered

/-- The receiver of a one-byte message whose acknowledgement was sent and lost. -/
def delivered : Kcp :=
  run apply (Kcp.new 1 0)
    [.input { Seg.new [7] with conv := 1, cmd := ikcpCmdPush, wnd := 128 }.encode, .recv, .flushNow 10]

/-- The retransmission of that message gets no answer. -/
theorem push_unanswered :
    let seg : Seg := { Seg.new [7] with conv := 1, cmd := ikcpCmdPush, wnd := 128 }
    i32From (seg.sn - (delivered.rcvNxt + delivered.rcvWnd)) < 0 ∧
      ¬ Acknowledges ((delivered.handleSeg seg).emittedBy 210) seg.sn := by
  have silent : (delivered.handleSeg
      { Seg.new [7] with conv := 1, cmd := ikcpCmdPush, wnd := 128 }).emittedBy 210 = [] := by
    decide
  intro seg
  refine ⟨by decide, ?_⟩
  rintro ⟨pkt, membership, _⟩
  rw [silent] at membership
  exact List.not_mem_nil membership

theorem push_acknowledged_iff_example :
    let seg : Seg := { Seg.new [7] with conv := 1, cmd := ikcpCmdPush, wnd := 128 }
    Acknowledges ((run apply ((Kcp.new 1 0).handleSeg seg) [.recv]).emittedBy 10) seg.sn ↔
      0 ≤ i32From (seg.sn - (Kcp.new 1 0).rcvNxt) ∨
        (∃ ts, (seg.sn, ts) ∈ (run apply ((Kcp.new 1 0).handleSeg seg) [.recv]).acklist) ∨
        (i32From (seg.sn - (run apply ((Kcp.new 1 0).handleSeg seg) [.recv]).rcvNxt) < 0 ∧
          (run apply ((Kcp.new 1 0).handleSeg seg) [.recv]).HasOutput 10) :=
  push_acknowledged_iff ⟨1, 0, [], rfl⟩ rfl (by decide) (by decide) 10

end Nfrp.Kcp
