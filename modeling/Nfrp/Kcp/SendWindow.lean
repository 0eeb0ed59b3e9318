import Nfrp.Kcp.Session

/-!
# The send window

`sndUna` is taken from the wire.  A segment is `UnaCovered` when its UNA, if it
moves `sndUna` at all, moves it no further than what was sent; that is exactly
when the window survives the segment, and then every run keeps it.  The code
does not make the test, so a peer can push `sndUna` beyond `sndNxt`.
-/

namespace Nfrp.Kcp

open Lib

/-- What is in flight fits the window and the send buffer holds a part of it,
in order. -/
structure SendWindow (sndWnd sndUna sndNxt : U32) (sns : List U32) : Prop where
  wnd : sndWnd = ikcpWndSnd
  inflight : offset sndUna sndNxt ≤ sndWnd.toNat
  buffered : InWindow sndUna (offset sndUna sndNxt) sns

def SendWindowed (k : Kcp) : Prop :=
  SendWindow k.sndWnd k.sndUna k.sndNxt (k.sndBuf.map Seg.sn)

def UnaCovered (k : Kcp) (seg : Seg) : Prop :=
  0 < i32From (seg.una - k.sndUna) → i32From (seg.una - k.sndNxt) ≤ 0

instance (k : Kcp) (seg : Seg) : Decidable (k.UnaCovered seg) :=
  inferInstanceAs (Decidable (_ → _))

namespace SendWindow

variable {sndWnd sndUna sndNxt : U32} {sns : List U32}

theorem wnd_toNat (window : SendWindow sndWnd sndUna sndNxt sns) : sndWnd.toNat = 32 := by
  rw [window.wnd]
  rfl

theorem inflight_le (window : SendWindow sndWnd sndUna sndNxt sns) :
    offset sndUna sndNxt ≤ 32 :=
  window.inflight.trans window.wnd_toNat.le

theorem sublist {kept : List U32} (window : SendWindow sndWnd sndUna sndNxt sns)
    (h : kept.Sublist sns) : SendWindow sndWnd sndUna sndNxt kept :=
  ⟨window.wnd, window.inflight, window.buffered.sublist h⟩

/-- Everything before a UNA that covers only what was sent is dropped. -/
theorem advance {una : U32} (window : SendWindow sndWnd sndUna sndNxt sns)
    (forward : 0 < i32From (una - sndUna)) (covered : i32From (una - sndNxt) ≤ 0) :
    SendWindow sndWnd una sndNxt (sns.filter fun sn => 0 ≤ i32From (sn - una)) := by
  have bound := window.inflight_le
  have wnd := window.inflight
  obtain ⟨-, half⟩ := toInt_sub_pos_iff.mp forward
  have compared : i32From (una - sndNxt) = (offset sndUna una : Int) - offset sndUna sndNxt :=
    toInt_sub_eq_offset_sub half (by omega)
  have remaining : offset una sndNxt = offset sndUna sndNxt - offset sndUna una :=
    offset_advance (by omega)
  have ahead : ∀ sn ∈ sns.filter (fun sn => 0 ≤ i32From (sn - una)),
      offset sndUna una ≤ offset sndUna sn := by
    intro sn membership
    obtain ⟨inBuffer, kept⟩ := List.mem_filter.mp membership
    have inside := window.buffered.2 sn inBuffer
    have difference : i32From (sn - una) = (offset sndUna sn : Int) - offset sndUna una :=
      toInt_sub_eq_offset_sub (by omega) half
    have kept := of_decide_eq_true kept
    omega
  refine ⟨window.wnd, by omega, ?_⟩
  rw [remaining]
  exact (window.buffered.sublist List.filter_sublist).advance ahead

theorem push {limit : U32} (window : SendWindow sndWnd sndUna sndNxt sns)
    (bounded : limit.toNat ≤ sndWnd.toNat)
    (isOpen : i32From (sndNxt - (sndUna + limit)) < 0) :
    SendWindow sndWnd sndUna (sndNxt + 1) (sns ++ [sndNxt]) := by
  have bound := window.inflight_le
  have wnd := window.wnd_toNat
  have end_offset : offset sndUna (sndUna + limit) = limit.toNat := offset_base_add _ _
  have compared : i32From (sndNxt - (sndUna + limit)) =
      (offset sndUna sndNxt : Int) - offset sndUna (sndUna + limit) :=
    toInt_sub_eq_offset_sub (by omega) (by omega)
  have nextOffset : offset sndUna (sndNxt + 1) = offset sndUna sndNxt + 1 :=
    offset_add_one (by omega)
  refine ⟨window.wnd, by omega, ?_⟩
  rw [nextOffset]
  exact (window.buffered.mono (Nat.le_succ _)).append_singleton window.buffered.2 (by omega)

end SendWindow

theorem bumpFastack_map_sn (sn : U32) (segs : List Seg) :
    (bumpFastack sn segs).map Seg.sn = segs.map Seg.sn := by
  induction segs with
  | nil => rfl
  | cons seg rest ih =>
    rw [bumpFastack]
    split
    · simp [ih]
    · rfl

theorem handleUna_sendWindowed {k : Kcp} {una : U32} (windowed : k.SendWindowed)
    (covered : 0 < i32From (una - k.sndUna) → i32From (una - k.sndNxt) ≤ 0) :
    (k.handleUna una).SendWindowed := by
  have kept : (k.handleUna una).sndBuf.map Seg.sn =
      (k.sndBuf.map Seg.sn).filter fun sn => 0 ≤ i32From (sn - una) := by
    simp only [handleUna, List.filter_map]
    rfl
  unfold SendWindowed
  rw [kept]
  by_cases forward : 0 < i32From (una - k.sndUna)
  · simp only [handleUna, if_pos forward]
    exact SendWindow.advance windowed forward (covered forward)
  · simp only [handleUna, if_neg forward]
    exact SendWindow.sublist windowed List.filter_sublist

theorem handleAck_sendWindowed {k : Kcp} (windowed : k.SendWindowed) (sn ts : U32) :
    (k.handleAck sn ts).SendWindowed := by
  obtain ⟨_, _, _, handled⟩ := handleAck_eq k sn ts
  rw [handled]
  simp only [SendWindowed, bumpFastack_map_sn]
  exact SendWindow.sublist windowed ((List.eraseP_sublist).map Seg.sn)

theorem handleSeg_sndUna (k : Kcp) (seg : Seg) :
    (k.handleSeg seg).sndUna = (k.hear seg).sndUna ∧ (k.handleSeg seg).sndNxt = k.sndNxt := by
  rcases handleSeg_cases k seg with ⟨_, handled⟩ | ⟨_, handled⟩ | ⟨_, _, probe, handled⟩
  · obtain ⟨_, _, _, acked⟩ := handleAck_eq (k.hear seg) seg.sn seg.ts
    rw [handled, acked]
    exact ⟨rfl, rfl⟩
  · obtain ⟨_, _, _, _, pushed⟩ := handlePush_eq (k.hear seg) seg
    rw [handled, pushed]
    exact ⟨rfl, rfl⟩
  · rw [handled]
    exact ⟨rfl, rfl⟩

/-- A segment leaves the window intact exactly when its UNA is covered. -/
theorem handleSeg_sendWindowed_iff {k : Kcp} (windowed : k.SendWindowed) (seg : Seg) :
    (k.handleSeg seg).SendWindowed ↔ k.UnaCovered seg := by
  constructor
  · intro survives forward
    by_contra beyond
    obtain ⟨una, nxt⟩ := handleSeg_sndUna k seg
    have bound := SendWindow.inflight_le survives
    rw [una, nxt, hear, handleUna] at bound
    simp only [if_pos forward] at bound
    obtain ⟨positive, half⟩ := toInt_sub_pos_iff.mp (not_le.mp beyond)
    have roundTrip : offset seg.una k.sndNxt = 2 ^ 32 - offset k.sndNxt seg.una := by
      unfold offset at *
      bv_omega
    omega
  · intro covered
    have heard : (k.hear seg).SendWindowed := by
      apply handleUna_sendWindowed windowed
      exact covered
    rcases handleSeg_cases k seg with ⟨_, handled⟩ | ⟨_, handled⟩ | ⟨_, _, probe, handled⟩
    · rw [handled]
      exact handleAck_sendWindowed heard _ _
    · obtain ⟨_, _, _, _, pushed⟩ := handlePush_eq (k.hear seg) seg
      rw [handled, pushed]
      exact heard
    · rw [handled]
      exact heard

def InputCovered (k : Kcp) : Op → Prop
  | .input pkt => RunMeets handleSeg UnaCovered k (k.handled pkt)
  | _ => True

instance (k : Kcp) : (op : Op) → Decidable (k.InputCovered op)
  | .input pkt => inferInstanceAs (Decidable (RunMeets handleSeg UnaCovered k (k.handled pkt)))
  | .send _ | .update _ | .flushNow _ | .recv | .setNodelay _ _ _ | .pump => .isTrue trivial

theorem fillSndBuf_sendWindow {k : Kcp} {limit : U32} (bounded : limit.toNat ≤ k.sndWnd.toNat)
    (sndQueue sndBuf : List Seg) (sndNxt : U32)
    (window : SendWindow k.sndWnd k.sndUna sndNxt (sndBuf.map Seg.sn)) :
    (k.fillSndBuf (k.sndUna + limit) sndQueue sndBuf sndNxt).SendWindowed := by
  induction sndQueue generalizing sndBuf sndNxt with
  | nil => exact window
  | cons seg sndQueue ih =>
    rw [fillSndBuf]
    split
    next isOpen =>
      apply ih
      rw [List.map_append]
      exact window.push bounded isOpen
    next _ => exact window

theorem promoteQueued_sendWindowed {k : Kcp} (windowed : k.SendWindowed) :
    k.promoteQueued.SendWindowed := by
  apply fillSndBuf_sendWindow _ _ _ _ windowed
  unfold umin
  split
  · exact le_refl _
  · next larger => bv_omega

theorem flush_sendWindowed {k : Kcp} (windowed : k.SendWindowed) : k.flush.SendWindowed := by
  obtain ⟨_, _, _, _, resent⟩ := retransmit_eq k.beforeRetransmit
  obtain ⟨_, _, _, _, before⟩ := beforePromote_eq k
  have promoted : k.beforeRetransmit.SendWindowed := by
    rw [beforeRetransmit, before]
    exact promoteQueued_sendWindowed windowed
  rw [flush_eq, resent]
  simp only [SendWindowed, List.map_map]
  have sameSn : Seg.sn ∘ k.beforeRetransmit.resendSeg = Seg.sn := by
    funext seg
    exact resendSeg_sn _ _
  rw [sameSn]
  exact promoted

theorem apply_sendWindowed {k : Kcp} {op : Op} (covered : k.InputCovered op)
    (windowed : k.SendWindowed) : (k.apply op).SendWindowed := by
  rcases apply_cases k op with ⟨_, _, _, _, _, _, _, kept⟩ | ⟨-, _, _, _, flushed⟩ | ⟨pkt, rfl, handled⟩ | ⟨_, _, _, rfl⟩
  · rw [kept]
    exact windowed
  · rw [flushed]
    exact flush_sendWindowed windowed
  · rw [handled]
    apply run_invariant_of_meets _ windowed covered
    intro k seg covered windowed
    exact (handleSeg_sendWindowed_iff windowed seg).mpr covered
  · exact windowed

/-- In every run whose processed segments carry covered UNAs, the send window
stays in order: `sndUna` is not after `sndNxt`, at most `sndWnd` numbers are in
flight, and the send buffer is strictly sorted among them. -/
theorem send_window_invariant (conv : U32) (mtu : Nat) (ops : List Op)
    (covered : RunMeets apply InputCovered (Kcp.new conv mtu) ops) :
    let k := run apply (Kcp.new conv mtu) ops
    i32From (k.sndUna - k.sndNxt) ≤ 0 ∧
      (k.sndNxt - k.sndUna).toNat ≤ k.sndWnd.toNat ∧
      (k.sndBuf.map Seg.sn).Pairwise Before ∧
      ∀ seg ∈ k.sndBuf, (seg.sn - k.sndUna).toNat < (k.sndNxt - k.sndUna).toNat := by
  intro k
  have windowed : SendWindow k.sndWnd k.sndUna k.sndNxt (k.sndBuf.map Seg.sn) :=
    run_invariant_of_meets (fun _ _ covered windowed => apply_sendWindowed covered windowed)
      ⟨rfl, by simp [Kcp.new], by simp [Kcp.new]⟩ covered
  have bound := windowed.inflight_le
  have difference : i32From (k.sndUna - k.sndNxt) =
      (offset k.sndUna k.sndUna : Int) - offset k.sndUna k.sndNxt :=
    toInt_sub_eq_offset_sub (by simp) (by omega)
  rw [offset_self] at difference
  refine ⟨by omega, windowed.inflight, windowed.buffered.pairwise_before (by omega), ?_⟩
  intro seg membership
  exact windowed.buffered.2 seg.sn (List.mem_map_of_mem membership)

/-- A window report whose UNA acknowledges five segments nobody sent. -/
def unsentUna : Seg :=
  { Seg.new [] with conv := 1, cmd := ikcpCmdWins, wnd := 128, una := 5 }

theorem send_window_broken :
    let k := run apply (Kcp.new 1 0) [.input unsentUna.encode]
    0 < i32From (k.sndUna - k.sndNxt) ∧ k.sndWnd.toNat < (k.sndNxt - k.sndUna).toNat := by
  decide

theorem send_window_invariant_example :
    let k := run apply (Kcp.new 1 0)
      [.send [1, 2, 3], .flushNow 0, .input { unsentUna with una := 1 }.encode, .flushNow 10]
    i32From (k.sndUna - k.sndNxt) ≤ 0 ∧
      (k.sndNxt - k.sndUna).toNat ≤ k.sndWnd.toNat ∧
      (k.sndBuf.map Seg.sn).Pairwise Before ∧
      ∀ seg ∈ k.sndBuf, (seg.sn - k.sndUna).toNat < (k.sndNxt - k.sndUna).toNat :=
  send_window_invariant 1 0 _ (by decide)

end Nfrp.Kcp
