import Nfrp.Kcp.Checked

/-!
# Where the clock functions overflow

Differences of two times wrap and are read as signed, so their order survives the wrap of the
clock.  Deadlines do not wrap: a flush shortly before the clock wraps adds a wait that is too
long.  Nor does the estimate of the round trip, which the peer can stretch with an old time in
an acknowledgement, and the sums of the congestion window.
-/

namespace Nfrp.Kcp

open Lib

def nextSrtt (k : Kcp) (rtt : U32) : Int :=
  if k.rxSrtt = 0 then rtt.toNat
  else k.rxSrtt.toNat + ((rtt.toNat : Int) - k.rxSrtt.toNat).tdiv 8

def nextRttval (k : Kcp) (rtt : U32) : Int :=
  if k.rxSrtt = 0 then (rtt.toNat / 2 : Nat)
  else k.rxRttval.toNat + (|(rtt.toNat : Int) - k.rxSrtt.toNat| - k.rxRttval.toNat).tdiv 4

/-- The timeout before it is clamped fits a machine word. -/
def RttFits (k : Kcp) (rtt : U32) : Prop :=
  k.nextSrtt rtt + max (4 * k.nextRttval rtt) k.interval.toNat < 2 ^ 32

instance (k : Kcp) (rtt : U32) : Decidable (k.RttFits rtt) := inferInstanceAs (Decidable (_ < _))

/-- The time a probe of the window is put off, if there is one to schedule. -/
def probeDelay (k : Kcp) : Option Nat :=
  if k.rmtWnd ≠ 0 then none
  else if k.probeWait = 0 then some 7000
  else if 0 ≤ i32From (k.current - k.tsProbe) then
    some (min (k.probeWait.toNat + k.probeWait.toNat / 2) 120000)
  else none

/-- How long a segment that is sent now may go without an answer. -/
def resendDelay (k : Kcp) (seg : Seg) : Option Nat :=
  match k.resendRule seg with
  | .first => some (k.rxRto.toNat + if k.nodelay then 0 else k.rxRto.toNat / 8)
  | .timeout => some (seg.rto.toNat + if k.nodelay then seg.rto.toNat / 2 else max seg.rto.toNat k.rxRto.toNat)
  | .fast => some k.rxRto.toNat
  | .none => none

def delays (k : Kcp) : List Nat :=
  k.probeDelay.toList ++ k.promoteQueued.sndBuf.filterMap k.resendDelay

def ClockFits (k : Kcp) : Prop :=
  ∀ wait ∈ k.delays, k.current.toNat + wait < 2 ^ 32

instance (k : Kcp) : Decidable k.ClockFits := inferInstanceAs (Decidable (∀ wait ∈ k.delays, _))

/-- No counter of transmissions is at its end, nor that of segments sent again. -/
def CountsFit (k : Kcp) : Prop :=
  (∀ seg ∈ k.promoteQueued.sndBuf, k.resendRule seg ≠ .none → seg.xmit.toNat + 1 < 2 ^ 32) ∧
    (k.promoteQueued.sndBuf.filter fun seg => k.resendRule seg = .timeout ∨ k.resendRule seg = .fast).length < 2 ^ 32

instance (k : Kcp) : Decidable k.CountsFit := inferInstanceAs (Decidable (_ ∧ _))

def mssWord (k : Kcp) : Nat := k.mss % 2 ^ 32

def growth (k : Kcp) : Nat := k.mss * k.mss % 2 ^ 32 / max k.incr.toNat 1 + k.mssWord / 16

def GrowthFits (k : Kcp) : Prop :=
  k.nodelay = false →
    if k.cwnd < k.ssthresh then k.incr.toNat + k.mssWord < 2 ^ 32
    else k.mss * k.mss < 2 ^ 64 ∧ k.growth < 2 ^ 32 ∧ k.cwnd.toNat + max k.growth 1 < 2 ^ 32

instance (k : Kcp) : Decidable k.GrowthFits := inferInstanceAs (Decidable (_ → _))

def shrunkCwnd (k : Kcp) : Nat :=
  max ((k.promoteQueued.sndNxt - k.sndUna).toNat / 2) 2 + max k.fastresend.toNat 1

def ShrinkFits (k : Kcp) : Prop :=
  k.nodelay = false →
    (∃ seg ∈ k.promoteQueued.sndBuf, k.resendRule seg = .timeout ∨ k.resendRule seg = .fast) →
      k.shrunkCwnd < 2 ^ 32 ∧ k.shrunkCwnd * k.mssWord < 2 ^ 32

instance (k : Kcp) : Decidable k.ShrinkFits := inferInstanceAs (Decidable (_ → _ → _))

def FlushFits (k : Kcp) : Prop :=
  k.ClockFits ∧ k.CountsFit ∧ k.GrowthFits ∧ k.ShrinkFits

instance (k : Kcp) : Decidable k.FlushFits := inferInstanceAs (Decidable (_ ∧ _))

/-- What the clock functions keep within bounds, whether or not they overflow. -/
structure SteadyClock (rxSrtt rxRttval probeWait rxRto rxMinrto rmtWnd : U32) : Prop where
  rxSrtt : rxSrtt.toNat < 2 ^ 31
  rxRttval : rxRttval.toNat < 2 ^ 31
  probeWait : probeWait.toNat ≤ 120000
  rxRto : rxRto.toNat ≤ 60000
  rxMinrto : 30 ≤ rxMinrto.toNat ∧ rxMinrto.toNat ≤ 60000
  rmtWnd : rmtWnd.toNat < 2 ^ 16

abbrev Steady (k : Kcp) : Prop :=
  SteadyClock k.rxSrtt k.rxRttval k.probeWait k.rxRto k.rxMinrto k.rmtWnd

@[simp]
theorem toNat_umax (x y : U32) : (umax x y).toNat = max x.toNat y.toNat := by
  unfold umax
  split <;> bv_omega

@[simp]
theorem toNat_umin (x y : U32) : (umin x y).toNat = min x.toNat y.toNat := by
  unfold umin
  split <;> bv_omega

section Samples

variable {k : Kcp} {rtt : U32}

theorem toInt_sdiv_of_pos (x : U32) {y : U32} (positive : 0 < y.toInt) :
    (x.sdiv y).toInt = x.toInt.tdiv y.toInt := by
  apply BitVec.toInt_sdiv_of_ne_or_ne
  right
  rintro rfl
  exact absurd positive (by decide)

theorem toNat_of_toInt_nonneg {x : U32} (nonneg : 0 ≤ x.toInt) : (x.toNat : Int) = x.toInt ∧ x.toNat < 2 ^ 31 := by
  have bound := x.isLt
  rw [BitVec.toInt_eq_toNat_cond] at nonneg ⊢
  split at nonneg <;> omega

theorem distance_eq {a b : U32} (ha : a.toNat < 2 ^ 31) (hb : b.toNat < 2 ^ 31) :
    minusSigned b a = some (b - a) ∧
      (if (b - a).toInt < 0 then negateSigned (b - a) else some (b - a)) =
        some (if (b - a).toInt < 0 then -(b - a) else b - a) ∧
      ((if (b - a).toInt < 0 then -(b - a) else b - a).toNat : Int) = |(b.toNat : Int) - a.toNat| := by
  have aInt : a.toInt = a.toNat := BitVec.toInt_eq_toNat_of_lt (by omega)
  have bInt : b.toInt = b.toNat := BitVec.toInt_eq_toNat_of_lt (by omega)
  obtain ⟨isDifference, differenceInt⟩ := @minusSigned_of_range 32 b a (by omega) (by omega)
  refine ⟨isDifference, ?_⟩
  by_cases negative : (b - a).toInt < 0
  · obtain ⟨isNeg, negInt⟩ := @negateSigned_of_ne 32 (b - a) (by omega)
    rw [if_pos negative, if_pos negative]
    refine ⟨isNeg, ?_⟩
    rw [(toNat_of_toInt_nonneg (by omega)).1, abs_of_neg] <;> omega
  · rw [if_neg negative, if_neg negative]
    refine ⟨rfl, ?_⟩
    rw [(toNat_of_toInt_nonneg (by omega)).1, abs_of_nonneg] <;> omega

theorem filter_step {a b y : U32} (ha : a.toNat < 2 ^ 31) (hb : b.toNat < 2 ^ 31) (positive : 0 < y.toInt) :
    minusSigned b a = some (b - a) ∧
      plusSigned a ((b - a).sdiv y) = some (a + (b - a).sdiv y) ∧
      ((a + (b - a).sdiv y).toNat : Int) = a.toNat + ((b.toNat : Int) - a.toNat).tdiv y.toInt ∧
      (a + (b - a).sdiv y).toNat < 2 ^ 31 := by
  have aInt : a.toInt = a.toNat := BitVec.toInt_eq_toNat_of_lt (by omega)
  have bInt : b.toInt = b.toNat := BitVec.toInt_eq_toNat_of_lt (by omega)
  obtain ⟨isDifference, differenceInt⟩ := @minusSigned_of_range 32 b a (by omega) (by omega)
  have stepInt : ((b - a).sdiv y).toInt = ((b.toNat : Int) - a.toNat).tdiv y.toInt := by
    rw [toInt_sdiv_of_pos _ positive, differenceInt, aInt, bInt]
  have between : 0 ≤ (a.toNat : Int) + ((b.toNat : Int) - a.toNat).tdiv y.toInt ∧
      (a.toNat : Int) + ((b.toNat : Int) - a.toNat).tdiv y.toInt < 2 ^ 31 := by
    apply add_tdiv_sub_mem <;> omega
  obtain ⟨isSum, sumInt⟩ := @plusSigned_of_range 32 a ((b - a).sdiv y) (by omega) (by omega)
  rw [stepInt, aInt] at sumInt
  obtain ⟨sumNat, bound⟩ := toNat_of_toInt_nonneg (sumInt ▸ between.1)
  exact ⟨isDifference, isSum, sumNat.trans sumInt, bound⟩

/-- The samples of a session are below half of the range, so no signed step of the filter is out
of range: it computes the exact values. -/
theorem smoothChecked_eq (steady : k.Steady) (recent : rtt.toNat < 2 ^ 31) :
    k.smoothChecked rtt = some ((k.updateRtt rtt).rxSrtt, (k.updateRtt rtt).rxRttval) ∧
      ((k.updateRtt rtt).rxSrtt.toNat : Int) = k.nextSrtt rtt ∧
      ((k.updateRtt rtt).rxRttval.toNat : Int) = k.nextRttval rtt ∧
      (k.updateRtt rtt).rxSrtt.toNat < 2 ^ 31 ∧ (k.updateRtt rtt).rxRttval.toNat < 2 ^ 31 := by
  by_cases fresh : k.rxSrtt = 0
  · simp only [smoothChecked, updateRtt, nextSrtt, nextRttval, if_pos fresh, BitVec.toNat_udiv]
    refine ⟨trivial, trivial, rfl, recent, ?_⟩
    exact (Nat.div_le_self _ _).trans_lt recent
  · obtain ⟨-, isAbs, absNat⟩ := distance_eq steady.rxSrtt recent
    have absBound : (if (rtt - k.rxSrtt).toInt < 0 then -(rtt - k.rxSrtt) else rtt - k.rxSrtt).toNat < 2 ^ 31 := by
      have srtt := steady.rxSrtt
      have far : |(rtt.toNat : Int) - k.rxSrtt.toNat| < 2 ^ 31 := abs_lt.mpr (by omega)
      omega
    obtain ⟨isDelta, isSrtt, srttNat, srttBound⟩ := @filter_step k.rxSrtt rtt 8 steady.rxSrtt recent (by decide)
    obtain ⟨isGap, isRttval, rttvalNat, rttvalBound⟩ := @filter_step k.rxRttval _ 4 steady.rxRttval absBound (by decide)
    simp only [smoothChecked, updateRtt, nextSrtt, nextRttval, if_neg fresh, isDelta, isSrtt, isAbs, isGap, isRttval,
      Option.bind_some, Option.map_some, ← absNat]
    exact ⟨trivial, srttNat, rttvalNat, srttBound, rttvalBound⟩

theorem updateRttChecked_eq_some (steady : k.Steady) (recent : rtt.toNat < 2 ^ 31) {r : Kcp} :
    k.updateRttChecked rtt = some r ↔ k.RttFits rtt ∧ k.updateRtt rtt = r := by
  obtain ⟨isSmooth, srtt, rttval, srttBound, rttvalBound⟩ := smoothChecked_eq steady recent
  have updated : k.updateRtt rtt =
      { k with
        rxSrtt := (k.updateRtt rtt).rxSrtt
        rxRttval := (k.updateRtt rtt).rxRttval
        rxRto := umin (umax ((k.updateRtt rtt).rxSrtt + umax ((k.updateRtt rtt).rxRttval * 4) k.interval) k.rxMinrto)
          ikcpRtoMax } := rfl
  have fits : k.RttFits rtt ↔ (k.updateRtt rtt).rxRttval.toNat * 4 < 2 ^ 32 ∧
      (k.updateRtt rtt).rxSrtt.toNat + (umax ((k.updateRtt rtt).rxRttval * 4) k.interval).toNat < 2 ^ 32 := by
    have four : (4 : U32).toNat = 4 := rfl
    rw [RttFits, ← srtt, ← rttval, toNat_umax, BitVec.toNat_mul, four]
    omega
  rw [fits]
  rw [updateRttChecked, isSmooth, Option.bind_some]
  simp only [Option.bind_eq_some_iff, Option.map_eq_some_iff, times_eq_some, plus_eq_some]
  constructor
  · rintro ⟨_, ⟨product, rfl⟩, _, ⟨sum, rfl⟩, rfl⟩
    exact ⟨⟨product, sum⟩, updated⟩
  · rintro ⟨⟨product, sum⟩, rfl⟩
    exact ⟨_, ⟨product, rfl⟩, _, ⟨sum, rfl⟩, updated.symm⟩

theorem updateRtt_steady (steady : k.Steady) (recent : rtt.toNat < 2 ^ 31) : (k.updateRtt rtt).Steady := by
  obtain ⟨-, -, -, srttBound, rttvalBound⟩ := smoothChecked_eq steady recent
  refine ⟨srttBound, rttvalBound, steady.probeWait, ?_, steady.rxMinrto, steady.rmtWnd⟩
  simp only [updateRtt, toNat_umin]
  exact Nat.min_le_right _ _

theorem updateRtt_rxRto (steady : k.Steady) (rtt : U32) : k.rxMinrto ≤ (k.updateRtt rtt).rxRto := by
  have bound := steady.rxMinrto.2
  rw [BitVec.le_def]
  simp only [updateRtt, toNat_umin, toNat_umax]
  exact le_min (Nat.le_max_right _ _) bound

end Samples

/-- The sample of an acknowledgement, if it is one and the clock is not before it, fits. -/
def SampleFits (k : Kcp) (seg : Seg) : Prop :=
  seg.cmd = ikcpCmdAck → (k.current - seg.ts).toNat < 2 ^ 31 → k.RttFits (k.current - seg.ts)

instance (k : Kcp) (seg : Seg) : Decidable (k.SampleFits seg) := inferInstanceAs (Decidable (_ → _ → _))

section Segments

variable {k r : Kcp}

theorem handleAckChecked_eq_some (steady : k.Steady) {sn ts : U32} :
    k.handleAckChecked sn ts = some r ↔
      ((k.current - ts).toNat < 2 ^ 31 → k.RttFits (k.current - ts)) ∧ k.handleAck sn ts = r := by
  have recent : k.current - ts < 0x80000000 ↔ (k.current - ts).toNat < 2 ^ 31 := BitVec.lt_def
  unfold handleAckChecked handleAck
  by_cases sample : k.current - ts < 0x80000000
  · simp only [if_pos sample, Option.map_eq_some_iff, updateRttChecked_eq_some steady (recent.mp sample)]
    constructor
    · rintro ⟨_, ⟨fits, rfl⟩, rfl⟩
      exact ⟨fun _ => fits, rfl⟩
    · rintro ⟨fits, rfl⟩
      exact ⟨_, ⟨fits (recent.mp sample), rfl⟩, rfl⟩
  · simp only [if_neg sample, Option.map_some, Option.some.injEq]
    exact (and_iff_right fun small => absurd (recent.mpr small) sample).symm

theorem hear_steady (steady : k.Steady) (seg : Seg) : (k.hear seg).Steady := by
  refine ⟨steady.rxSrtt, steady.rxRttval, steady.probeWait, steady.rxRto, steady.rxMinrto, ?_⟩
  have small := seg.wnd.isLt
  rw [hear, handleUna, BitVec.toNat_setWidth]
  exact (Nat.mod_le _ _).trans_lt small

theorem handleSegChecked_eq_some (steady : k.Steady) {seg : Seg} :
    k.handleSegChecked seg = some r ↔ k.SampleFits seg ∧ k.handleSeg seg = r := by
  unfold handleSegChecked
  by_cases isAck : seg.cmd = ikcpCmdAck
  · have handled : k.handleSeg seg = (k.hear seg).handleAck seg.sn seg.ts := if_pos isAck
    rw [if_pos isAck, handleAckChecked_eq_some (hear_steady steady seg), handled]
    exact and_congr_left fun _ => ⟨fun fits _ => fits, fun fits => fits isAck⟩
  · rw [if_neg isAck, Option.some.injEq]
    exact (and_iff_right fun ack => absurd ack isAck).symm

theorem handleAck_steady (steady : k.Steady) (sn ts : U32) : (k.handleAck sn ts).Steady := by
  unfold handleAck
  by_cases sample : k.current - ts < 0x80000000
  · have updated := updateRtt_steady steady (BitVec.lt_def.mp sample)
    simp only [if_pos sample]
    exact updated
  · simp only [if_neg sample]
    exact steady

theorem handleSeg_steady (steady : k.Steady) (seg : Seg) : (k.handleSeg seg).Steady := by
  have heard := hear_steady steady seg
  rcases handleSeg_cases k seg with ⟨_, handled⟩ | ⟨_, handled⟩ | ⟨_, _, probe, handled⟩
  · rw [handled]
    exact handleAck_steady heard _ _
  · obtain ⟨_, _, _, _, pushed⟩ := handlePush_eq (k.hear seg) seg
    rw [handled, pushed]
    exact heard
  · rw [handled]
    exact heard

theorem inputSegsChecked_eq_some (steady : k.Steady) {segs : List Seg} {outcome : Kcp × Except KcpError Unit} :
    k.inputSegsChecked segs = some outcome ↔
      RunMeets handleSeg SampleFits k (segs.takeWhile fun seg => seg.conv = k.conv) ∧ k.inputSegs segs = outcome := by
  induction segs generalizing k with
  | nil => simp [inputSegsChecked, inputSegs, RunMeets]
  | cons seg segs ih =>
    by_cases own : seg.conv = k.conv
    · have later := ih (handleSeg_steady steady seg)
      rw [handleSeg_conv] at later
      have inside : (seg :: segs).takeWhile (fun seg => seg.conv = k.conv) =
          seg :: segs.takeWhile fun seg => seg.conv = k.conv := by simp [own]
      rw [inputSegsChecked, if_neg (not_not.mpr own), inputSegs, if_neg (not_not.mpr own), inside, RunMeets, and_assoc,
        ← later, Option.bind_eq_some_iff]
      simp only [handleSegChecked_eq_some steady]
      constructor
      · rintro ⟨_, ⟨fits, rfl⟩, rest⟩
        exact ⟨fits, rest⟩
      · rintro ⟨fits, rest⟩
        exact ⟨_, ⟨fits, rfl⟩, rest⟩
    · simp [inputSegsChecked, inputSegs, own, RunMeets]

theorem inputChecked_eq_some (steady : k.Steady) {pkt : Datagram} {outcome : Kcp × Except KcpError Unit} :
    k.inputChecked pkt = some outcome ↔
      RunMeets handleSeg SampleFits k (k.handled pkt) ∧ k.input pkt = outcome := by
  obtain ⟨decoded, isDecoded⟩ := Option.isSome_iff_exists.mp (decodeSegs_isSome pkt)
  cases decoded with
  | error e => simp [inputChecked, input, handled, isDecoded, RunMeets]
  | ok segs =>
    simp only [inputChecked, input, handled, isDecoded, Option.get_some]
    exact inputSegsChecked_eq_some steady

end Segments

section Flush

variable {k r : Kcp}

theorem scheduleProbeChecked_eq_some (small : k.probeWait.toNat ≤ 120000) :
    k.scheduleProbeChecked = some r ↔
      (∀ wait ∈ k.probeDelay, k.current.toNat + wait < 2 ^ 32) ∧ k.scheduleProbe = r := by
  have two : (2 : U32).toNat = 2 := rfl
  have limit : ikcpProbeLimit.toNat = 120000 := rfl
  unfold scheduleProbeChecked scheduleProbe probeDelay
  by_cases closed : k.rmtWnd = 0
  · rw [if_pos closed, if_pos closed, if_neg (not_not.mpr closed)]
    by_cases unscheduled : k.probeWait = 0
    · rw [if_pos unscheduled, if_pos unscheduled, if_pos unscheduled]
      simp only [Option.map_eq_some_iff, plus_eq_some, Option.mem_def, Option.some.injEq, forall_eq']
      constructor
      · rintro ⟨_, ⟨fits, rfl⟩, rfl⟩
        exact ⟨fits, rfl⟩
      · rintro ⟨fits, rfl⟩
        exact ⟨_, ⟨fits, rfl⟩, rfl⟩
    · rw [if_neg unscheduled, if_neg unscheduled, if_neg unscheduled]
      by_cases due : 0 ≤ i32From (k.current - k.tsProbe)
      · have grown : (k.probeWait + k.probeWait / 2).toNat = k.probeWait.toNat + k.probeWait.toNat / 2 := by
          rw [BitVec.toNat_add_of_lt] <;> rw [BitVec.toNat_udiv, two]
          omega
        have clamped : (umin (k.probeWait + k.probeWait / 2) ikcpProbeLimit).toNat =
            min (k.probeWait.toNat + k.probeWait.toNat / 2) 120000 := by
          rw [toNat_umin, grown, limit]
        rw [if_pos due, if_pos due, if_pos due, ← clamped]
        simp only [Option.bind_eq_some_iff, Option.map_eq_some_iff, plus_eq_some, Option.mem_def, Option.some.injEq,
          forall_eq']
        constructor
        · rintro ⟨_, ⟨-, rfl⟩, _, ⟨fits, rfl⟩, rfl⟩
          exact ⟨fits, rfl⟩
        · rintro ⟨fits, rfl⟩
          refine ⟨_, ⟨?_, rfl⟩, _, ⟨fits, rfl⟩, rfl⟩
          rw [BitVec.toNat_udiv, two]
          omega
      · rw [if_neg due, if_neg due, if_neg due]
        simp
  · rw [if_neg closed, if_neg closed, if_pos closed]
    simp

theorem toNat_growth (fits : k.growth < 2 ^ 32) :
    (BitVec.ofNat 32 (k.mss * k.mss) / umax k.incr 1 + BitVec.ofNat 32 k.mss / 16).toNat = k.growth := by
  rw [BitVec.toNat_add_of_lt] <;> rw [BitVec.toNat_udiv, BitVec.toNat_udiv, BitVec.toNat_ofNat, toNat_umax,
    BitVec.toNat_ofNat]
  · rfl
  · exact fits

theorem growCwndChecked_eq_some (small : k.rmtWnd.toNat < 2 ^ 16) :
    k.growCwndChecked = some r ↔ k.GrowthFits ∧ k.growCwnd = r := by
  unfold growCwndChecked growCwnd GrowthFits
  by_cases fast : k.nodelay
  · simp [fast]
  rw [if_neg fast, if_neg fast, forall_prop_of_true (Bool.not_eq_true _ ▸ fast)]
  have mssNat : (BitVec.ofNat 32 k.mss).toNat = k.mssWord := BitVec.toNat_ofNat ..
  by_cases slow : k.cwnd < k.ssthresh
  · have room : k.cwnd.toNat + (1 : U32).toNat < 2 ^ 32 := by
      have below := BitVec.lt_def.mp slow
      have bound := k.ssthresh.isLt
      exact (Nat.succ_le_of_lt below).trans_lt bound
    rw [if_pos slow, if_pos slow, if_pos slow]
    simp only [Option.bind_eq_some_iff, Option.map_eq_some_iff, plus_eq_some, mssNat]
    constructor
    · rintro ⟨_, ⟨-, rfl⟩, _, ⟨fits, rfl⟩, rfl⟩
      exact ⟨fits, rfl⟩
    · rintro ⟨fits, rfl⟩
      exact ⟨_, ⟨room, rfl⟩, _, ⟨fits, rfl⟩, rfl⟩
  · have doubled : (umax k.rmtWnd 1).toNat * (2 : U32).toNat < 2 ^ 32 := by
      have isOne : (1 : U32).toNat = 1 := rfl
      have isTwo : (2 : U32).toNat = 2 := rfl
      rw [toNat_umax, isOne, isTwo]
      omega
    have sum : (BitVec.ofNat 32 (k.mss * k.mss) / umax k.incr 1).toNat + (BitVec.ofNat 32 k.mss / 16).toNat =
        k.growth := by
      rw [BitVec.toNat_udiv, BitVec.toNat_udiv, BitVec.toNat_ofNat, toNat_umax, mssNat]
      rfl
    rw [if_neg slow, if_neg slow, if_neg slow]
    simp only [Option.bind_eq_some_iff, Option.map_eq_some_iff, Option.ite_none_right_eq_some, Option.some.injEq,
      plus_eq_some, times_eq_some, toNat_umax]
    constructor
    · rintro ⟨_, ⟨square, rfl⟩, _, ⟨fits, rfl⟩, _, ⟨grown, rfl⟩, _, ⟨-, rfl⟩, rfl⟩
      rw [sum] at fits
      rw [toNat_growth fits] at grown
      exact ⟨⟨square, fits, grown⟩, rfl⟩
    · rintro ⟨⟨square, fits, grown⟩, rfl⟩
      have increased : k.cwnd.toNat + max (BitVec.ofNat 32 (k.mss * k.mss) / umax k.incr 1 +
          BitVec.ofNat 32 k.mss / 16).toNat (1 : U32).toNat < 2 ^ 32 := by
        rw [toNat_growth fits]
        exact grown
      rw [toNat_umax] at doubled
      exact ⟨_, ⟨square, rfl⟩, _, ⟨sum.trans_lt fits, rfl⟩, _, ⟨increased, rfl⟩, _, ⟨doubled, rfl⟩, rfl⟩

theorem toNat_minimum (k : Kcp) :
    (if k.nodelay then 0 else k.rxRto >>> 3 : U32).toNat = if k.nodelay then 0 else k.rxRto.toNat / 8 := by
  split
  · rfl
  · rw [BitVec.toNat_ushiftRight, Nat.shiftRight_eq_div_pow]

theorem toNat_backoff (k : Kcp) (seg : Seg) :
    (if k.nodelay then seg.rto / 2 else umax seg.rto k.rxRto).toNat =
      if k.nodelay then seg.rto.toNat / 2 else max seg.rto.toNat k.rxRto.toNat := by
  split
  · rw [BitVec.toNat_udiv]
    rfl
  · exact toNat_umax ..

/-- Step 5 on a segment: the deadline and the counter are what can overflow. -/
theorem resendSegChecked_eq_some {seg s : Seg} :
    k.resendSegChecked seg = some s ↔
      ((∀ wait ∈ k.resendDelay seg, k.current.toNat + wait < 2 ^ 32) ∧
        (k.resendRule seg ≠ .none → seg.xmit.toNat + 1 < 2 ^ 32)) ∧ k.resendSeg seg = s := by
  have isOne : (1 : U32).toNat = 1 := rfl
  unfold resendSegChecked resendDelay resendSeg
  cases rule : k.resendRule seg with
  | first =>
    simp only [Option.bind_eq_some_iff, Option.map_eq_some_iff, plus_eq_some, Option.mem_def, Option.some.injEq,
      forall_eq', isOne, toNat_minimum, ne_eq, reduceCtorEq, not_false_eq_true, forall_const]
    constructor
    · rintro ⟨_, ⟨counted, rfl⟩, _, ⟨started, rfl⟩, _, ⟨fits, rfl⟩, rfl⟩
      rw [BitVec.toNat_add_of_lt started] at fits
      exact ⟨⟨by omega, counted⟩, rfl⟩
    · rintro ⟨⟨fits, counted⟩, rfl⟩
      have started : k.current.toNat + k.rxRto.toNat < 2 ^ 32 := by omega
      refine ⟨_, ⟨counted, rfl⟩, _, ⟨started, rfl⟩, _, ⟨?_, rfl⟩, rfl⟩
      rw [BitVec.toNat_add_of_lt started]
      omega
  | timeout =>
    simp only [Option.bind_eq_some_iff, Option.map_eq_some_iff, plus_eq_some, Option.mem_def, Option.some.injEq,
      forall_eq', isOne, ne_eq, reduceCtorEq, not_false_eq_true, forall_const]
    constructor
    · rintro ⟨_, ⟨longer, rfl⟩, _, ⟨counted, rfl⟩, _, ⟨fits, rfl⟩, rfl⟩
      rw [BitVec.toNat_add_of_lt longer, toNat_backoff] at fits
      exact ⟨⟨fits, counted⟩, rfl⟩
    · rintro ⟨⟨fits, counted⟩, rfl⟩
      have longer : seg.rto.toNat + (if k.nodelay then seg.rto / 2 else umax seg.rto k.rxRto).toNat < 2 ^ 32 := by
        rw [toNat_backoff]
        omega
      refine ⟨_, ⟨longer, rfl⟩, _, ⟨counted, rfl⟩, _, ⟨?_, rfl⟩, rfl⟩
      rw [BitVec.toNat_add_of_lt longer, toNat_backoff]
      exact fits
  | fast =>
    simp only [Option.bind_eq_some_iff, Option.map_eq_some_iff, plus_eq_some, Option.mem_def, Option.some.injEq,
      forall_eq', isOne, ne_eq, reduceCtorEq, not_false_eq_true, forall_const]
    constructor
    · rintro ⟨_, ⟨fits, rfl⟩, _, ⟨counted, rfl⟩, rfl⟩
      exact ⟨⟨fits, counted⟩, rfl⟩
    · rintro ⟨⟨fits, counted⟩, rfl⟩
      exact ⟨_, ⟨fits, rfl⟩, _, ⟨counted, rfl⟩, rfl⟩
  | none => simp

theorem resendAllChecked_eq_some {segs sent : List Seg} :
    k.resendAllChecked segs = some sent ↔
      ((∀ wait ∈ segs.filterMap k.resendDelay, k.current.toNat + wait < 2 ^ 32) ∧
        ∀ seg ∈ segs, k.resendRule seg ≠ .none → seg.xmit.toNat + 1 < 2 ^ 32) ∧ segs.map k.resendSeg = sent := by
  induction segs generalizing sent with
  | nil => simp [resendAllChecked]
  | cons seg segs ih =>
    have waits : (∀ wait ∈ (seg :: segs).filterMap k.resendDelay, k.current.toNat + wait < 2 ^ 32) ↔
        (∀ wait ∈ k.resendDelay seg, k.current.toNat + wait < 2 ^ 32) ∧
          ∀ wait ∈ segs.filterMap k.resendDelay, k.current.toNat + wait < 2 ^ 32 := by
      cases delay : k.resendDelay seg with
      | none => simp [delay]
      | some wait => simp [delay]
    rw [resendAllChecked, Option.bind_eq_some_iff, waits, List.forall_mem_cons, List.map_cons]
    simp only [Option.map_eq_some_iff, resendSegChecked_eq_some, ih]
    constructor
    · rintro ⟨_, ⟨⟨first, counted⟩, rfl⟩, _, ⟨⟨rest, restCounted⟩, rfl⟩, rfl⟩
      exact ⟨⟨⟨first, rest⟩, counted, restCounted⟩, rfl⟩
    · rintro ⟨⟨⟨first, rest⟩, counted, restCounted⟩, rfl⟩
      exact ⟨_, ⟨⟨first, counted⟩, rfl⟩, _, ⟨⟨rest, restCounted⟩, rfl⟩, rfl⟩

/-- Step 6: the window is computed anew if something was sent again. -/
theorem settleChecked_eq_some {change : U32} {lost : Bool} :
    k.settleChecked change lost = some r ↔
      (k.nodelay = false → 0 < change →
        max ((k.sndNxt - k.sndUna).toNat / 2) 2 + max k.fastresend.toNat 1 < 2 ^ 32 ∧
          (max ((k.sndNxt - k.sndUna).toNat / 2) 2 + max k.fastresend.toNat 1) * k.mssWord < 2 ^ 32) ∧
      k.settle change lost = r := by
  have mssNat : (BitVec.ofNat 32 k.mss).toNat = k.mssWord := BitVec.toNat_ofNat ..
  have thresh : (umax ((k.sndNxt - k.sndUna) / 2) ikcpThreshMin).toNat = max ((k.sndNxt - k.sndUna).toNat / 2) 2 := by
    rw [toNat_umax, BitVec.toNat_udiv]
    rfl
  have fast : (umax k.fastresend 1).toNat = max k.fastresend.toNat 1 := toNat_umax ..
  unfold settleChecked settle
  by_cases changed : 0 < change ∧ k.nodelay = false
  · rw [forall_prop_of_true changed.2, forall_prop_of_true changed.1]
    simp only [if_pos changed, Option.map_eq_some_iff, Option.bind_eq_some_iff, plus_eq_some, times_eq_some, mssNat]
    rw [← thresh, ← fast]
    constructor
    · rintro ⟨_, ⟨_, ⟨sum, rfl⟩, _, ⟨product, rfl⟩, rfl⟩, rfl⟩
      rw [BitVec.toNat_add_of_lt sum] at product
      exact ⟨⟨sum, product⟩, rfl⟩
    · rintro ⟨⟨sum, product⟩, rfl⟩
      rw [← BitVec.toNat_add_of_lt sum] at product
      exact ⟨_, ⟨_, ⟨sum, rfl⟩, _, ⟨product, rfl⟩, rfl⟩, rfl⟩
  · simp only [if_neg changed, Option.map_some, Option.some.injEq]
    exact (and_iff_right fun slow again => absurd ⟨again, slow⟩ changed).symm

theorem changeCount_pos_iff (few : (k.sndBuf.filter fun seg => k.resendRule seg = .timeout ∨
      k.resendRule seg = .fast).length < 2 ^ 32) :
    0 < k.changeCount ↔ ∃ seg ∈ k.sndBuf, k.resendRule seg = .timeout ∨ k.resendRule seg = .fast := by
  rw [BitVec.lt_def, changeCount, BitVec.toNat_ofNat, Nat.mod_eq_of_lt few]
  simp [List.length_pos_iff_exists_mem]

theorem retransmitChecked_eq_some :
    k.retransmitChecked = some r ↔
      ((∀ wait ∈ k.sndBuf.filterMap k.resendDelay, k.current.toNat + wait < 2 ^ 32) ∧
        (∀ seg ∈ k.sndBuf, k.resendRule seg ≠ .none → seg.xmit.toNat + 1 < 2 ^ 32) ∧
        (k.sndBuf.filter fun seg => k.resendRule seg = .timeout ∨ k.resendRule seg = .fast).length < 2 ^ 32 ∧
        (k.nodelay = false → (∃ seg ∈ k.sndBuf, k.resendRule seg = .timeout ∨ k.resendRule seg = .fast) →
          max ((k.sndNxt - k.sndUna).toNat / 2) 2 + max k.fastresend.toNat 1 < 2 ^ 32 ∧
            (max ((k.sndNxt - k.sndUna).toNat / 2) 2 + max k.fastresend.toNat 1) * k.mssWord < 2 ^ 32)) ∧
      k.retransmit = r := by
  unfold retransmitChecked changeCountChecked
  simp only [Option.bind_eq_some_iff, resendAllChecked_eq_some, Option.ite_none_right_eq_some, Option.some.injEq,
    settleChecked_eq_some]
  constructor
  · rintro ⟨_, ⟨⟨waits, counted⟩, rfl⟩, _, ⟨few, rfl⟩, shrunk, rfl⟩
    rw [foldl_emit] at shrunk
    exact ⟨⟨waits, counted, few, fun slow again => shrunk slow ((changeCount_pos_iff few).mpr again)⟩, rfl⟩
  · rintro ⟨⟨waits, counted, few, shrunk⟩, rfl⟩
    refine ⟨_, ⟨⟨waits, counted⟩, rfl⟩, _, ⟨few, rfl⟩, ?_, rfl⟩
    rw [foldl_emit]
    exact fun slow again => shrunk slow ((changeCount_pos_iff few).mp again)

theorem fillSndBuf_congr {other : Kcp} (stamps : ∀ sn seg, other.stamp sn seg = k.stamp sn seg) (maxSn : U32)
    (sndQueue sndBuf : List Seg) (sndNxt : U32) :
    other.fillSndBuf maxSn sndQueue sndBuf sndNxt =
      { other with
        sndQueue := (k.fillSndBuf maxSn sndQueue sndBuf sndNxt).sndQueue
        sndBuf := (k.fillSndBuf maxSn sndQueue sndBuf sndNxt).sndBuf
        sndNxt := (k.fillSndBuf maxSn sndQueue sndBuf sndNxt).sndNxt } := by
  induction sndQueue generalizing sndBuf sndNxt with
  | nil => rfl
  | cons seg sndQueue ih =>
    rw [fillSndBuf, fillSndBuf]
    split
    · rw [stamps]
      exact ih _ _
    · rfl

/-- The session as step 5 finds it, told from the one before the flush. -/
theorem beforeRetransmit_eq (k : Kcp) :
    ∃ tsProbe probeWait cwnd incr, k.beforeRetransmit =
      { k with
        acklist := []
        probe := 0
        out := k.out ++ k.acks.map Seg.encode ++ k.flushAcks.scheduleProbe.probes.map Seg.encode
        sndQueue := k.promoteQueued.sndQueue
        sndBuf := k.promoteQueued.sndBuf
        sndNxt := k.promoteQueued.sndNxt
        tsProbe, probeWait, cwnd, incr } := by
  obtain ⟨tsProbe, probeWait, cwnd, incr, before⟩ := beforePromote_eq k
  refine ⟨tsProbe, probeWait, cwnd, incr, ?_⟩
  rw [beforeRetransmit, before]
  refine @fillSndBuf_congr k _ ?_ _ _ _ _
  exact fun _ _ => rfl

/-- A flush with overflow checks comes to its end exactly if everything it adds up fits, and
does then what the wrapping one does. -/
theorem flushChecked_eq_some (steady : k.Steady) : k.flushChecked = some r ↔ k.FlushFits ∧ k.flush = r := by
  have acksWait : k.flushAcks.probeWait.toNat ≤ 120000 := by
    rw [flushAcks_eq]
    exact steady.probeWait
  have probedWnd : k.flushAcks.scheduleProbe.flushProbes.rmtWnd.toNat < 2 ^ 16 := by
    obtain ⟨_, _, _, scheduled⟩ := scheduleProbe_eq k.flushAcks
    rw [flushProbes_eq, scheduled, flushAcks_eq]
    exact steady.rmtWnd
  have probeFits : (∀ wait ∈ k.flushAcks.probeDelay, k.flushAcks.current.toNat + wait < 2 ^ 32) ↔
      ∀ wait ∈ k.probeDelay, k.current.toNat + wait < 2 ^ 32 := by
    rw [flushAcks_eq]
    rfl
  have growthFits : k.flushAcks.scheduleProbe.flushProbes.GrowthFits ↔ k.GrowthFits := by
    obtain ⟨_, _, _, scheduled⟩ := scheduleProbe_eq k.flushAcks
    rw [flushProbes_eq, scheduled, flushAcks_eq]
    rfl
  have clockFits : k.ClockFits ↔ (∀ wait ∈ k.probeDelay, k.current.toNat + wait < 2 ^ 32) ∧
      ∀ wait ∈ k.promoteQueued.sndBuf.filterMap k.resendDelay, k.current.toNat + wait < 2 ^ 32 := by
    simp only [ClockFits, delays, List.forall_mem_append, Option.mem_toList]
    rfl
  have split : k.flushChecked = some r ↔
      k.flushAcks.scheduleProbe.flushProbes.GrowthFits ∧
        (∀ wait ∈ k.flushAcks.probeDelay, k.flushAcks.current.toNat + wait < 2 ^ 32) ∧
          k.beforeRetransmit.retransmitChecked = some r := by
    rw [flushChecked, Option.bind_eq_some_iff]
    simp only [scheduleProbeChecked_eq_some acksWait, Option.bind_eq_some_iff]
    constructor
    · rintro ⟨_, ⟨probed, rfl⟩, _, grown, sent⟩
      obtain ⟨grows, rfl⟩ := (growCwndChecked_eq_some probedWnd).mp grown
      exact ⟨grows, probed, sent⟩
    · rintro ⟨grows, probed, sent⟩
      exact ⟨_, ⟨probed, rfl⟩, _, (growCwndChecked_eq_some probedWnd).mpr ⟨grows, rfl⟩, sent⟩
  obtain ⟨_, _, _, _, ready⟩ := beforeRetransmit_eq k
  rw [split, probeFits, growthFits, retransmitChecked_eq_some, flush_eq, FlushFits, clockFits, ready]
  constructor
  · rintro ⟨grows, probed, ⟨waits, counted, few, shrunk⟩, flushed⟩
    exact ⟨⟨⟨probed, waits⟩, ⟨counted, few⟩, grows, shrunk⟩, flushed⟩
  · rintro ⟨⟨⟨probed, waits⟩, ⟨counted, few⟩, grows, shrunk⟩, flushed⟩
    exact ⟨grows, probed, ⟨waits, counted, few, shrunk⟩, flushed⟩

theorem scheduleProbe_probeWait (small : k.probeWait.toNat ≤ 120000) : k.scheduleProbe.probeWait.toNat ≤ 120000 := by
  unfold scheduleProbe
  by_cases closed : k.rmtWnd = 0
  · rw [if_pos closed]
    by_cases unscheduled : k.probeWait = 0
    · rw [if_pos unscheduled]
      exact show ikcpProbeInit.toNat ≤ 120000 by decide
    · rw [if_neg unscheduled]
      by_cases due : 0 ≤ i32From (k.current - k.tsProbe)
      · rw [if_pos due]
        exact (toNat_umin ..).trans_le (Nat.min_le_right _ _)
      · rw [if_neg due]
        exact small
  · rw [if_neg closed]
    exact Nat.zero_le _

theorem promoteQueued_probeWait (k : Kcp) : k.promoteQueued.probeWait = k.probeWait := by
  obtain ⟨_, _, -, -, promoted⟩ :=
    fillSndBuf_spec k (k.sndUna + umin k.sndWnd k.rmtWnd) k.sndQueue k.sndBuf k.sndNxt
  rw [promoteQueued, promoted]

theorem flush_steady (steady : k.Steady) : k.flush.Steady := by
  obtain ⟨_, _, _, _, _, _, _, _, -, -, flushed⟩ := flush_spec k
  have isWait : k.flush.probeWait = k.flushAcks.scheduleProbe.probeWait := by
    obtain ⟨_, _, _, _, resent⟩ := retransmit_eq k.beforeRetransmit
    obtain ⟨_, _, grown⟩ := growCwnd_eq k.flushAcks.scheduleProbe.flushProbes
    rw [flush_eq, resent, beforeRetransmit, promoteQueued_probeWait, grown, flushProbes_eq]
  have wait : k.flush.probeWait.toNat ≤ 120000 := by
    rw [isWait]
    apply scheduleProbe_probeWait
    rw [flushAcks_eq]
    exact steady.probeWait
  rw [flushed] at wait ⊢
  exact ⟨steady.rxSrtt, steady.rxRttval, wait, steady.rxRto, steady.rxMinrto, steady.rmtWnd⟩

end Flush

def ArithmeticFits (k : Kcp) : Op → Prop
  | .update current =>
    k.FlushDue current → FlushFits { k with current := current, updated := true, tsFlush := current }
  | .flushNow current => FlushFits { k with current := current }
  | .input pkt => RunMeets handleSeg SampleFits k (k.handled pkt)
  | .send _ | .recv | .setNodelay _ _ _ | .pump => True

instance (k : Kcp) : (op : Op) → Decidable (k.ArithmeticFits op)
  | .update current => inferInstanceAs (Decidable (k.FlushDue current → _))
  | .flushNow current => inferInstanceAs (Decidable (FlushFits { k with current := current }))
  | .input pkt => inferInstanceAs (Decidable (RunMeets handleSeg SampleFits k (k.handled pkt)))
  | .send _ | .recv | .setNodelay _ _ _ | .pump => .isTrue trivial

/-- The longer minimum of the timeout does not come into force above the timeout. -/
def MinimumKept (k : Kcp) : Op → Prop
  | .setNodelay nodelay _ _ => nodelay = false → ikcpRtoMin ≤ k.rxRto
  | _ => True

instance (k : Kcp) : (op : Op) → Decidable (k.MinimumKept op)
  | .setNodelay nodelay _ _ => inferInstanceAs (Decidable (nodelay = false → ikcpRtoMin ≤ k.rxRto))
  | .send _ | .update _ | .flushNow _ | .input _ | .recv | .pump => .isTrue trivial

section Runs

variable {k r : Kcp}

theorem applyChecked_eq_some (steady : k.Steady) (op : Op) :
    k.applyChecked op = some r ↔ k.ArithmeticFits op ∧ k.apply op = r := by
  cases op with
  | update current =>
    have next : Steady { k with current := current, updated := true, tsFlush := current } := steady
    unfold applyChecked updateChecked apply update ArithmeticFits
    by_cases due : k.FlushDue current
    · simp only [if_pos due, flushChecked_eq_some next, forall_prop_of_true due]
    · simp only [if_neg due, Option.some.injEq]
      exact (and_iff_right fun isDue => absurd isDue due).symm
  | flushNow current =>
    have next : Steady { k with current := current } := steady
    exact flushChecked_eq_some next
  | input pkt =>
    simp only [applyChecked, apply, ArithmeticFits, Option.map_eq_some_iff, inputChecked_eq_some steady]
    constructor
    · rintro ⟨_, ⟨fits, rfl⟩, rfl⟩
      exact ⟨fits, rfl⟩
    · rintro ⟨fits, rfl⟩
      exact ⟨_, ⟨fits, rfl⟩, rfl⟩
  | send buf => simp [applyChecked, ArithmeticFits]
  | recv => simp [applyChecked, ArithmeticFits]
  | setNodelay nodelay interval fastresend => simp [applyChecked, ArithmeticFits]
  | pump => simp [applyChecked, ArithmeticFits]

theorem apply_steady (steady : k.Steady) (op : Op) : (k.apply op).Steady := by
  rcases apply_cases k op with ⟨_, _, _, _, _, _, _, kept⟩ | ⟨-, _, _, _, flushed⟩ | ⟨pkt, -, handled⟩ | ⟨nodelay, _, _, rfl⟩
  · rw [kept]
    exact steady
  · rw [flushed]
    apply flush_steady
    exact steady
  · rw [handled]
    exact @run_invariant _ _ handleSeg Steady (fun _ seg steady => handleSeg_steady steady seg) _ steady _
  · refine ⟨steady.rxSrtt, steady.rxRttval, steady.probeWait, steady.rxRto, ?_, steady.rmtWnd⟩
    cases nodelay with
    | false => exact show 30 ≤ ikcpRtoMin.toNat ∧ ikcpRtoMin.toNat ≤ 60000 by decide
    | true => exact show 30 ≤ ikcpRtoNdl.toNat ∧ ikcpRtoNdl.toNat ≤ 60000 by decide

theorem handleSeg_timeout (steady : k.Steady) (above : k.rxMinrto ≤ k.rxRto) (seg : Seg) :
    (k.handleSeg seg).rxMinrto ≤ (k.handleSeg seg).rxRto := by
  rcases handleSeg_cases k seg with ⟨_, handled⟩ | ⟨_, handled⟩ | ⟨_, _, probe, handled⟩
  · rw [handled, handleAck]
    by_cases sample : (k.hear seg).current - seg.ts < 0x80000000
    · simp only [if_pos sample]
      exact updateRtt_rxRto (hear_steady steady seg) _
    · simp only [if_neg sample]
      exact above
  · obtain ⟨_, _, _, _, pushed⟩ := handlePush_eq (k.hear seg) seg
    rw [handled, pushed]
    exact above
  · rw [handled]
    exact above

/-- The timeout is not below its minimum, except where the minimum is raised above it. -/
theorem apply_timeout_iff (steady : k.Steady) (above : k.rxMinrto ≤ k.rxRto) (op : Op) :
    (k.apply op).rxMinrto ≤ (k.apply op).rxRto ↔ k.MinimumKept op := by
  by_cases setting : ∃ nodelay interval fastresend, op = .setNodelay nodelay interval fastresend
  · obtain ⟨nodelay, _, _, rfl⟩ := setting
    cases nodelay with
    | false => exact ⟨fun bounded _ => bounded, fun kept => kept rfl⟩
    | true =>
      have low : ikcpRtoNdl ≤ k.rxRto := by
        rw [BitVec.le_def]
        exact steady.rxMinrto.1.trans (BitVec.le_def.mp above)
      exact iff_of_true low fun slow => absurd slow (by decide)
  have minimumKept : k.MinimumKept op := by
    cases op with
    | setNodelay => exact absurd ⟨_, _, _, rfl⟩ setting
    | _ => exact trivial
  refine iff_of_true ?_ minimumKept
  rcases apply_cases k op with
    ⟨_, _, _, _, _, _, _, kept⟩ | ⟨-, current, updated, tsFlush, flushed⟩ | ⟨pkt, -, handled⟩ | isSetting
  · rw [kept]
    exact above
  · obtain ⟨_, _, _, _, _, _, _, _, -, -, isFlush⟩ := flush_spec { k with current, updated, tsFlush }
    rw [flushed, isFlush]
    exact above
  · rw [handled]
    have kept := @run_invariant _ _ handleSeg (fun k => k.Steady ∧ k.rxMinrto ≤ k.rxRto)
      (fun _ seg kept => ⟨handleSeg_steady kept.1 seg, handleSeg_timeout kept.1 kept.2 seg⟩) _ ⟨steady, above⟩
      (k.handled pkt)
    exact kept.2
  · exact absurd isSetting setting

def TimeoutBounded (k : Kcp) : Prop := k.rxMinrto ≤ k.rxRto ∧ k.rxRto ≤ ikcpRtoMax

theorem throughout_timeoutBounded_iff (steady : k.Steady) (above : k.rxMinrto ≤ k.rxRto) (ops : List Op) :
    Throughout apply TimeoutBounded k ops ↔ RunMeets apply MinimumKept k ops := by
  apply @throughout_iff_runMeets _ _ apply (fun _ _ => True) MinimumKept (fun k => k.Steady ∧ k.rxMinrto ≤ k.rxRto)
  · exact fun _ op _ kept inv => ⟨apply_steady inv.1 op, (apply_timeout_iff inv.1 inv.2 op).mpr kept⟩
  · exact fun _ inv => ⟨inv.2, BitVec.le_def.mpr inv.1.rxRto⟩
  · exact fun _ op _ inv raised bounded => raised ((apply_timeout_iff inv.1 inv.2 op).mp bounded.1)
  · exact ⟨steady, above⟩
  · exact runMeets_of_forall (fun _ _ => trivial) _ _

theorem runChecked_eq_some (steady : k.Steady) (ops : List Op) :
    k.runChecked ops = some r ↔ RunMeets apply ArithmeticFits k ops ∧ run apply k ops = r := by
  induction ops generalizing k with
  | nil => simp [runChecked, RunMeets, run]
  | cons op ops ih =>
    rw [runChecked, Option.bind_eq_some_iff]
    simp only [applyChecked_eq_some steady]
    constructor
    · rintro ⟨_, ⟨fits, rfl⟩, later⟩
      obtain ⟨rest, isLast⟩ := (ih (apply_steady steady op)).mp later
      exact ⟨⟨fits, rest⟩, isLast⟩
    · rintro ⟨⟨fits, rest⟩, isLast⟩
      exact ⟨_, ⟨fits, rfl⟩, (ih (apply_steady steady op)).mpr ⟨rest, isLast⟩⟩

end Runs

def OrderKept : Prop :=
  ∀ s t : Int, |s - t| < 2 ^ 31 →
    (0 ≤ i32From (BitVec.ofInt 32 s - BitVec.ofInt 32 t) ↔ t ≤ s) ∧
      (0x80000000 ≤ BitVec.ofInt 32 s - BitVec.ofInt 32 t ↔ s < t)

theorem orderKept : OrderKept := by
  intro s t near
  have range := abs_lt.mp near
  have difference : i32From (BitVec.ofInt 32 s - BitVec.ofInt 32 t) = s - t := by
    rw [i32From, BitVec.toInt_sub, BitVec.toInt_ofInt, BitVec.toInt_ofInt, ← Int.sub_bmod]
    apply Int.bmod_eq_of_le_mul_two <;> omega
  have behind : ∀ d : U32, 0x80000000 ≤ d ↔ i32From d < 0 := by
    intro d
    have bound := d.isLt
    have top : (0x80000000 : U32).toNat = 2 ^ 31 := rfl
    rw [i32From, BitVec.le_def, BitVec.toInt_eq_toNat_cond, top]
    split <;> omega
  rw [behind, difference]
  omega

/-- No clock function overflows in the run, the timeout stays between its bounds and times are
compared in their order. -/
def TimingSound (k : Kcp) (ops : List Op) : Prop :=
  k.runChecked ops = some (run apply k ops) ∧ Throughout apply TimeoutBounded k ops ∧ OrderKept

theorem new_steady (conv : U32) (mtu : Nat) : (Kcp.new conv mtu).Steady :=
  show SteadyClock 0 0 0 ikcpRtoDef ikcpRtoMin ikcpWndRcv from
    ⟨by decide, by decide, by decide, by decide, by decide, by decide⟩

theorem timingSound_iff (conv : U32) (mtu : Nat) (ops : List Op) :
    (Kcp.new conv mtu).TimingSound ops ↔
      RunMeets apply (fun k op => k.ArithmeticFits op ∧ k.MinimumKept op) (Kcp.new conv mtu) ops := by
  have steady := new_steady conv mtu
  have above : (Kcp.new conv mtu).rxMinrto ≤ (Kcp.new conv mtu).rxRto := show ikcpRtoMin ≤ ikcpRtoDef by decide
  rw [TimingSound, runChecked_eq_some steady, throughout_timeoutBounded_iff steady above, runMeets_and,
    and_iff_left rfl, and_iff_left orderKept]

def lateClock : List Op := [.send [1], .flushNow 0xFFFFFFFF]

/-- The peer answers with the time at which the clock started, 24 days ago. -/
def oldEcho : List Op :=
  [.send [1], .flushNow 0x7FFFFFFE,
    .input { Seg.new [] with conv := 1, cmd := ikcpCmdAck, wnd := 128, una := 1 }.encode]

theorem not_timingSound_lateClock :
    (Kcp.new 1 0).runChecked lateClock = none ∧ (Kcp.new 1 0).runChecked oldEcho = none ∧
      ¬ (Kcp.new 1 0).TimingSound lateClock ∧ ¬ (Kcp.new 1 0).TimingSound oldEcho := by
  have late : (Kcp.new 1 0).runChecked lateClock = none := by decide
  have old : (Kcp.new 1 0).runChecked oldEcho = none := by decide
  refine ⟨late, old, fun sound => ?_, fun sound => ?_⟩
  · cases late.symm.trans sound.1
  · cases old.symm.trans sound.1

end Nfrp.Kcp
