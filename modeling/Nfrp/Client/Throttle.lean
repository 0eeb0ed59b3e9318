import Mathlib.Data.NNRat.Order
import Mathlib.Tactic.FieldSimp
import Nfrp.Lib.Envelope
import Nfrp.Lib.Runs

/-!
# The bandwidth of a proxy

Tokens come in at the rate of the limit, up to a second's worth.  Who takes more than there are
sleeps until the rest has come in, unless that is too short a sleep.  Time is exact, and a sleep
may take longer than it was asked for.
-/

namespace Nfrp.Client

open Lib

structure Limiter where
  rate : Nat
  tokens : ℚ := 0
  last : Option ℚ := none

namespace Limiter

def new (bytesPerSec : Nat) : Limiter := { rate := bytesPerSec }

def shortest : ℚ := 1 / 5000

def refilled (l : Limiter) (now : ℚ) : ℚ := min (l.tokens + max (now - l.last.getD now) 0 * l.rate) l.rate

/-- The limiter afterwards, and when the call returns; a sleep ends `late`. -/
def take (l : Limiter) (n : Nat) (now : ℚ) (late : ℚ≥0) : Limiter × ℚ :=
  if l.rate = 0 ∨ n = 0 then (l, now)
  else
    let tokens := l.refilled now
    if n ≤ tokens then ({ l with tokens := tokens - n, last := some now }, now)
    else
      let wait := max ((n - tokens) / l.rate) 0
      if shortest < wait then
        let woken := now + wait + late
        ({ l with tokens := 0, last := some woken }, woken)
      else ({ l with tokens := 0, last := some now }, now)

/-- The call does not go on without the tokens it is short of: there are enough, or it sleeps. -/
def Pays (l : Limiter) (n : Nat) (now : ℚ) : Prop := n ≤ l.refilled now ∨ shortest < (n - l.refilled now) / l.rate

instance (l : Limiter) (n : Nat) (now : ℚ) : Decidable (l.Pays n now) :=
  inferInstanceAs (Decidable (_ ∨ _))

/-- By an instant after the last one, no more is through or left than has come in since `t0`. -/
structure Paid (l : Limiter) (rate : Nat) (t0 now : ℚ) (rs : List (Release ℚ)) : Prop where
  isRate : l.rate = rate
  within : Within (rate : ℚ) rate t0 rs
  begun : t0 ≤ now
  past : l.last.getD now ≤ now
  notOwed : 0 ≤ l.tokens
  balance : (total rs : ℚ) + l.tokens ≤ rate * (l.last.getD t0 - t0)

variable {l : Limiter} {rate n : Nat} {t0 now : ℚ} {rs : List (Release ℚ)}

theorem paid_new (rate : Nat) (t0 : ℚ) : (new rate).Paid rate t0 t0 [] where
  isRate := rfl
  within := within_nil (Nat.cast_nonneg rate) (Nat.cast_nonneg rate)
  begun := le_rfl
  past := le_rfl
  notOwed := le_rfl
  balance := by simp [new]

theorem Paid.later (paid : l.Paid rate t0 now rs) {after : ℚ} (passes : now ≤ after) : l.Paid rate t0 after rs where
  isRate := paid.isRate
  within := paid.within
  begun := paid.begun.trans passes
  past := by
    have past := paid.past
    cases isLast : l.last with
    | none => exact le_rfl
    | some last =>
      rw [isLast] at past
      exact le_trans past passes
  notOwed := paid.notOwed
  balance := paid.balance

theorem Paid.refilled_le (paid : l.Paid rate t0 now rs) :
    (total rs : ℚ) + l.refilled now ≤ rate * (now - t0) := by
  have balance := paid.balance
  have past := paid.past
  have gained : l.refilled now ≤ l.tokens + (now - l.last.getD now) * rate := by
    have elapsed : max (now - l.last.getD now) 0 = now - l.last.getD now := max_eq_left (sub_nonneg.mpr past)
    calc l.refilled now ≤ l.tokens + max (now - l.last.getD now) 0 * l.rate := min_le_left _ _
      _ = l.tokens + (now - l.last.getD now) * rate := by rw [elapsed, paid.isRate]
  have grown : 0 ≤ (rate : ℚ) * (now - t0) := mul_nonneg (Nat.cast_nonneg rate) (sub_nonneg.mpr paid.begun)
  cases isLast : l.last with
  | none =>
    simp only [isLast, Option.getD_none, sub_self, mul_zero, zero_mul, add_zero] at balance gained
    linarith
  | some last =>
    simp only [isLast, Option.getD_some] at balance gained
    linarith

theorem Paid.refilled_nonneg (paid : l.Paid rate t0 now rs) : 0 ≤ l.refilled now := by
  have elapsed : 0 ≤ max (now - l.last.getD now) 0 * l.rate := mul_nonneg (le_max_right _ _) (Nat.cast_nonneg _)
  exact le_min (add_nonneg paid.notOwed elapsed) (Nat.cast_nonneg _)

theorem Paid.release (paid : l.Paid rate t0 now rs) {tokens woken : ℚ} (passes : now ≤ woken) (notOwed : 0 ≤ tokens)
    (enough : (total rs : ℚ) + n + tokens ≤ rate * (woken - t0)) :
    ({ l with tokens := tokens, last := some woken } : Limiter).Paid rate t0 woken (rs ++ [⟨n, woken⟩]) where
  isRate := paid.isRate
  within := by
    apply paid.within.append (Nat.cast_nonneg rate)
    have bursts : (0 : ℚ) ≤ rate := Nat.cast_nonneg rate
    dsimp only
    linarith
  begun := paid.begun.trans passes
  past := le_rfl
  notOwed := notOwed
  balance := by
    rw [total_append, Nat.cast_add]
    exact enough

theorem Paid.idle (paid : l.Paid rate t0 now rs) : l.Paid rate t0 now (rs ++ [⟨0, now⟩]) where
  isRate := paid.isRate
  within := by
    apply paid.within.append (Nat.cast_nonneg rate)
    have bursts : (0 : ℚ) ≤ rate := Nat.cast_nonneg rate
    have balance := paid.refilled_le
    have notOwed := paid.refilled_nonneg
    rw [Nat.cast_zero]
    dsimp only
    linarith
  begun := paid.begun
  past := paid.past
  notOwed := paid.notOwed
  balance := by simpa using paid.balance

theorem Paid.take (paid : l.Paid rate t0 now rs) (limited : 0 < rate) (pays : l.Pays n now) (late : ℚ≥0) :
    (l.take n now late).1.Paid rate t0 (l.take n now late).2 (rs ++ [⟨n, (l.take n now late).2⟩]) := by
  have balance := paid.refilled_le
  have positive : (0 : ℚ) < rate := Nat.cast_pos.mpr limited
  unfold Limiter.take
  split
  · next free =>
    have none : n = 0 := free.resolve_left fun unlimited => limited.ne' (paid.isRate.symm.trans unlimited)
    subst none
    exact paid.idle
  dsimp only
  split
  · next enough =>
    apply paid.release le_rfl (sub_nonneg.mpr enough)
    linarith
  · next short =>
    have missing : 0 < (n - l.refilled now) / l.rate := by
      rw [paid.isRate]
      exact div_pos (sub_pos.mpr (not_le.mp short)) positive
    rw [max_eq_left missing.le, if_pos (pays.resolve_left short)]
    have slept : 0 ≤ (late : ℚ) := late.2
    apply paid.release _ le_rfl
    · have filled : (rate : ℚ) * ((n - l.refilled now) / l.rate) = n - l.refilled now := by
        rw [paid.isRate]
        field_simp
      have longer : (0 : ℚ) ≤ rate * late := mul_nonneg positive.le slept
      linarith
    · linarith

end Limiter

/-- A call that brings `n` bytes; the next one comes a while after it returned. -/
structure Taking where
  n : Nat
  late : ℚ≥0
  pause : ℚ≥0

structure Traffic where
  limiter : Limiter
  clock : ℚ
  releases : List (Release ℚ) := []

namespace Traffic

def start (rate : Nat) (t0 : ℚ) : Traffic := ⟨.new rate, t0, []⟩

def step (s : Traffic) (e : Taking) : Traffic :=
  let (limiter, returned) := s.limiter.take e.n s.clock e.late
  ⟨limiter, returned + e.pause, s.releases ++ [⟨e.n, returned⟩]⟩

def Meets (s : Traffic) (e : Taking) : Prop := s.limiter.Pays e.n s.clock

instance (s : Traffic) (e : Taking) : Decidable (s.Meets e) :=
  inferInstanceAs (Decidable (s.limiter.Pays e.n s.clock))

/-- The first call is at `t0`. -/
theorem bandwidth_respected (rate : Nat) (limited : 0 < rate) (t0 : ℚ) (events : List Taking)
    (pays : RunMeets step Meets (start rate t0) events) :
    Within (rate : ℚ) rate t0 (run step (start rate t0) events).releases := by
  have preserved : ∀ (s : Traffic) e, s.Meets e → s.limiter.Paid rate t0 s.clock s.releases →
      (s.step e).limiter.Paid rate t0 (s.step e).clock (s.step e).releases := by
    intro s e pays paid
    have pause : 0 ≤ (e.pause : ℚ) := e.pause.2
    apply (paid.take limited pays e.late).later
    exact le_add_of_nonneg_right pause
  have paid := run_invariant_of_meets preserved (Limiter.paid_new rate t0) pays
  exact paid.within

theorem bandwidth_respected_example :
    Within (1000 : ℚ) 1000 0 (run step (start 1000 0) [⟨500, 0, 1⟩, ⟨1500, 1, 0⟩]).releases :=
  bandwidth_respected 1000 (by decide) 0 [⟨500, 0, 1⟩, ⟨1500, 1, 0⟩] (by decide +kernel)

/-- A byte at a time for which the limit has room in 200 microseconds, and no time passes. -/
def trickle : Taking := ⟨1, 0, 0⟩

theorem step_trickle {last : Option ℚ} (isStart : last.getD 0 = 0) (rs : List (Release ℚ)) :
    step ⟨⟨5000, 0, last⟩, 0, rs⟩ trickle = ⟨⟨5000, 0, some 0⟩, 0, rs ++ [⟨1, 0⟩]⟩ := by
  have empty : ({ rate := 5000, tokens := 0, last := last } : Limiter).refilled 0 = 0 := by
    simp [Limiter.refilled, isStart]
  simp only [step, trickle, Limiter.take, empty]
  norm_num [Limiter.shortest]

theorem run_trickle {last : Option ℚ} (isStart : last.getD 0 = 0) (calls : Nat) (rs : List (Release ℚ)) :
    (run step ⟨⟨5000, 0, last⟩, 0, rs⟩ (List.replicate calls trickle)).releases = rs ++ List.replicate calls ⟨1, 0⟩ := by
  induction calls generalizing last rs with
  | zero => exact (List.append_nil rs).symm
  | succ calls ih =>
    rw [List.replicate_succ, run_cons, step_trickle isStart, ih rfl, List.append_assoc]
    rfl

/-- No call sleeps: 5001 bytes are through where a second's worth is 5000. -/
theorem not_within_trickle :
    ¬ Within (5000 : ℚ) 5000 0 (run step (start 5000 0) (List.replicate 5001 trickle)).releases := by
  intro within
  have bounded := within 0 le_rfl
  rw [start, Limiter.new, run_trickle rfl] at bounded
  have letThrough : ∀ calls, releasedBy (List.replicate calls (⟨1, 0⟩ : Release ℚ)) 0 = calls := by
    intro calls
    simp [releasedBy, total]
  rw [List.nil_append, letThrough] at bounded
  norm_num at bounded

end Traffic

end Nfrp.Client
