import Mathlib.Algebra.Order.Group.MinMax
import Nfrp.Lib.Envelope
import Nfrp.Lib.Runs

/-!
# A log of the same line over and over

A line that would be written again and again is written while a bucket has tokens, and counted
where it has none.  The clock is read before the bucket is locked, so readings overtake each other.
Instants and tokens are exact here.
-/

namespace Nfrp

open Lib

structure FoldedLog where
  refillPerSec : ℚ
  burst : ℚ
  rateful : 0 ≤ refillPerSec
  bursts : 0 ≤ burst

structure FoldDecision where
  first : Bool
  summary : Bool
  folded : Nat
  deriving DecidableEq

def FoldDecision.emit (d : FoldDecision) : Bool := d.first || d.summary

structure FoldState where
  last : Option ℚ := none
  tokens : ℚ
  folded : Nat := 0
  wroteAny : Bool := false

def maxFolded : Nat := 2 ^ 64 - 1

namespace FoldedLog

def new (log : FoldedLog) : FoldState where
  tokens := log.burst

/-- A reading that is not later than the last one refills nothing and is forgotten. -/
def refill (log : FoldedLog) (g : FoldState) (now : ℚ) : FoldState :=
  match g.last with
  | none => { g with last := some now }
  | some t =>
    let dt := max (now - t) 0
    if 0 < dt then { g with tokens := min (g.tokens + dt * log.refillPerSec) log.burst, last := some now } else g

/-- The first line is written as it is, and each later one with the count of those before it. -/
def observe (log : FoldedLog) (g : FoldState) (now : ℚ) : FoldState × FoldDecision :=
  let g := log.refill g now
  if 1 ≤ g.tokens then
    let first := !g.wroteAny
    ({ g with tokens := g.tokens - 1, folded := 0, wroteAny := true }, ⟨first, !first, g.folded⟩)
  else
    let folded := min (g.folded + 1) maxFolded
    ({ g with folded }, ⟨false, false, folded⟩)

end FoldedLog

/-- The clock is read, and the lock is had then or later. -/
structure Observation where
  now : ℚ
  locked : ℚ
  before : now ≤ locked

/-- `clock` is the latest reading so far. -/
structure Observed where
  call : Observation
  clock : ℚ
  decision : FoldDecision

structure FoldHistory where
  state : FoldState
  made : List Observed := []

namespace FoldHistory

def start (log : FoldedLog) : FoldHistory := { state := log.new }

def clock? (h : FoldHistory) : Option ℚ := h.made.getLast?.map Observed.clock

def step (log : FoldedLog) (h : FoldHistory) (c : Observation) : FoldHistory :=
  let (state, decision) := log.observe h.state c.now
  { state, made := h.made ++ [⟨c, h.clock?.elim c.now (max c.now), decision⟩] }

def emitted (instant : Observed → ℚ) (h : FoldHistory) : List (Release ℚ) :=
  (h.made.filter (·.decision.emit)).map fun o => ⟨1, instant o⟩

def unwritten (h : FoldHistory) : Nat := h.made.countP fun o => !o.decision.emit

def reported (h : FoldHistory) : Nat := ((h.made.filter (·.decision.emit)).map (·.decision.folded)).sum

variable {log : FoldedLog} {g : FoldState} {h : FoldHistory} {now : ℚ}

theorem last_refill (log : FoldedLog) (g : FoldState) (now : ℚ) :
    (log.refill g now).last = some (g.last.elim now (max now)) := by
  rw [FoldedLog.refill]
  cases isLast : g.last with
  | none => rfl
  | some t =>
    dsimp only
    split
    next later =>
      have order : t < now := by simpa using later
      rw [Option.elim_some, max_eq_left order.le]
    next earlier =>
      have order : now ≤ t := by simpa using earlier
      rw [isLast, Option.elim_some, max_eq_right order]

theorem folded_refill (log : FoldedLog) (g : FoldState) (now : ℚ) : (log.refill g now).folded = g.folded := by
  rw [FoldedLog.refill]
  split
  · rfl
  · dsimp only
    split <;> rfl

/-- The bucket is not more than full, and gains what the rate makes up for. -/
theorem tokens_refill (full : g.tokens ≤ log.burst) (covered : 0 ≤ g.tokens) (now : ℚ) :
    0 ≤ (log.refill g now).tokens ∧ (log.refill g now).tokens ≤ log.burst ∧
      (log.refill g now).tokens ≤ g.tokens + log.refillPerSec * (g.last.elim 0 fun t => max now t - t) := by
  rw [FoldedLog.refill]
  cases isLast : g.last with
  | none => exact ⟨covered, full, by simp⟩
  | some t =>
    have elapsed : max (now - t) 0 = max now t - t := by rw [← max_sub_sub_right, sub_self]
    have gained : 0 ≤ log.refillPerSec * (max now t - t) :=
      mul_nonneg log.rateful (sub_nonneg.mpr (le_max_right now t))
    dsimp only [Option.elim_some]
    rw [elapsed]
    split
    · rw [mul_comm]
      exact ⟨le_min (by linarith) log.bursts, min_le_right _ _, min_le_left _ _⟩
    · exact ⟨covered, full, by linarith⟩

theorem observe_cases (log : FoldedLog) (g : FoldState) (now : ℚ) :
    (1 ≤ (log.refill g now).tokens ∧ (log.observe g now).2.emit ∧ (log.observe g now).2.folded = g.folded ∧
        (log.observe g now).1.tokens = (log.refill g now).tokens - 1 ∧ (log.observe g now).1.folded = 0) ∨
      (log.observe g now).2.emit = false ∧ (log.observe g now).1.tokens = (log.refill g now).tokens ∧
        (log.observe g now).1.folded = min (g.folded + 1) maxFolded := by
  rw [FoldedLog.observe]
  dsimp only
  rw [folded_refill]
  split
  next enough =>
    left
    exact ⟨enough, by simp [FoldDecision.emit], rfl, rfl, rfl⟩
  next => exact .inr ⟨rfl, rfl, rfl⟩

theorem last_observe (log : FoldedLog) (g : FoldState) (now : ℚ) :
    (log.observe g now).1.last = some (g.last.elim now (max now)) := by
  rw [← last_refill log g now, FoldedLog.observe]
  dsimp only
  split <;> rfl

/-- What has been written since any instant is paid for by what there was and what came in. -/
structure Paid (log : FoldedLog) (h : FoldHistory) : Prop where
  isClock : h.state.last = h.clock?
  full : h.state.tokens ≤ log.burst
  covered : 0 ≤ h.state.tokens
  behind : ∀ c, h.clock? = some c → ∀ o ∈ h.made, o.clock ≤ c
  balance : ∀ c, h.clock? = some c → ∀ s ≤ c,
    (releasedSince (h.emitted Observed.clock) s : ℚ) + h.state.tokens ≤ log.burst + log.refillPerSec * (c - s)
  steady : Steady log.burst log.refillPerSec (h.emitted Observed.clock)

theorem paid_start (log : FoldedLog) : (start log).Paid log where
  isClock := rfl
  full := le_rfl
  covered := log.bursts
  behind := by rintro _ ⟨⟩
  balance := by rintro _ ⟨⟩
  steady := steady_nil log.bursts log.rateful

theorem made_of_clock?_none (unread : h.clock? = none) : h.made = [] := by
  rw [clock?, Option.map_eq_none_iff, List.getLast?_eq_none_iff] at unread
  exact unread

theorem clock?_step (log : FoldedLog) (h : FoldHistory) (c : Observation) :
    (h.step log c).clock? = some (h.clock?.elim c.now (max c.now)) := by
  simp [clock?, step]

/-- What came in by the next reading covers what had been written. -/
theorem Paid.refill (paid : h.Paid log) (now : ℚ) {s : ℚ} (order : s ≤ h.clock?.elim now (max now)) :
    (releasedSince (h.emitted Observed.clock) s : ℚ) + (log.refill h.state now).tokens ≤
      log.burst + log.refillPerSec * (h.clock?.elim now (max now) - s) := by
  obtain ⟨-, full, gained⟩ := tokens_refill paid.full paid.covered now
  rw [paid.isClock] at gained
  have nothingSince : (∀ o ∈ h.made, o.clock < s) → releasedSince (h.emitted Observed.clock) s = 0 := by
    intro earlier
    apply releasedSince_of_lt
    intro r member
    obtain ⟨o, isMade, rfl⟩ := List.mem_map.mp member
    exact earlier o (List.mem_of_mem_filter isMade)
  have grown : 0 ≤ log.refillPerSec * (h.clock?.elim now (max now) - s) :=
    mul_nonneg log.rateful (sub_nonneg.mpr order)
  cases isRead : h.clock? with
  | none =>
    rw [isRead] at grown
    rw [nothingSince (by simp [made_of_clock?_none isRead])]
    push_cast
    linarith
  | some t =>
    rw [isRead] at gained grown
    by_cases later : t < s
    · rw [nothingSince fun o isMade => (paid.behind t isRead o isMade).trans_lt later]
      push_cast
      linarith
    · have balance := paid.balance t isRead s (not_lt.mp later)
      simp only [Option.elim_some] at gained ⊢
      linarith [mul_sub log.refillPerSec (max now t) s, mul_sub log.refillPerSec t s, mul_sub log.refillPerSec (max now t) t]

theorem emitted_step (instant : Observed → ℚ) (log : FoldedLog) (h : FoldHistory) (c : Observation) :
    (h.step log c).emitted instant = h.emitted instant ++
      if (log.observe h.state c.now).2.emit then
        [⟨1, instant ⟨c, h.clock?.elim c.now (max c.now), (log.observe h.state c.now).2⟩⟩] else [] := by
  simp only [emitted, step, List.filter_append, List.map_append]
  congr 1
  split
  next written => simp [written]
  next folded => simp [folded]

theorem Paid.step (paid : h.Paid log) (c : Observation) : (h.step log c).Paid log := by
  obtain ⟨covered, full, -⟩ := tokens_refill paid.full paid.covered c.now
  have isClock : (h.step log c).state.last = (h.step log c).clock? := by
    rw [clock?_step, ← paid.isClock]
    exact last_observe log h.state c.now
  have behind : ∀ t, (h.step log c).clock? = some t → ∀ o ∈ (h.step log c).made, o.clock ≤ t := by
    intro t isRead o isMade
    rw [clock?_step] at isRead
    obtain rfl := Option.some.inj isRead
    rcases List.mem_append.mp isMade with isOld | isNew
    · cases wasRead : h.clock? with
      | none => cases made_of_clock?_none wasRead ▸ isOld
      | some t => exact (paid.behind t wasRead o isOld).trans (le_max_right _ _)
    · rw [List.mem_singleton.mp isNew]
  have owed := @Paid.refill log h paid c.now
  have written := emitted_step Observed.clock log h c
  have tokens : (h.step log c).state.tokens = (log.observe h.state c.now).1.tokens := rfl
  rcases observe_cases log h.state c.now with ⟨enough, emits, -, spent, -⟩ | ⟨emits, kept, -⟩
  · rw [if_pos emits] at written
    rw [spent] at tokens
    refine ⟨isClock, ?_, ?_, behind, ?_, ?_⟩
    · rw [tokens]
      linarith
    · rw [tokens]
      linarith
    · intro t isRead s order
      rw [clock?_step] at isRead
      obtain rfl := Option.some.inj isRead
      rw [written, releasedSince_append _ order, tokens]
      push_cast
      linarith [owed order]
    · rw [written]
      apply paid.steady.append log.rateful
      intro s order
      push_cast
      linarith [owed order]
  · rw [if_neg (by simp [emits]), List.append_nil] at written
    rw [kept] at tokens
    refine ⟨isClock, tokens.trans_le full, covered.trans_eq tokens.symm, behind, ?_, ?_⟩
    · intro t isRead s order
      rw [clock?_step] at isRead
      obtain rfl := Option.some.inj isRead
      rw [written, tokens]
      exact owed order
    · rw [written]
      exact paid.steady

theorem clock_run {calls : List Observation} (ordered : calls.Pairwise fun c d => c.now ≤ d.now)
    (before : ∀ t, h.clock? = some t → ∀ c ∈ calls, t ≤ c.now) (same : ∀ o ∈ h.made, o.clock = o.call.now) :
    ∀ o ∈ (run (step log) h calls).made, o.clock = o.call.now := by
  induction calls generalizing h with
  | nil => exact same
  | cons c calls ih =>
    obtain ⟨first, rest⟩ := List.pairwise_cons.mp ordered
    have isLatest : h.clock?.elim c.now (max c.now) = c.now := by
      cases isRead : h.clock? with
      | none => rfl
      | some t => exact max_eq_left (before t isRead c List.mem_cons_self)
    apply ih rest
    · intro t isRead d isLater
      rw [clock?_step, isLatest] at isRead
      exact Option.some.inj isRead ▸ first d isLater
    · intro o isMade
      rcases List.mem_append.mp isMade with isOld | isNew
      · exact same o isOld
      · rw [List.mem_singleton.mp isNew]
        exact isLatest

/-- Where the count has not come to its end, one call more is one more line or one more counted. -/
theorem accounted_step (accounted : h.unwritten = h.reported + h.state.folded) (room : h.state.folded < maxFolded)
    (c : Observation) : (h.step log c).unwritten = (h.step log c).reported + (h.step log c).state.folded := by
  have unwritten : (h.step log c).unwritten =
      h.unwritten + if (log.observe h.state c.now).2.emit then 0 else 1 := by
    simp only [FoldHistory.unwritten, step, List.countP_append, List.countP_singleton]
    cases (log.observe h.state c.now).2.emit <;> rfl
  have reported : (h.step log c).reported =
      h.reported + if (log.observe h.state c.now).2.emit then (log.observe h.state c.now).2.folded else 0 := by
    simp only [FoldHistory.reported, step, List.filter_append, List.map_append, List.sum_append]
    congr 1
    split
    next written => simp [written]
    next folded => simp [folded]
  have folded : (h.step log c).state.folded = (log.observe h.state c.now).1.folded := rfl
  rw [unwritten, reported, folded]
  rcases observe_cases log h.state c.now with ⟨-, emits, taken, -, emptied⟩ | ⟨emits, -, counted⟩
  · rw [if_pos emits, if_pos emits, taken, emptied]
    omega
  · rw [emits, counted, Nat.min_eq_left room]
    simp only [Bool.false_eq_true, if_false]
    omega

/-- Between any two instants of the clock, as far as it has been read, no more lines are written than
the bucket holds and the rate makes up for; and every call is a line, or is in the count of one or in
the one to come. -/
structure Bounded (log : FoldedLog) (calls : List Observation) (h : FoldHistory) : Prop where
  steady : Steady log.burst log.refillPerSec (h.emitted Observed.clock)
  inOrder : calls.Pairwise (fun c d => c.now ≤ d.now) → Steady log.burst log.refillPerSec (h.emitted (·.call.now))
  accounted : RunMeets (step log) (fun h _ => h.state.folded < maxFolded) (start log) calls →
    h.unwritten = h.reported + h.state.folded

theorem bounded_run (log : FoldedLog) (calls : List Observation) :
    Bounded log calls (run (step log) (start log) calls) := by
  have paid : (run (step log) (start log) calls).Paid log :=
    run_invariant (fun _ c paid => paid.step c) (paid_start log) calls
  refine ⟨paid.steady, fun ordered => ?_, ?_⟩
  · have same := @clock_run log (start log) calls ordered (by rintro _ ⟨⟩) (by rintro _ ⟨⟩)
    have emitted : (run (step log) (start log) calls).emitted (·.call.now) =
        (run (step log) (start log) calls).emitted Observed.clock := by
      apply List.map_congr_left
      intro o isWritten
      rw [same o (List.mem_of_mem_filter isWritten)]
    rw [emitted]
    exact paid.steady
  · exact run_invariant_of_meets (fun _ c room accounted => accounted_step accounted room c) rfl

def connEndLog : FoldedLog where
  refillPerSec := 1
  burst := 2
  rateful := zero_le_one
  bursts := zero_le_two

/-- Two calls come to the lock late, and one with a reading from long before. -/
def late : List Observation :=
  [⟨0, 0, le_rfl⟩, ⟨0, 0, le_rfl⟩, ⟨50, 100, by norm_num⟩, ⟨50, 100, by norm_num⟩, ⟨100, 100, le_rfl⟩,
    ⟨0, 100, by norm_num⟩]

/-- Neither where a line counts for when its call read the clock nor where it counts for when it had
the lock. -/
theorem not_steady_late :
    (¬∀ log calls, Steady log.burst log.refillPerSec ((run (step log) (start log) calls).emitted (·.call.now))) ∧
      ¬∀ log calls, calls.Pairwise (fun c d => c.locked ≤ d.locked) →
        Steady log.burst log.refillPerSec ((run (step log) (start log) calls).emitted (·.call.locked)) := by
  constructor
  · intro steady
    have three : releasedIn ((run (step connEndLog) (start connEndLog) late).emitted (·.call.now)) 0 0 = 3 := by
      decide +kernel
    have bounded := steady connEndLog late 0 0 le_rfl
    rw [three] at bounded
    norm_num [connEndLog] at bounded
  · intro steady
    have four : releasedIn ((run (step connEndLog) (start connEndLog) late).emitted (·.call.locked)) 100 100 = 4 := by
      decide +kernel
    have bounded := steady connEndLog late (by simp [late]) 100 100 le_rfl
    rw [four] at bounded
    norm_num [connEndLog] at bounded

end FoldHistory

end Nfrp
