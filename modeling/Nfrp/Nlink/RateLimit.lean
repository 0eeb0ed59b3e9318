import Mathlib.Data.List.DropRight
import Mathlib.Tactic.FieldSimp
import Nfrp.Lib.Envelope
import Nfrp.Lib.Runs

/-!
# Limits on the rate of a proxy

A token bucket for each user and proxy that a rule is for.  What a bucket does not have is owed,
and whoever asked waits until it would be paid.  Instants and amounts are exact here.
-/

namespace Nfrp.Nlink

open Lib

structure RateLimitRule where
  proxy : String := ""
  user : String := ""
  rate : Nat := 0
  burst : Nat := 0
  deriving DecidableEq

namespace RateLimitRule

def effective (rule : RateLimitRule) : Bool := 0 < rule.rate

def burstOf (rule : RateLimitRule) : Nat := if 0 < rule.burst then rule.burst else rule.rate

/-- What is behind the last dot. -/
def shortName (proxy : String) : String := String.ofList (proxy.toList.rtakeWhile (· ≠ '.'))

def matches_ (rule : RateLimitRule) (user proxy : String) : Bool :=
  (rule.user = "" || rule.user = "*" || rule.user = user) &&
    (rule.proxy = "" || rule.proxy = "*" || rule.proxy = proxy || shortName proxy = rule.proxy)

end RateLimitRule

structure TokenBucket where
  rate : ℚ
  burst : ℚ
  tokens : ℚ
  last : ℚ

namespace TokenBucket

def new (rate burst : Nat) (now : ℚ) : TokenBucket where
  rate := max rate 1
  burst := max burst 1
  tokens := max burst 1
  last := now

/-- The clock was read before the bucket was locked, so `now` may be before `last`. -/
def refill (b : TokenBucket) (now : ℚ) : TokenBucket :=
  { b with tokens := min (b.tokens + max (now - b.last) 0 * b.rate) b.burst, last := now }

def take (b : TokenBucket) (n : Nat) (now : ℚ) : TokenBucket × ℚ :=
  let b := b.refill now
  if n ≤ b.tokens then ({ b with tokens := b.tokens - n }, 0)
  else
    let deficit := n - b.tokens
    ({ b with tokens := -deficit }, deficit / b.rate)

end TokenBucket

structure RateLimiter where
  rules : List RateLimitRule
  buckets : String → Option TokenBucket := fun _ => none
  throttled : Nat := 0

namespace RateLimiter

def new (rules : List RateLimitRule) : RateLimiter where
  rules := rules.filter (·.effective)

def ruleFor (l : RateLimiter) (user proxy : String) : Option RateLimitRule :=
  l.rules.find? (·.matches_ user proxy)

def key (user proxy : String) (rule : RateLimitRule) : String :=
  let nul := String.singleton (Char.ofNat 0)
  user ++ nul ++ proxy ++ nul ++ toString rule.rate ++ nul ++ toString rule.burstOf

def acquireAt (l : RateLimiter) (user proxy : String) (n : Nat) (now : ℚ) : RateLimiter × ℚ :=
  match l.ruleFor user proxy with
  | none => (l, 0)
  | some rule =>
    let key := key user proxy rule
    let bucket := (l.buckets key).getD (.new rule.rate rule.burstOf now)
    let (bucket, wait) := bucket.take n now
    ({ l with
        buckets := Function.update l.buckets key (some bucket)
        throttled := if wait = 0 then l.throttled else l.throttled + 1 }, wait)

end RateLimiter

namespace TokenBucket

/-- The bucket has not let through more than it was given since `t0`. -/
structure Paid (b : TokenBucket) (rate burst : Nat) (t0 : ℚ) (rs : List (Release ℚ)) : Prop where
  isRate : b.rate = rate
  isBurst : b.burst = burst
  full : b.tokens ≤ burst
  balance : (total rs : ℚ) + b.tokens ≤ burst + rate * (b.last - t0)
  within : Within (burst : ℚ) rate t0 rs

variable {b : TokenBucket} {rate burst : Nat} {t0 now : ℚ} {rs : List (Release ℚ)}

theorem paid_new (rateful : 0 < rate) (bursts : 0 < burst) (since : t0 ≤ now) :
    (new rate burst now).Paid rate burst t0 [] := by
  have isRate : (new rate burst now).rate = rate := max_eq_left (Nat.one_le_cast.mpr rateful)
  have isBurst : (max (burst : ℚ) 1) = burst := max_eq_left (Nat.one_le_cast.mpr bursts)
  have grown : 0 ≤ (rate : ℚ) * (now - t0) := mul_nonneg (Nat.cast_nonneg rate) (sub_nonneg.mpr since)
  refine ⟨isRate, isBurst, isBurst.le, ?_, within_nil (Nat.cast_nonneg burst) (Nat.cast_nonneg rate)⟩
  have isFull : (new rate burst now).tokens = burst := isBurst
  rw [isFull, total_nil, Nat.cast_zero, zero_add]
  exact le_add_of_nonneg_right grown

theorem Paid.refill (paid : b.Paid rate burst t0 rs) (ordered : b.last ≤ now) :
    (b.refill now).Paid rate burst t0 rs where
  isRate := paid.isRate
  isBurst := paid.isBurst
  full := (min_le_right _ _).trans paid.isBurst.le
  balance := by
    have gained : (b.refill now).tokens ≤ b.tokens + (now - b.last) * rate := by
      have elapsed : max (now - b.last) 0 = now - b.last := max_eq_left (sub_nonneg.mpr ordered)
      calc (b.refill now).tokens ≤ b.tokens + max (now - b.last) 0 * b.rate := min_le_left _ _
        _ = b.tokens + (now - b.last) * rate := by rw [elapsed, paid.isRate]
    have isLast : (b.refill now).last = now := rfl
    rw [isLast]
    linarith [paid.balance]
  within := paid.within

theorem take_fst (b : TokenBucket) (n : Nat) (now : ℚ) :
    (b.take n now).1 = { b.refill now with tokens := (b.refill now).tokens - n } := by
  unfold TokenBucket.take
  dsimp only
  split
  · rfl
  · rw [neg_sub]

theorem tokens_take_le (b : TokenBucket) (n : Nat) (now : ℚ) : (b.take n now).1.tokens ≤ b.burst := by
  rw [take_fst]
  exact (sub_le_self _ (Nat.cast_nonneg n)).trans (min_le_right _ _)

theorem owed_le_repaid (rateful : 0 < b.rate) (n : Nat) (now : ℚ) :
    n - (b.refill now).tokens ≤ b.rate * (b.take n now).2 := by
  unfold TokenBucket.take
  dsimp only
  split
  · next enough =>
    rw [mul_zero]
    exact sub_nonpos.mpr enough
  · apply le_of_eq
    have isRate : (b.refill now).rate = b.rate := rfl
    rw [isRate]
    field_simp

theorem Paid.take (paid : b.Paid rate burst t0 rs) (rateful : 0 < rate) (ordered : b.last ≤ now) (n : Nat) :
    (b.take n now).1.Paid rate burst t0 (rs ++ [⟨n, now + (b.take n now).2⟩]) := by
  have refilled := paid.refill ordered
  have balance := refilled.balance
  have isLast : (b.refill now).last = now := rfl
  have positive : (0 : ℚ) < rate := Nat.cast_pos.mpr rateful
  have owed := owed_le_repaid (paid.isRate ▸ positive) n now
  rw [isLast] at balance
  rw [paid.isRate] at owed
  refine ⟨?_, ?_, (tokens_take_le b n now).trans_eq paid.isBurst, ?_, ?_⟩
  · rw [take_fst]
    exact refilled.isRate
  · rw [take_fst]
    exact refilled.isBurst
  · rw [take_fst, total_append, Nat.cast_add, isLast]
    linarith
  · apply refilled.within.append positive.le
    dsimp only
    linarith

end TokenBucket

structure Call where
  n : Nat
  now : ℚ

/-- The limiter, and when the bytes of each call of this user and proxy are let through. -/
structure Ledger where
  limiter : RateLimiter
  releases : List (Release ℚ) := []

namespace Ledger

variable (user proxy : String)

def step (s : Ledger) (c : Call) : Ledger :=
  let (limiter, wait) := s.limiter.acquireAt user proxy c.n c.now
  ⟨limiter, s.releases ++ [⟨c.n, c.now + wait⟩]⟩

def bucket? (s : Ledger) (rule : RateLimitRule) : Option TokenBucket :=
  s.limiter.buckets (RateLimiter.key user proxy rule)

/-- The clock was not read before it was for the request that had the lock before. -/
def Meets (s : Ledger) (c : Call) : Prop :=
  ∀ b ∈ (s.limiter.ruleFor user proxy).bind (s.bucket? user proxy), b.last ≤ c.now

instance (s : Ledger) (c : Call) : Decidable (s.Meets user proxy c) :=
  inferInstanceAs (Decidable (∀ b ∈ (s.limiter.ruleFor user proxy).bind (s.bucket? user proxy), b.last ≤ c.now))

/-- Nothing was let through before there was a bucket. -/
def Paid (rule : RateLimitRule) (t0 : ℚ) (s : Ledger) : Prop :=
  s.limiter.ruleFor user proxy = some rule ∧
    match s.bucket? user proxy rule with
    | none => s.releases = []
    | some b => b.Paid rule.rate rule.burstOf t0 s.releases

variable {user proxy} {rule : RateLimitRule} {t0 : ℚ} {s : Ledger}

theorem step_eq (isRule : s.limiter.ruleFor user proxy = some rule) (c : Call) :
    let b := ((s.bucket? user proxy rule).getD (.new rule.rate rule.burstOf c.now)).take c.n c.now
    (s.step user proxy c).limiter.rules = s.limiter.rules ∧
      (s.step user proxy c).bucket? user proxy rule = some b.1 ∧
      (s.step user proxy c).releases = s.releases ++ [⟨c.n, c.now + b.2⟩] := by
  simp only [step, RateLimiter.acquireAt, isRule, bucket?, Function.update_self, and_self]

theorem Paid.step (paid : s.Paid user proxy rule t0) (effective : 0 < rule.rate) {c : Call}
    (meets : s.Meets user proxy c) (since : t0 ≤ c.now) : (s.step user proxy c).Paid user proxy rule t0 := by
  obtain ⟨isRule, paid⟩ := paid
  obtain ⟨sameRules, isBucket, isRelease⟩ := step_eq isRule c
  have bursts : 0 < rule.burstOf := by
    unfold RateLimitRule.burstOf
    split
    · assumption
    · exact effective
  refine ⟨by rw [RateLimiter.ruleFor, sameRules]; exact isRule, ?_⟩
  rw [isBucket, isRelease]
  cases had : s.bucket? user proxy rule with
  | none =>
    rw [had] at paid
    rw [show s.releases = [] from paid]
    exact (TokenBucket.paid_new effective bursts since).take effective le_rfl c.n
  | some b =>
    rw [had] at paid
    exact TokenBucket.Paid.take paid effective (meets b (Option.bind_eq_some_iff.mpr ⟨rule, isRule, had⟩)) c.n

/-- What the rule lets through by any instant since the earliest reading of the clock, and what the
bucket can hold. -/
structure Respected (user proxy : String) (rule : RateLimitRule) (calls : List Call) (s : Ledger) : Prop where
  within : ∀ t0, IsLeast {now | ∃ c ∈ calls, c.now = now} t0 → Within (rule.burstOf : ℚ) rule.rate t0 s.releases
  capped : ∀ b, s.bucket? user proxy rule = some b → b.tokens ≤ b.burst

def start (rules : List RateLimitRule) : Ledger := ⟨.new rules, []⟩

theorem effective_of_ruleFor {rules : List RateLimitRule}
    (isRule : (RateLimiter.new rules).ruleFor user proxy = some rule) : 0 < rule.rate := by
  have kept := List.mem_of_find?_eq_some isRule
  exact of_decide_eq_true (List.mem_filter.mp kept).2

theorem paid_run {rules : List RateLimitRule} {calls : List Call}
    (isRule : (RateLimiter.new rules).ruleFor user proxy = some rule)
    (ordered : RunMeets (step user proxy) (Meets user proxy) (start rules) calls) (since : ∀ c ∈ calls, t0 ≤ c.now) :
    (run (step user proxy) (start rules) calls).Paid user proxy rule t0 := by
  have effective := effective_of_ruleFor isRule
  have meets := runMeets_and.mpr ⟨ordered, runMeets_mem (step user proxy) (start rules) (List.Subset.refl calls)⟩
  refine run_invariant_of_meets ?_ ⟨isRule, rfl⟩ meets
  rintro s c ⟨meets, isCall⟩ paid
  exact paid.step effective meets (since c isCall)

/-- In whatever order the clock was read, no bucket holds more than its burst. -/
theorem capped_run (rules : List RateLimitRule) (calls : List Call) {key : String} {b : TokenBucket}
    (isBucket : (run (step user proxy) (start rules) calls).limiter.buckets key = some b) : b.tokens ≤ b.burst := by
  have preserved : ∀ (s : Ledger) (c : Call), (∀ key b, s.limiter.buckets key = some b → b.tokens ≤ b.burst) →
      ∀ key b, (s.step user proxy c).limiter.buckets key = some b → b.tokens ≤ b.burst := by
    intro s c capped key b isBucket
    change (s.limiter.acquireAt user proxy c.n c.now).1.buckets key = some b at isBucket
    rw [RateLimiter.acquireAt] at isBucket
    split at isBucket
    · exact capped key b isBucket
    · next rule _ =>
      dsimp only at isBucket
      by_cases same : key = RateLimiter.key user proxy rule
      · rw [same, Function.update_self] at isBucket
        cases isBucket
        exact (TokenBucket.tokens_take_le _ c.n c.now).trans_eq (by rw [TokenBucket.take_fst]; rfl)
      · rw [Function.update_of_ne same] at isBucket
        exact capped key b isBucket
  refine run_invariant preserved ?_ calls key b isBucket
  rintro key b ⟨⟩

theorem rateLimit_respected (rules : List RateLimitRule) (user proxy : String) (calls : List Call)
    (ordered : RunMeets (step user proxy) (Meets user proxy) (start rules) calls) (rule : RateLimitRule)
    (isRule : (RateLimiter.new rules).ruleFor user proxy = some rule) :
    Respected user proxy rule calls (run (step user proxy) (start rules) calls) where
  within t0 earliest := by
    have paid := paid_run isRule ordered fun c isCall => earliest.2 ⟨c, isCall, rfl⟩
    obtain ⟨-, paid⟩ := paid
    split at paid
    · rw [show (run (step user proxy) (start rules) calls).releases = [] from paid]
      exact within_nil (Nat.cast_nonneg _) (Nat.cast_nonneg _)
    · exact paid.within
  capped _ := capped_run rules calls

def exampleRule : RateLimitRule := { proxy := "*", user := "*", rate := 2, burst := 4 }

theorem rateLimit_respected_ordered :
    Respected "alice" "alice.web" exampleRule [⟨4, 0⟩, ⟨3, 1⟩]
      (run (step "alice" "alice.web") (start [exampleRule]) [⟨4, 0⟩, ⟨3, 1⟩]) :=
  rateLimit_respected [exampleRule] "alice" "alice.web" [⟨4, 0⟩, ⟨3, 1⟩] (by decide +kernel) exampleRule (by decide)

/-- Five requests of two relays whose readings of the clock overtake each other: eight bytes by the
instant 1, where the rule lets six through. -/
def overtaking : List Call := [⟨4, 1⟩, ⟨1, 0⟩, ⟨1, 1⟩, ⟨1, 0⟩, ⟨1, 1⟩]

theorem not_respected_overtaking :
    releasedBy (run (step "alice" "alice.web") (start [exampleRule]) overtaking).releases 1 = 8 ∧
      ¬ Respected "alice" "alice.web" exampleRule overtaking
        (run (step "alice" "alice.web") (start [exampleRule]) overtaking) := by
  have letThrough : releasedBy (run (step "alice" "alice.web") (start [exampleRule]) overtaking).releases 1 = 8 := by
    decide +kernel
  refine ⟨letThrough, fun respected => ?_⟩
  have earliest : IsLeast {now | ∃ c ∈ overtaking, c.now = now} (0 : ℚ) := by
    refine ⟨⟨⟨1, 0⟩, by simp [overtaking], rfl⟩, ?_⟩
    rintro _ ⟨c, isCall, rfl⟩
    revert c isCall
    decide +kernel
  have bounded := respected.within 0 earliest 1 zero_le_one
  rw [letThrough] at bounded
  norm_num [exampleRule, RateLimitRule.burstOf] at bounded

end Ledger

end Nfrp.Nlink
