import Mathlib.Algebra.GroupWithZero.Nat
import Nfrp.Lib.Runs

/-!
# Files of the audit log

A call writes its line under the lock of the file and adds to the counter before the lock
is let go.  A call that finds the limit reached rotates the files afterwards, with the lock
taken anew.
-/

namespace Nfrp

open Lib

abbrev AuditLine := List UInt8

def sizeOfLines (lines : List AuditLine) : Nat := (lines.map List.length).sum

@[simp]
theorem sizeOfLines_nil : sizeOfLines [] = 0 := rfl

@[simp]
theorem sizeOfLines_append (first second : List AuditLine) :
    sizeOfLines (first ++ second) = sizeOfLines first + sizeOfLines second := by
  rw [sizeOfLines, List.map_append, List.sum_append]
  rfl

@[simp]
theorem sizeOfLines_singleton (line : AuditLine) : sizeOfLines [line] = line.length := List.sum_singleton

/-- `holder` is the line of the call that has the lock, `due` are the lines of the calls that
are to rotate.  `log` and `overshoot` nothing reads: all that was written, and the lines of
the calls in progress when the backup was made. -/
structure AuditFiles where
  backup : List AuditLine := []
  current : List AuditLine
  written : Nat
  holder : Option AuditLine := none
  due : List AuditLine := []
  log : List AuditLine
  overshoot : List AuditLine := []

namespace AuditFiles

/-- What is in the file counts. -/
def start (existing : List AuditLine) : AuditFiles where
  current := existing
  written := sizeOfLines existing
  log := existing

inductive Event where
  | write (line : AuditLine)
  | count
  | rotate (k : Nat)

def count (maxBytes : Nat) (s : AuditFiles) : AuditFiles :=
  match s.holder with
  | none => s
  | some line =>
    let total := s.written + line.length
    { s with
      written := total
      holder := none
      due := if 0 < maxBytes ∧ maxBytes ≤ total then s.due ++ [line] else s.due }

def step (maxBytes : Nat) (s : AuditFiles) : Event → AuditFiles
  | .write line =>
    if s.holder = none then { s with current := s.current ++ [line], holder := some line, log := s.log ++ [line] }
    else s
  | .count => s.count maxBytes
  | .rotate k =>
    if s.holder = none ∧ k < s.due.length then
      { s with backup := s.current, current := [], written := 0, due := s.due.eraseIdx k, overshoot := s.due }
    else s

def inProgress (s : AuditFiles) : List AuditLine := s.holder.toList ++ s.due

/-- The files are rotated by a call that finds the limit reached, not by one that decided
before another rotated. -/
def AtLimit (maxBytes : Nat) (s : AuditFiles) : Event → Prop
  | .rotate k => s.holder = none ∧ k < s.due.length → maxBytes ≤ s.written
  | _ => True

instance (maxBytes : Nat) (s : AuditFiles) : (event : Event) → Decidable (s.AtLimit maxBytes event)
  | .rotate k => inferInstanceAs (Decidable (s.holder = none ∧ k < s.due.length → _))
  | .write _ | .count => .isTrue trivial

/-- The counter knows all but the line just written, and what is above the limit is of calls
in progress. -/
structure Counted (maxBytes : Nat) (s : AuditFiles) : Prop where
  counted : sizeOfLines s.current = s.written + sizeOfLines s.holder.toList
  suffix : s.backup ++ s.current <:+ s.log
  current : sizeOfLines s.current < maxBytes + sizeOfLines s.inProgress
  backup : sizeOfLines s.backup < maxBytes + sizeOfLines s.overshoot

section Steps

variable {maxBytes : Nat} {s : AuditFiles} {existing : List AuditLine}

theorem counted_start (below : sizeOfLines existing < maxBytes) : (start existing).Counted maxBytes where
  counted := rfl
  suffix := List.suffix_rfl
  current := below
  backup := Nat.zero_lt_of_lt below

theorem Counted.count (counted : s.Counted maxBytes) (limited : 0 < maxBytes) : (s.count maxBytes).Counted maxBytes := by
  rw [AuditFiles.count]
  cases isHolder : s.holder with
  | none => exact counted
  | some line =>
    have isTotal : sizeOfLines s.current = s.written + line.length := by
      rw [counted.counted, isHolder, Option.toList_some, sizeOfLines_singleton]
    have atMost := counted.current
    refine ⟨isTotal, counted.suffix, ?_, counted.backup⟩
    simp only [inProgress, isHolder, Option.toList_some, Option.toList_none, sizeOfLines_append, sizeOfLines_singleton,
      List.nil_append] at atMost ⊢
    split
    next reached =>
      rw [sizeOfLines_append, sizeOfLines_singleton]
      omega
    next => omega

theorem Counted.step (counted : s.Counted maxBytes) (limited : 0 < maxBytes) (event : Event) :
    (s.step maxBytes event).Counted maxBytes := by
  cases event with
  | write line =>
    rw [AuditFiles.step]
    split
    next isFree =>
      obtain ⟨isCount, isSuffix, current, backup⟩ := counted
      rw [inProgress, isFree] at current
      rw [isFree] at isCount
      simp only [Option.toList_none, sizeOfLines_nil, List.nil_append] at isCount current
      refine ⟨?_, ?_, ?_, backup⟩
      · simp [isCount]
      · obtain ⟨lost, isLog⟩ := isSuffix
        exact ⟨lost, by simp [← isLog]⟩
      · simp only [inProgress, Option.toList_some, sizeOfLines_append, sizeOfLines_singleton]
        omega
    next => exact counted
  | count => exact counted.count limited
  | rotate k =>
    rw [AuditFiles.step]
    split
    next rotates =>
      have current := counted.current
      rw [inProgress, rotates.1] at current
      refine ⟨?_, ?_, Nat.lt_add_right _ limited, current⟩
      · rw [rotates.1]
        rfl
      · rw [List.append_nil]
        exact (List.suffix_append _ _).trans counted.suffix
    next => exact counted

def Recent (maxBytes : Nat) (s : AuditFiles) : Prop :=
  min maxBytes (sizeOfLines s.log) ≤ sizeOfLines (s.backup ++ s.current)

theorem Recent.step (counted : s.Counted maxBytes) (recent : s.Recent maxBytes) {event : Event}
    (atLimit : s.AtLimit maxBytes event) : (s.step maxBytes event).Recent maxBytes := by
  cases event with
  | write line =>
    rw [AuditFiles.step]
    split
    next =>
      unfold Recent at recent ⊢
      simp only [sizeOfLines_append, sizeOfLines_singleton] at recent ⊢
      omega
    next => exact recent
  | count =>
    rw [AuditFiles.step, AuditFiles.count]
    cases s.holder with
    | none => exact recent
    | some line => exact recent
  | rotate k =>
    rw [AuditFiles.step]
    split
    next rotates =>
      have isCount := counted.counted
      rw [rotates.1] at isCount
      have reached := atLimit rotates
      unfold Recent
      rw [List.append_nil, isCount]
      exact Nat.le_trans (Nat.min_le_left _ _) (Nat.le_trans reached (Nat.le_add_right _ _))
    next => exact recent

end Steps

/-- The files hold, in order and without a gap, the last of what was written; what is there
beyond twice the limit is of calls in progress, or was when the backup was made. -/
structure Rotated (maxBytes : Nat) (s : AuditFiles) : Prop where
  suffix : s.backup ++ s.current <:+ s.log
  bounded : sizeOfLines (s.backup ++ s.current) < 2 * maxBytes + sizeOfLines s.inProgress + sizeOfLines s.overshoot

theorem Counted.rotated {maxBytes : Nat} {s : AuditFiles} (counted : s.Counted maxBytes) : s.Rotated maxBytes where
  suffix := counted.suffix
  bounded := by
    have current := counted.current
    have backup := counted.backup
    rw [sizeOfLines_append]
    omega

theorem rotated_run {maxBytes : Nat} {existing : List AuditLine} (below : sizeOfLines existing < maxBytes)
    (events : List Event) : (run (step maxBytes) (start existing) events).Rotated maxBytes ∧
      (RunMeets (step maxBytes) (AtLimit maxBytes) (start existing) events →
        (run (step maxBytes) (start existing) events).Recent maxBytes) := by
  have limited := Nat.zero_lt_of_lt below
  have counted : (run (step maxBytes) (start existing) events).Counted maxBytes :=
    run_invariant (fun _ event counted => counted.step limited event) (counted_start below) events
  refine ⟨counted.rotated, fun meets => ?_⟩
  have both := @run_invariant_of_meets _ _ _ _ (fun s => s.Counted maxBytes ∧ s.Recent maxBytes)
    (fun s event atLimit kept => ⟨kept.1.step limited event, kept.2.step kept.1 atLimit⟩)
    _ ⟨counted_start below, Nat.min_le_right _ _⟩ _ meets
  exact both.2

/-- Two calls of four bytes each, where six are the limit, and a third. -/
def busyLog : List Event :=
  [.write [1, 1, 1, 10], .count, .write [2, 2, 2, 10], .count, .write [3, 3, 3, 10], .count, .rotate 0,
    .write [4, 4, 4, 10], .count]

theorem rotated_busyLog : (run (step 6) (start [[0, 10]]) busyLog).Rotated 6 ∧
    (RunMeets (step 6) (AtLimit 6) (start [[0, 10]]) busyLog → (run (step 6) (start [[0, 10]]) busyLog).Recent 6) :=
  rotated_run (by decide) busyLog

/-- A long line makes the files longer than twice the limit when no call is in progress; and a
second call that was to rotate leaves a backup with nothing in it. -/
theorem not_rotated_busyLog :
    (¬∀ events, sizeOfLines ((run (step 6) (start []) events).backup ++ (run (step 6) (start []) events).current) <
      2 * 6 + sizeOfLines (run (step 6) (start []) events).inProgress) ∧
    ¬∀ events, (run (step 6) (start []) events).Recent 6 := by
  constructor
  · intro bounded
    have size := bounded [.write [1, 1, 1, 1, 10], .count, .write [2, 2, 2, 2, 10], .count, .rotate 0,
      .write [3, 3, 3, 3, 10], .count]
    revert size
    decide
  · intro recent
    have size := recent [.write [1, 1, 1, 1, 1, 10], .count, .write [2, 2, 2, 2, 2, 10], .count, .rotate 0, .rotate 0]
    unfold Recent at size
    revert size
    decide

end AuditFiles

end Nfrp
