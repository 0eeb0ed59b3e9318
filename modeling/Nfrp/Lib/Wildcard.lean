import Mathlib.Data.List.Basic
import Mathlib.Data.Nat.Basic

/-!
# Patterns with stars, matched with one place to return to

A pattern is seen from its first item: nothing, one element of a kind, or a star.  `Lang` is what
a pattern means.  `search` reads both from the left and keeps only the latest star: where an
element does not fit, that star takes one more.  The earlier stars need no second try, since what
they would have left behind is a shorter rest, which the latest star can skip to by itself.
-/

namespace Nfrp.Lib.Wildcard

variable {P α : Type}

/-- A pattern by its first item.  What follows one element does not depend on the element. -/
inductive View (P α : Type) where
  | done
  | star (rest : P)
  | one (accepts : α → Bool) (rest : P)

inductive Lang (view : P → View P α) : P → List α → Prop where
  | done {p} : view p = .done → Lang view p []
  | skip {p rest n} : view p = .star rest → Lang view rest n → Lang view p n
  | eat {p rest element n} : view p = .star rest → Lang view p n → Lang view p (element :: n)
  | one {p accepts rest element n} : view p = .one accepts rest → accepts element = true →
      Lang view rest n → Lang view p (element :: n)

section Inversion

variable {view : P → View P α} {p rest : P} {n : List α}

theorem lang_done_iff (sees : view p = .done) : Lang view p n ↔ n = [] := by
  constructor
  · intro inside
    cases inside with
    | done => rfl
    | skip star | eat star | one star => cases sees.symm.trans star
  · rintro rfl
    exact .done sees

theorem lang_one_iff {accepts : α → Bool} (sees : view p = .one accepts rest) :
    Lang view p n ↔ ∃ element later, n = element :: later ∧ accepts element = true ∧ Lang view rest later := by
  constructor
  · intro inside
    cases inside with
    | done other | skip other | eat other => cases sees.symm.trans other
    | one same accepted inside =>
      cases sees.symm.trans same
      exact ⟨_, _, rfl, accepted, inside⟩
  · rintro ⟨element, later, rfl, accepted, inside⟩
    exact .one sees accepted inside

theorem lang_star_iff (sees : view p = .star rest) :
    Lang view p n ↔ ∃ skipped later, n = skipped ++ later ∧ Lang view rest later := by
  constructor
  · intro inside
    induction inside with
    | done other | one other => cases sees.symm.trans other
    | skip same inside =>
      cases sees.symm.trans same
      exact ⟨[], _, rfl, inside⟩
    | @eat p next element n same inside ih =>
      obtain ⟨skipped, later, rfl, left⟩ := ih sees
      exact ⟨element :: skipped, later, rfl, left⟩
  · rintro ⟨skipped, later, rfl, inside⟩
    induction skipped with
    | nil => exact .skip sees inside
    | cons element skipped ih => exact .eat sees ih

end Inversion

/-- The latest star takes one more element and the pattern after it is tried again. -/
def backtrack (again : P → List α → Option (P × List α) → Option Bool) : Option (P × List α) → Option Bool
  | some (sp, sn) => again sp sn.tail (some (sp, sn.tail))
  | none => some false

/-- `star` is the pattern after the latest star and the sequence that was left where it last
began.  `none` is a run of more steps than `fuel`. -/
def search (view : P → View P α) (ends : P → Bool) : Nat → P → List α → Option (P × List α) → Option Bool
  | 0, _, _, _ => none
  | _ + 1, p, [], _ => some (ends p)
  | fuel + 1, p, element :: n, star =>
    match view p with
    | .star rest => search view ends fuel rest (element :: n) (some (rest, element :: n))
    | .one accepts rest =>
      if accepts element then search view ends fuel rest n star else backtrack (search view ends fuel) star
    | .done => backtrack (search view ends fuel) star

/-- From one pattern to another over so many items for one element each. -/
inductive Steps (view : P → View P α) (start : P) : Nat → P → Prop where
  | here : Steps view start 0 start
  | next {count p accepts rest} : Steps view start count p → view p = .one accepts rest →
      Steps view start (count + 1) rest

theorem Steps.lang_split {view : P → View P α} {start p : P} {count : Nat} {n : List α}
    (steps : Steps view start count p) (inside : Lang view start n) :
    ∃ read later, n = read ++ later ∧ read.length = count ∧ Lang view p later := by
  induction steps with
  | here => exact ⟨[], n, rfl, rfl, inside⟩
  | next _ sees ih =>
    obtain ⟨read, rest, rfl, rfl, inside⟩ := ih
    obtain ⟨element, later, rfl, -, inside⟩ := (lang_one_iff sees).mp inside
    exact ⟨read ++ [element], later, by simp, by simp, inside⟩

/-- What the latest star can still reach: it takes at least one element more than it did. -/
def Later (view : P → View P α) (star : Option (P × List α)) : Prop :=
  ∃ sp element skipped later, star = some (sp, element :: (skipped ++ later)) ∧ Lang view sp later

theorem not_later_none (view : P → View P α) : ¬ Later view none := by
  rintro ⟨_, _, _, _, absent, _⟩
  cases absent

theorem later_cons_iff {view : P → View P α} {sp : P} {element : α} {n : List α} :
    Later view (some (sp, element :: n)) ↔ Lang view sp n ∨ Later view (some (sp, n)) := by
  constructor
  · rintro ⟨_, _, skipped, later, same, inside⟩
    cases same
    cases skipped with
    | nil => exact .inl inside
    | cons next skipped => exact .inr ⟨sp, next, skipped, later, rfl, inside⟩
  · rintro (inside | ⟨_, next, skipped, later, same, inside⟩)
    · exact ⟨sp, element, [], n, rfl, inside⟩
    · cases same
      exact ⟨sp, element, next :: skipped, later, rfl, inside⟩

/-- The search is at `p` with `n` left: since the latest star began, it read one element for each
item it passed. -/
structure Tracked (view : P → View P α) (size : P → Nat) (bound : Nat) (p : P) (n : List α)
    (star : Option (P × List α)) : Prop where
  bounded : size p ≤ bound
  since : ∀ sp sn, star = some (sp, sn) →
    size sp ≤ bound ∧ ∃ read, sn = read ++ n ∧ Steps view sp read.length p

namespace Tracked

variable {view : P → View P α} {size : P → Nat} {bound : Nat} {p rest sp : P} {element : α} {n sn : List α}
  {star : Option (P × List α)}

theorem initial (size : P → Nat) (p : P) (n : List α) : Tracked view size (size p) p n none where
  bounded := Nat.le_refl _
  since := by
    intro _ _ absent
    cases absent

theorem begin_star (tracked : Tracked view size bound p n star) (smaller : size rest < size p) :
    Tracked view size bound rest n (some (rest, n)) := by
  have fits := Nat.le_trans (Nat.le_of_lt smaller) tracked.bounded
  refine ⟨fits, ?_⟩
  intro _ _ same
  cases same
  exact ⟨fits, [], rfl, .here⟩

theorem read_one {accepts : α → Bool} (tracked : Tracked view size bound p (element :: n) star)
    (sees : view p = .one accepts rest) (smaller : size rest < size p) : Tracked view size bound rest n star := by
  refine ⟨Nat.le_trans (Nat.le_of_lt smaller) tracked.bounded, ?_⟩
  intro sp sn same
  obtain ⟨fits, read, rfl, steps⟩ := tracked.since sp sn same
  refine ⟨fits, read ++ [element], by simp, ?_⟩
  rw [List.length_append]
  exact .next steps sees

theorem retry (tracked : Tracked view size bound p n (some (sp, sn))) (rest : List α) :
    Tracked view size bound sp rest (some (sp, rest)) := by
  have fits := (tracked.since sp sn rfl).1
  refine ⟨fits, ?_⟩
  intro _ _ same
  cases same
  exact ⟨fits, [], rfl, .here⟩

theorem star_cons (tracked : Tracked view size bound p (element :: n) (some (sp, sn))) :
    ∃ first later, sn = first :: later := by
  obtain ⟨-, read, rfl, -⟩ := tracked.since sp sn rfl
  cases read with
  | nil => exact ⟨element, n, rfl⟩
  | cons first read => exact ⟨first, _, rfl⟩

/-- A new star makes the one before it superfluous: it skips to wherever that one could lead. -/
theorem lang_of_later (tracked : Tracked view size bound p n star) (sees : view p = .star rest)
    (reached : Later view star) : Lang view p n := by
  obtain ⟨sp, element, skipped, later, same, inside⟩ := reached
  obtain ⟨-, read, whole, steps⟩ := tracked.since _ _ same
  obtain ⟨again, final, rfl, sameLength, inside⟩ := steps.lang_split inside
  -- The second reading ends further to the right, so what it leaves is a suffix of `n`.
  have further : final <:+ n := by
    have suffix : final <:+ read ++ n := by
      rw [← whole]
      exact ⟨element :: skipped ++ again, by simp⟩
    refine List.suffix_of_suffix_length_le suffix (List.suffix_append read n) ?_
    have lengths := congrArg List.length whole
    simp only [List.length_cons, List.length_append] at lengths
    omega
  obtain ⟨before, rfl⟩ := further
  obtain ⟨taken, left, rfl, after⟩ := (lang_star_iff sees).mp inside
  refine (lang_star_iff sees).mpr ⟨before ++ taken, left, ?_, after⟩
  rw [List.append_assoc]

/-- Where the sequence is used up, the latest star has nothing more to take. -/
theorem lang_of_later_nil (tracked : Tracked view size bound p [] star) (reached : Later view star) :
    Lang view p [] := by
  obtain ⟨sp, element, skipped, later, same, inside⟩ := reached
  obtain ⟨-, read, whole, steps⟩ := tracked.since _ _ same
  obtain ⟨again, final, rfl, sameLength, -⟩ := steps.lang_split inside
  have lengths := congrArg List.length whole
  simp only [List.length_cons, List.length_append, List.length_nil] at lengths
  omega

end Tracked

/-- What the latest star has left to take: a step either lowers it, or keeps it and goes on in
the pattern. -/
def room (n : List α) : Option (P × List α) → Nat
  | some (_, sn) => sn.length
  | none => n.length + 1

def weight (size : P → Nat) (bound : Nat) (p : P) (n : List α) (star : Option (P × List α)) : Nat :=
  room n star * (bound + 1) + size p

/-- The answer is what the current pattern or the latest star can still reach. -/
def Decides (view : P → View P α) (result : Option Bool) (p : P) (n : List α) (star : Option (P × List α)) : Prop :=
  ∃ answer, result = some answer ∧ (answer = true ↔ Lang view p n ∨ Later view star)

/-- Runs of so many steps decide every state of less weight. -/
def Correct (view : P → View P α) (ends : P → Bool) (size : P → Nat) (bound fuel : Nat) : Prop :=
  ∀ p n star, Tracked view size bound p n star → weight size bound p n star < fuel →
    Decides view (search view ends fuel p n star) p n star

section Correct

variable {view : P → View P α} {ends : P → Bool} {size : P → Nat} {bound : Nat}

theorem backtrack_correct {fuel : Nat} {p : P} {element : α} {n : List α} {star : Option (P × List α)}
    (tracked : Tracked view size bound p (element :: n) star) (fails : ¬ Lang view p (element :: n))
    (enough : weight size bound p (element :: n) star ≤ fuel)
    (again : Correct view ends size bound fuel) :
    Decides view (backtrack (search view ends fuel) star) p (element :: n) star := by
  cases star with
  | none =>
    refine ⟨false, rfl, ?_⟩
    simp [fails, not_later_none]
  | some saved =>
    obtain ⟨sp, sn⟩ := saved
    obtain ⟨first, later, rfl⟩ := tracked.star_cons
    have lower : weight size bound sp later (some (sp, later)) < fuel := by
      apply Nat.lt_of_lt_of_le _ enough
      have fits := (tracked.since _ _ rfl).1
      simp only [weight, room, List.length_cons, Nat.succ_mul]
      omega
    obtain ⟨answer, found, correct⟩ := again sp later _ (tracked.retry later) lower
    refine ⟨answer, found, ?_⟩
    rw [correct, later_cons_iff]
    simp [fails]

/-- One step of the search at a sequence that is not used up.  What it goes on with has less
weight and the same answer. -/
theorem search_step {fuel : Nat} {p : P} {element : α} {n : List α} {star : Option (P × List α)}
    (shrinks : ∀ p rest, view p = .star rest → size rest < size p)
    (consumes : ∀ p accepts rest, view p = .one accepts rest → size rest < size p)
    (tracked : Tracked view size bound p (element :: n) star)
    (enough : weight size bound p (element :: n) star ≤ fuel)
    (again : Correct view ends size bound fuel) :
    Decides view (search view ends (fuel + 1) p (element :: n) star) p (element :: n) star := by
  cases sees : view p with
  | done =>
    have fails : ¬ Lang view p (element :: n) := by simp [lang_done_iff sees]
    simpa only [search, sees] using backtrack_correct tracked fails enough again
  | star rest =>
    have smaller := shrinks p rest sees
    have lower : weight size bound rest (element :: n) (some (rest, element :: n)) < fuel := by
      apply Nat.lt_of_lt_of_le _ enough
      have shorter : (element :: n).length ≤ room (element :: n) star := by
        cases star with
        | none => exact Nat.le_succ _
        | some saved =>
          obtain ⟨-, read, whole, -⟩ := tracked.since saved.1 saved.2 rfl
          simp [room, whole]
      have product := Nat.mul_le_mul_right (bound + 1) shorter
      exact Nat.add_lt_add_of_le_of_lt product smaller
    obtain ⟨answer, found, correct⟩ := again rest (element :: n) _ (tracked.begin_star smaller) lower
    refine ⟨answer, by simpa only [search, sees] using found, ?_⟩
    have absorbed : Later view star → Lang view p (element :: n) := tracked.lang_of_later sees
    rw [correct, or_iff_left_of_imp absorbed, lang_star_iff sees]
    constructor
    · rintro (inside | ⟨_, first, skipped, later, same, inside⟩)
      · exact ⟨[], _, rfl, inside⟩
      · cases same
        exact ⟨element :: skipped, later, rfl, inside⟩
    · rintro ⟨skipped, later, whole, inside⟩
      cases skipped with
      | nil => exact .inl (whole ▸ inside)
      | cons first skipped => exact .inr ⟨rest, first, skipped, later, by rw [whole]; rfl, inside⟩
  | one accepts rest =>
    cases accepted : accepts element with
    | false =>
      have fails : ¬ Lang view p (element :: n) := by simp [lang_one_iff sees, accepted]
      simpa [search, sees, accepted] using backtrack_correct tracked fails enough again
    | true =>
      have smaller := consumes p accepts rest sees
      have lower : weight size bound rest n star < fuel := by
        apply Nat.lt_of_lt_of_le _ enough
        cases star <;> simp only [weight, room, List.length_cons, Nat.succ_mul] <;> omega
      obtain ⟨answer, found, correct⟩ := again rest n star (tracked.read_one sees smaller) lower
      refine ⟨answer, by simpa [search, sees, accepted] using found, ?_⟩
      have same : Lang view p (element :: n) ↔ Lang view rest n := by simp [lang_one_iff sees, accepted]
      rw [correct, same]

/-- The search ends within the weight of its state, and it finds what the current pattern or the
latest star can still reach. -/
theorem search_correct (shrinks : ∀ p rest, view p = .star rest → size rest < size p)
    (consumes : ∀ p accepts rest, view p = .one accepts rest → size rest < size p)
    (ends_iff : ∀ p, ends p = true ↔ Lang view p []) (fuel : Nat) : Correct view ends size bound fuel := by
  induction fuel with
  | zero =>
    intro p n star _ impossible
    cases impossible
  | succ fuel ih =>
    intro p n star tracked enough
    cases n with
    | nil =>
      refine ⟨ends p, rfl, ?_⟩
      rw [ends_iff, or_iff_left_of_imp tracked.lang_of_later_nil]
    | cons element n =>
      apply search_step shrinks consumes tracked _ ih
      exact Nat.le_of_lt_succ enough

/-- So many steps are enough for a pattern of that size. -/
def stepBound (size : Nat) (n : List α) : Nat := (n.length + 2) * (size + 1)

theorem search_decides (shrinks : ∀ p rest, view p = .star rest → size rest < size p)
    (consumes : ∀ p accepts rest, view p = .one accepts rest → size rest < size p)
    (ends_iff : ∀ p, ends p = true ↔ Lang view p []) (p : P) (n : List α) :
    ∃ answer, search view ends (stepBound (size p) n) p n none = some answer ∧ (answer = true ↔ Lang view p n) := by
  have enough : weight size (size p) p n none < stepBound (size p) n := by
    simp only [weight, room, stepBound, Nat.succ_mul]
    omega
  obtain ⟨answer, found, correct⟩ :=
    search_correct shrinks consumes ends_iff _ p n none (Tracked.initial size p n) enough
  refine ⟨answer, found, ?_⟩
  rw [correct, or_iff_left (not_later_none view)]

end Correct

end Nfrp.Lib.Wildcard
