import Mathlib.Tactic.IntervalCases

/-!
The Gregorian calendar.

Years are counted from the first of March, so that the day that a leap year has more is the
last one.  `exists_year` finds the year of a day, `daysBefore_lt` says that there is only one,
and `dateOf` names the day.
-/

namespace Nfrp.Lib

structure Date where
  year : Int
  month : Nat
  day : Nat
  deriving DecidableEq, Repr

def IsLeap (year : Int) : Prop :=
  year % 4 = 0 ∧ (year % 100 ≠ 0 ∨ year % 400 = 0)

instance : DecidablePred IsLeap := fun _ => inferInstanceAs (Decidable (_ ∧ _))

def monthLength (year : Int) (month : Nat) : Nat :=
  if month = 2 then if IsLeap year then 29 else 28
  else if month = 4 ∨ month = 6 ∨ month = 9 ∨ month = 11 then 30
  else 31

namespace Date

def Valid (d : Date) : Prop :=
  1 ≤ d.month ∧ d.month ≤ 12 ∧ 1 ≤ d.day ∧ d.day ≤ monthLength d.year d.month

def Before (d e : Date) : Prop :=
  d.year < e.year ∨ d.year = e.year ∧ (d.month < e.month ∨ d.month = e.month ∧ d.day < e.day)

end Date

def daysBefore (year : Int) : Int :=
  365 * year + year / 4 - year / 100 + year / 400

/-- A day of the year that begins in March; the last one is there if the next year is a leap year. -/
def IsDayOf (year : Int) (day : Nat) : Prop :=
  day ≤ 364 ∨ day = 365 ∧ IsLeap (year + 1)

theorem daysBefore_succ (year : Int) :
    daysBefore (year + 1) = daysBefore year + if IsLeap (year + 1) then 366 else 365 := by
  by_cases leap : IsLeap (year + 1)
  · rw [if_pos leap, daysBefore, daysBefore]
    simp only [IsLeap] at leap
    omega
  · rw [if_neg leap, daysBefore, daysBefore]
    simp only [IsLeap] at leap
    omega

theorem daysBefore_lt {year other : Int} {day : Nat} (isDay : IsDayOf year day) (earlier : year < other) :
    daysBefore year + day < daysBefore other := by
  have next := daysBefore_succ year
  have rest : daysBefore (year + 1) ≤ daysBefore other := by
    simp only [daysBefore]
    omega
  rcases isDay with short | ⟨rfl, leap⟩
  · split at next <;> omega
  · rw [if_pos leap] at next
    omega

theorem exists_year (z : Int) : ∃ year day, IsDayOf year day ∧ z = daysBefore year + day := by
  induction z using Int.induction_on with
  | zero => exact ⟨0, 0, .inl (by decide), by decide⟩
  | succ z ih =>
    obtain ⟨year, day, isDay, same⟩ := ih
    have next := daysBefore_succ year
    by_cases last : day < 364 ∨ day = 364 ∧ IsLeap (year + 1)
    · refine ⟨year, day + 1, ?_, by omega⟩
      exact last.imp Nat.succ_le_of_lt fun leap => ⟨by omega, leap.2⟩
    · refine ⟨year + 1, 0, .inl (Nat.zero_le _), ?_⟩
      rcases isDay with short | ⟨rfl, leap⟩
      · rw [if_neg fun leap => last (.inr ⟨by omega, leap⟩)] at next
        omega
      · rw [if_pos leap] at next
        omega
  | pred z ih =>
    obtain ⟨year, day, isDay, same⟩ := ih
    have previous := daysBefore_succ (year - 1)
    rw [Int.sub_add_cancel] at previous
    by_cases first : day = 0
    · by_cases leap : IsLeap year
      · rw [if_pos leap] at previous
        exact ⟨year - 1, 365, .inr ⟨rfl, by rwa [Int.sub_add_cancel]⟩, by omega⟩
      · rw [if_neg leap] at previous
        exact ⟨year - 1, 364, .inl le_rfl, by omega⟩
    · exact ⟨year, day - 1, .inl (by rcases isDay with short | ⟨rfl, -⟩ <;> omega), by omega⟩

/-- A day of a month, both counted from March. -/
def dateAt (year : Int) (month day : Nat) : Date :=
  ⟨if month < 10 then year else year + 1, if month < 10 then month + 3 else month - 9, day⟩

/-- Five months from March on have 153 days. -/
def dateOf (year : Int) (day : Nat) : Date :=
  let month := (5 * day + 2) / 153
  dateAt year month (day - (153 * month + 2) / 5 + 1)

theorem valid_dateOf {year : Int} {day : Nat} (isDay : IsDayOf year day) : (dateOf year day).Valid := by
  obtain ⟨month, isMonth⟩ : ∃ month, month = (5 * day + 2) / 153 := ⟨_, rfl⟩
  have long : day ≤ 365 := by rcases isDay with short | ⟨rfl, -⟩ <;> omega
  have isIndex : month < 12 := by omega
  simp only [dateOf, ← isMonth]
  by_cases last : month = 11
  · subst last
    rcases isDay with short | ⟨rfl, leap⟩
    · simp [Date.Valid, dateAt, monthLength]
      split <;> omega
    · simp [Date.Valid, dateAt, monthLength, leap]
  · interval_cases month <;> simp [Date.Valid, dateAt, monthLength] <;> omega

theorem dateOf_before {year other : Int} {day later : Nat} (isDay : IsDayOf year day) (isLater : IsDayOf other later)
    (ordered : year < other ∨ year = other ∧ day < later) : (dateOf year day).Before (dateOf other later) := by
  have long : day ≤ 365 := by rcases isDay with short | ⟨rfl, -⟩ <;> omega
  have long' : later ≤ 365 := by rcases isLater with short | ⟨rfl, -⟩ <;> omega
  simp only [Date.Before, dateOf, dateAt]
  split <;> split <;> omega

end Nfrp.Lib
