import Nfrp.Lib.Calendar
import Nfrp.Lib.Checked
import Nfrp.Lib.Numerals
import Nfrp.Lib.Utf8

/-!
# The time in the name of a log file

At midnight a log file is put away under a name that tells when, and the name of an old file is
read again to see whether it is to be deleted.  The arithmetic is done in machine words, of
which the unsigned ones must not go below zero.
-/

namespace Nfrp.LogFile

open Lib

def i64 (n : Int) : Option Int :=
  if -2 ^ 63 ≤ n ∧ n < 2 ^ 63 then some n else none

def asU64 (n : Int) : Nat :=
  (n % 2 ^ 64).toNat

/-- The quotient of a signed word, which is rounded to zero, made to be rounded down. -/
def eraOf (n length : Int) : Option Int :=
  (if 0 ≤ n then some n else i64 (n - (length - 1))).map (·.tdiv length)

def yearOfEra (doe : Nat) : Option Nat := do
  let days ← checkedSub doe (doe / 1460)
  let days ← checkedSub (days + doe / 36524) (doe / 146096)
  return days / 365

def daysOfYears (yoe : Nat) : Option Nat :=
  checkedSub (365 * yoe + yoe / 4) (yoe / 100)

/-- Months that are counted from March, as they are called. -/
def monthOf (mp : Nat) : Option Nat :=
  if mp < 10 then some (mp + 3) else checkedSub mp 9

def monthFromMarch (m : Nat) : Option Nat :=
  if 2 < m then checkedSub m 3 else some (m + 9)

/-- A year with its first two months at its end, and without. -/
def yearOf (y : Int) (m : Nat) : Option Int :=
  if m ≤ 2 then i64 (y + 1) else some y

def yearFromMarch (y : Int) (m : Nat) : Option Int :=
  if m ≤ 2 then i64 (y - 1) else some y

/-- The date so many days after the first of January 1970. -/
def civilFromDays (z : Int) : Option Date := do
  let z ← i64 (z + 719468)
  let era ← eraOf z 146097
  let doe := asU64 (← i64 (z - era * 146097))
  let yoe ← yearOfEra doe
  let y ← i64 (yoe + era * 400)
  let doy ← checkedSub doe (← daysOfYears yoe)
  let mp := (5 * doy + 2) / 153
  let d := (← checkedSub doy ((153 * mp + 2) / 5)) + 1
  let m ← monthOf mp
  return ⟨← yearOf y m, m, d⟩

def daysFromCivil (date : Date) : Option Int := do
  let y ← yearFromMarch date.year date.month
  let era ← eraOf y 400
  let yoe := asU64 (← i64 (y - era * 400))
  let mp ← monthFromMarch date.month
  let doy ← checkedSub ((153 * mp + 2) / 5 + date.day) 1
  let doe := (← daysOfYears yoe) + doy
  i64 (era * 146097 + doe - 719468)

theorem i64_of_bounds {n : Int} (low : -2 ^ 63 ≤ n) (high : n < 2 ^ 63) : i64 n = some n :=
  if_pos ⟨low, high⟩

theorem asU64_of_bounds {n : Int} (low : 0 ≤ n) (high : n < 2 ^ 63) : asU64 n = n.toNat := by
  rw [asU64, Int.emod_eq_of_lt low (by omega)]

theorem eraOf_eq {n length : Int} (known : length = 146097 ∨ length = 400) (low : -2 ^ 62 ≤ n) :
    eraOf n length = some (n / length) := by
  rw [eraOf]
  split
  next natural => rw [Option.map_some, Int.tdiv_eq_ediv_of_nonneg natural]
  next negative =>
    rw [i64_of_bounds (by omega) (by omega), Option.map_some, Int.tdiv_eq_ediv, Int.sign_eq_one_of_pos (by omega)]
    refine congrArg some ?_
    rcases known with rfl | rfl
    · split <;> omega
    · split <;> omega

theorem yearOfEra_eq {year day doe : Nat} (inEra : year < 400) (isDay : IsDayOf year day)
    (isDoe : doe = 365 * year + year / 4 - year / 100 + day) : yearOfEra doe = some year := by
  have quarters : 25 * (year / 100) ≤ year / 4 ∧ year / 4 ≤ 25 * (year / 100) + 24 := by omega
  have century : doe / 36524 = year / 100 + doe / 146096 ∧ year / 4 + day ≤ doe / 1460 + 364 := by
    rcases isDay with short | ⟨rfl, leap, notCentury⟩
    · have early : doe / 146096 = 0 := by omega
      omega
    · by_cases last : year = 399
      · subst last
        omega
      · obtain ⟨k, rfl⟩ : ∃ k, year = 4 * k + 3 := ⟨year / 4, by omega⟩
        have inCentury : k ≤ 25 * ((4 * k + 3) / 100) + 23 := by omega
        have isQuarter : (4 * k + 3) / 4 = k := by omega
        have early : doe / 146096 = 0 := by omega
        omega
  have late : doe / 1460 ≤ year / 4 + day := by omega
  rw [yearOfEra, checkedSub_of_le (by omega), Option.bind_eq_bind, Option.bind_some, checkedSub_of_le (by omega)]
  refine congrArg some ?_
  omega

theorem exists_inEra {z year : Int} {day : Nat} (isDay : IsDayOf year day) (same : z = daysBefore year + day) :
    ∃ era : Int, ∃ yoe doe : Nat, yoe < 400 ∧ IsDayOf yoe day ∧ year = 400 * era + yoe ∧
      doe = 365 * yoe + yoe / 4 - yoe / 100 + day ∧ doe < 146097 ∧ z = 146097 * era + doe := by
  obtain ⟨era, yoe, inEra, rfl⟩ : ∃ era : Int, ∃ yoe : Nat, yoe < 400 ∧ year = 400 * era + yoe :=
    ⟨year / 400, (year % 400).toNat, by omega, by omega⟩
  simp only [IsDayOf, IsLeap, daysBefore] at isDay same ⊢
  refine ⟨era, yoe, _, inEra, ?_, rfl, rfl, ?_, ?_⟩
  · omega
  · omega
  · omega

/-- The day numbers for which the arithmetic stays far from the ends of a word. -/
def Small (z : Int) : Prop :=
  -10 ^ 9 < z ∧ z < 10 ^ 9

section

variable {z year : Int} {day : Nat}

theorem civilFromDays_eq (small : Small z) (isDay : IsDayOf year day) (same : z + 719468 = daysBefore year + day) :
    civilFromDays z = some (dateOf year day) := by
  obtain ⟨low, high⟩ := small
  obtain ⟨era, yoe, doe, inEra, isDayOf, rfl, isDoe, short, isDays⟩ := exists_inEra isDay same
  have long : day ≤ 365 := by rcases isDay with short | ⟨rfl, -⟩ <;> omega
  have isEra : (z + 719468) / 146097 = era := by omega
  have isRest : z + 719468 - era * 146097 = doe := by omega
  have isMonth : monthOf ((5 * day + 2) / 153) = some (dateOf (400 * era + yoe) day).month := by
    simp only [monthOf, dateOf, dateAt]
    split
    next => rfl
    next => exact checkedSub_of_le (by omega)
  have isYear : yearOf (yoe + era * 400) (dateOf (400 * era + yoe) day).month =
      some (dateOf (400 * era + yoe) day).year := by
    simp only [yearOf, dateOf, dateAt]
    split <;> split
    · omega
    · exact congrArg some (by omega)
    · rw [i64_of_bounds (by omega) (by omega)]
      exact congrArg some (by omega)
    · omega
  simp only [civilFromDays, Option.bind_eq_bind, Option.pure_def]
  rw [i64_of_bounds (by omega) (by omega), Option.bind_some, eraOf_eq (.inl rfl) (by omega), Option.bind_some, isEra,
    isRest, i64_of_bounds (by omega) (by omega), Option.bind_some, asU64_of_bounds (by omega) (by omega),
    Int.toNat_natCast, yearOfEra_eq inEra isDayOf isDoe, Option.bind_some, i64_of_bounds (by omega) (by omega),
    Option.bind_some, daysOfYears, checkedSub_of_le (by omega), Option.bind_some, checkedSub_of_le (by omega),
    Option.bind_some, show doe - (365 * yoe + yoe / 4 - yoe / 100) = day by omega, checkedSub_of_le (by omega),
    Option.bind_some, isMonth, Option.bind_some, isYear]
  rfl

theorem daysFromCivil_eq (small : Small z) (isDay : IsDayOf year day) (same : z + 719468 = daysBefore year + day) :
    daysFromCivil (dateOf year day) = some z := by
  obtain ⟨low, high⟩ := small
  obtain ⟨era, yoe, doe, inEra, -, rfl, isDoe, short, isDays⟩ := exists_inEra isDay same
  have long : day ≤ 365 := by rcases isDay with short | ⟨rfl, -⟩ <;> omega
  have isYear : yearFromMarch (dateOf (400 * era + yoe) day).year (dateOf (400 * era + yoe) day).month =
      some (400 * era + yoe) := by
    simp only [yearFromMarch, dateOf, dateAt]
    split <;> split
    · omega
    · rfl
    · rw [i64_of_bounds (by omega) (by omega)]
      exact congrArg some (by omega)
    · omega
  have isMonth : monthFromMarch (dateOf (400 * era + yoe) day).month = some ((5 * day + 2) / 153) := by
    simp only [monthFromMarch, dateOf, dateAt]
    split <;> split
    · rw [checkedSub_of_le (by omega)]
      rfl
    · omega
    · omega
    · exact congrArg some (by omega)
  have isEra : (400 * era + yoe) / 400 = era := by omega
  have isRest : 400 * era + yoe - era * 400 = yoe := by omega
  have inMonth : (153 * ((5 * day + 2) / 153) + 2) / 5 + (dateOf (400 * era + yoe) day).day - 1 = day := by
    simp only [dateOf, dateAt]
    omega
  simp only [daysFromCivil, Option.bind_eq_bind]
  rw [isYear, Option.bind_some, eraOf_eq (.inr rfl) (by omega), Option.bind_some, isEra, isRest,
    i64_of_bounds (by omega) (by omega), Option.bind_some, asU64_of_bounds (by omega) (by omega), Int.toNat_natCast,
    isMonth, Option.bind_some, checkedSub_of_le (by simp only [dateOf, dateAt]; omega), Option.bind_some, inMonth,
    daysOfYears, checkedSub_of_le (by omega), Option.bind_some, ← isDoe, i64_of_bounds (by omega) (by omega)]
  exact congrArg some (by omega)

theorem exists_date (small : Small z) : ∃ year day, IsDayOf year day ∧ z + 719468 = daysBefore year + day ∧
    civilFromDays z = some (dateOf year day) ∧ daysFromCivil (dateOf year day) = some z := by
  obtain ⟨year, day, isDay, same⟩ := exists_year (z + 719468)
  exact ⟨year, day, isDay, same, civilFromDays_eq small isDay same, daysFromCivil_eq small isDay same⟩

theorem before_of_lt {y z : Int} {d e : Date} (smallY : Small y) (smallZ : Small z) (less : y < z)
    (first : civilFromDays y = some d) (second : civilFromDays z = some e) : d.Before e := by
  obtain ⟨year, day, isDay, same, isDate, -⟩ := exists_date smallY
  obtain ⟨other, later, isLater, same', isDate', -⟩ := exists_date smallZ
  obtain rfl := Option.some.inj (isDate.symm.trans first)
  obtain rfl := Option.some.inj (isDate'.symm.trans second)
  refine dateOf_before isDay isLater ?_
  rcases lt_trichotomy year other with earlier | rfl | wrong
  · exact .inl earlier
  · exact .inr ⟨rfl, by omega⟩
  · have := daysBefore_lt isLater wrong
    omega

end

def secsOf (t : Int) : Int :=
  t.tdiv (10 ^ 9)

def signedPadded (width : Nat) (n : Int) : List Char :=
  if n < 0 then '-' :: padded (width - 1) n.natAbs else padded width n.toNat

def fields (first : List Char) (second third : Nat) : List Char :=
  first ++ (padded 2 second ++ padded 2 third)

def timeFields (rem : Nat) : List Char :=
  fields (padded 2 (rem / 3600)) (rem % 3600 / 60) (rem % 60)

def stamp (t : Int) : Option (List Char) :=
  let secs := secsOf t
  (civilFromDays (secs / 86400)).map fun date =>
    fields (signedPadded 4 date.year) date.month date.day ++ '-' :: timeFields (secs % 86400).toNat

def backupName (pre ext : List Char) (t : Int) : Option (List Char) :=
  (stamp t).map fun text => pre ++ '.' :: (text ++ ext)

def parseI64 : List Char → Option Int
  | '-' :: digits => ((Reader.number 10 none true (2 ^ 63)).whole digits).map fun n : Nat => -(n : Int)
  | text => (parseUnsigned (2 ^ 63 - 1) text).map Int.ofNat

def stripFront (pre text : List Char) : Option (List Char) :=
  if pre.isPrefixOf text then some (text.drop pre.length) else none

def stripBack (ext text : List Char) : Option (List Char) :=
  if ext.isSuffixOf text then some (text.take (text.length - ext.length)) else none

structure Fields where
  date : Date
  h : Int
  mi : Int
  s : Int

def Fields.read (rest : List Char) : Option Fields := do
  if utf8Length rest ≠ 15 ∨ ¬rest.all (·.toNat < 128) ∨ (rest.drop 8).take 1 ≠ ['-'] then none
  else
    let num start length := parseI64 ((rest.drop start).take length)
    let y ← num 0 4
    let mo ← num 4 2
    let d ← num 6 2
    let h ← num 9 2
    let mi ← num 11 2
    let s ← num 13 2
    if ¬(1 ≤ mo ∧ mo ≤ 12) ∨ ¬(1 ≤ d ∧ d ≤ 31) ∨ 23 < h ∨ 59 < mi ∨ 59 < s then none
    else some ⟨⟨y, mo.toNat, d.toNat⟩, h, mi, s⟩

/-- Nothing at all where the arithmetic fails; otherwise the time in the name, if there is one. -/
def parseBackupStamp (name pre ext : List Char) : Option (Option Int) :=
  match ((stripFront pre name).bind (stripBack ext)).bind Fields.read with
  | none => some none
  | some f =>
    (daysFromCivil f.date).map fun days =>
      let total := days * 86400 + f.h * 3600 + f.mi * 60 + f.s
      if total < 0 then none else some (total * 10 ^ 9)

theorem length_eq_four {text : List Char} (four : text.length = 4) : ∃ a b c d, text = [a, b, c, d] := by
  obtain ⟨a, rest, rfl⟩ := List.exists_cons_of_length_eq_add_one four
  obtain ⟨b, c, d, rfl⟩ := List.length_eq_three.mp (Nat.succ.inj four)
  exact ⟨a, b, c, d, rfl⟩

theorem parseI64_padded {width n : Nat} (positive : 1 ≤ width) (small : n < 10 ^ 4) :
    parseI64 (padded width n) = some (n : Int) := by
  have read := @parseUnsigned_padded n width (2 ^ 63 - 1) positive (by omega)
  unfold parseI64
  split
  next digits isText =>
    have digit := @isDigit_of_mem_padded n width '-' (isText ▸ List.mem_cons_self)
    exact absurd digit (by decide)
  next => exact congrArg (Option.map Int.ofNat) read

theorem read_fields {y m d h mi s : Nat} (isYear : y < 10 ^ 4) (isMonth : 1 ≤ m ∧ m ≤ 12) (isDay : 1 ≤ d ∧ d ≤ 31)
    (isHour : h ≤ 23) (isMinute : mi ≤ 59) (isSecond : s ≤ 59) :
    Fields.read (fields (padded 4 y) m d ++ '-' :: fields (padded 2 h) mi s) = some ⟨⟨y, m, d⟩, h, mi, s⟩ := by
  have two {n : Nat} (fits : n < 100) : ∃ a b, padded 2 n = [a, b] :=
    List.length_eq_two.mp (length_padded (by decide) (by omega))
  obtain ⟨a₁, a₂, a₃, a₄, isA⟩ := length_eq_four (length_padded (by decide : 1 ≤ 4) isYear)
  obtain ⟨b₁, b₂, isB⟩ := two (n := m) (by omega)
  obtain ⟨c₁, c₂, isC⟩ := two (n := d) (by omega)
  obtain ⟨d₁, d₂, isD⟩ := two (n := h) (by omega)
  obtain ⟨e₁, e₂, isE⟩ := two (n := mi) (by omega)
  obtain ⟨f₁, f₂, isF⟩ := two (n := s) (by omega)
  have ascii : ∀ c ∈ fields (padded 4 y) m d ++ '-' :: fields (padded 2 h) mi s, isAscii c := by
    intro c member
    simp only [fields, List.mem_append, List.mem_cons] at member
    have digit {width n : Nat} (member : c ∈ padded width n) : isAscii c :=
      isAscii_of_isDigit (isDigit_of_mem_padded member)
    rcases member with (first | second | third) | rfl | first | second | third
    · exact digit first
    · exact digit second
    · exact digit third
    · rw [isAscii]
      decide
    · exact digit first
    · exact digit second
    · exact digit third
  have length : utf8Length (fields (padded 4 y) m d ++ '-' :: fields (padded 2 h) mi s) = 15 := by
    rw [utf8Length, List.map_congr_left fun c member => utf8Size_of_ascii (ascii c member)]
    simp [fields, isA, isB, isC, isD, isE, isF]
  have isText : fields (padded 4 y) m d ++ '-' :: fields (padded 2 h) mi s =
      [a₁, a₂, a₃, a₄, b₁, b₂, c₁, c₂, '-', d₁, d₂, e₁, e₂, f₁, f₂] := by
    simp [fields, isA, isB, isC, isD, isE, isF]
  have reads {n : Nat} {width : Nat} {text : List Char} (isText : padded width n = text) (positive : 1 ≤ width)
      (small : n < 10 ^ 4) : parseI64 text = some (n : Int) := isText ▸ parseI64_padded positive small
  have guard : ¬(utf8Length (fields (padded 4 y) m d ++ '-' :: fields (padded 2 h) mi s) ≠ 15 ∨
      ¬(fields (padded 4 y) m d ++ '-' :: fields (padded 2 h) mi s).all (·.toNat < 128) ∨
      ((fields (padded 4 y) m d ++ '-' :: fields (padded 2 h) mi s).drop 8).take 1 ≠ ['-']) := by
    rw [not_or, not_or, not_not, not_not, not_not]
    exact ⟨length, List.all_eq_true.mpr fun c member => decide_eq_true (ascii c member), by rw [isText]; rfl⟩
  rw [Fields.read, if_neg guard, isText]
  simp only [List.drop_succ_cons, List.drop_zero, List.take_succ_cons, List.take_zero, Option.bind_eq_bind,
    reads isA (by decide) isYear, reads isB (by decide) (by omega), reads isC (by decide) (by omega),
    reads isD (by decide) (by omega), reads isE (by decide) (by omega), reads isF (by decide) (by omega),
    Option.bind_some]
  rw [if_neg (by omega)]
  rfl

theorem strip_back (pre text ext : List Char) :
    (stripFront pre (pre ++ (text ++ ext))).bind (stripBack ext) = some text := by
  simp [stripFront, stripBack]

theorem length_fields {width a b c : Nat} (positive : 1 ≤ width) (fits : a < 10 ^ width ∧ b < 100 ∧ c < 100) :
    (fields (padded width a) b c).length = width + 4 := by
  rw [fields, List.length_append, List.length_append, length_padded positive fits.1,
    length_padded (by decide) (by omega), length_padded (by decide) (by omega)]

theorem fields_lt {width a b c a' b' c' : Nat} (positive : 1 ≤ width) (first : a' < 10 ^ width) (fits : b' < 100)
    (fits' : c' < 100) (less : a < a' ∨ a = a' ∧ (b < b' ∨ b = b' ∧ c < c')) :
    fields (padded width a) b c < fields (padded width a') b' c' := by
  have alike {width n m : Nat} (positive : 1 ≤ width) (fits : m < 10 ^ width) (le : n ≤ m) :
      (padded width n).length = (padded width m).length :=
    (length_padded positive (le.trans_lt fits)).trans (length_padded positive fits).symm
  rcases less with less | ⟨rfl, less⟩
  · exact (append_lt_append_iff (alike positive first less.le)).mpr (.inl (padded_lt positive first less))
  · refine (append_lt_append_iff rfl).mpr (.inr ⟨rfl, ?_⟩)
    rcases less with less | ⟨rfl, less⟩
    · exact (append_lt_append_iff (alike (by decide) (by omega) less.le)).mpr (.inl (padded_lt (by decide) (by omega) less))
    · exact (append_lt_append_iff rfl).mpr (.inr ⟨rfl, padded_lt (by decide) (by omega) less⟩)

abbrev Instant := {t : Int // 0 ≤ t ∧ t < 253402300800 * 10 ^ 9}

theorem secsOf_eq (t : Instant) : secsOf t.1 = t.1 / 10 ^ 9 :=
  Int.tdiv_eq_ediv_of_nonneg t.2.1

theorem exists_stamp (t : Instant) : ∃ y m d : Nat, civilFromDays (t.1 / 10 ^ 9 / 86400) = some ⟨y, m, d⟩ ∧
    daysFromCivil ⟨y, m, d⟩ = some (t.1 / 10 ^ 9 / 86400) ∧ y < 10 ^ 4 ∧ (1 ≤ m ∧ m ≤ 12) ∧ (1 ≤ d ∧ d ≤ 31) ∧
    stamp t.1 = some (fields (padded 4 y) m d ++ '-' :: timeFields (t.1 / 10 ^ 9 % 86400).toNat) := by
  obtain ⟨low, high⟩ := t.2
  have small : Small (t.1 / 10 ^ 9 / 86400) := by
    constructor <;> omega
  obtain ⟨year, day, isDay, same, isDate, isRead⟩ := exists_date small
  obtain ⟨positive, isMonth, first, short⟩ := valid_dateOf isDay
  have thirtyOne : (dateOf year day).day ≤ 31 := by
    refine short.trans ?_
    rw [monthLength]
    split_ifs <;> decide
  have inRange : 0 ≤ (dateOf year day).year ∧ (dateOf year day).year < 10 ^ 4 := by
    have long : day ≤ 365 := by rcases isDay with short | ⟨rfl, -⟩ <;> omega
    simp only [daysBefore] at same
    simp only [dateOf, dateAt]
    split <;> omega
  generalize dateOf year day = date at *
  obtain ⟨y, m, d⟩ := date
  obtain ⟨y, rfl⟩ := Int.eq_ofNat_of_zero_le inRange.1
  have isYear : y < 10 ^ 4 := by simpa using inRange.2
  refine ⟨y, m, d, isDate, isRead, isYear, ⟨positive, isMonth⟩, ⟨first, thirtyOne⟩, ?_⟩
  simp only [stamp, secsOf_eq, isDate, Option.map_some, signedPadded, if_neg (not_lt.mpr inRange.1), Int.toNat_natCast]

theorem parse_backupName (t : Instant) (pre ext : List Char) :
    ∃ name, backupName pre ext t.1 = some name ∧
      parseBackupStamp name (pre ++ ['.']) ext = some (some (t.1 / 10 ^ 9 * 10 ^ 9)) := by
  obtain ⟨y, m, d, isDate, isRead, isYear, isMonth, isDay, isStamp⟩ := exists_stamp t
  obtain ⟨low, high⟩ := t.2
  refine ⟨_, congrArg (Option.map _) isStamp, ?_⟩
  have stripped := strip_back (pre ++ ['.']) (fields (padded 4 y) m d ++ '-' :: timeFields (t.1 / 10 ^ 9 % 86400).toNat) ext
  rw [List.append_assoc, List.singleton_append] at stripped
  simp only [parseBackupStamp]
  rw [stripped, Option.bind_some, timeFields, read_fields isYear isMonth isDay (by omega) (by omega) (by omega)]
  simp only [isRead, Option.map_some]
  rw [if_neg (by omega)]
  exact congrArg (some ∘ some) (by omega)

theorem stamp_lt {t u : Instant} {text other : List Char} (isText : stamp t.1 = some text)
    (isOther : stamp u.1 = some other) (less : t.1 / 10 ^ 9 < u.1 / 10 ^ 9) : text < other := by
  obtain ⟨y, m, d, isDate, -, isYear, isMonth, isDay, isStamp⟩ := exists_stamp t
  obtain ⟨y', m', d', isDate', -, isYear', isMonth', isDay', isStamp'⟩ := exists_stamp u
  obtain rfl := Option.some.inj (isStamp.symm.trans isText)
  obtain rfl := Option.some.inj (isStamp'.symm.trans isOther)
  obtain ⟨low, high⟩ := t.2
  obtain ⟨low', high'⟩ := u.2
  rw [append_lt_append_iff]
  · rcases lt_or_eq_of_le (show t.1 / 10 ^ 9 / 86400 ≤ u.1 / 10 ^ 9 / 86400 by omega) with earlier | sameDay
    · have before := before_of_lt (by constructor <;> omega) (by constructor <;> omega) earlier isDate isDate'
      refine .inl (fields_lt (by decide) isYear' (by omega) (by omega) ?_)
      simpa [Date.Before] using before
    · rw [sameDay] at isDate
      obtain ⟨same, rfl, rfl⟩ := Date.mk.inj (Option.some.inj (isDate.symm.trans isDate'))
      obtain rfl := Int.ofNat.inj same
      refine .inr ⟨rfl, List.cons_lt_cons_iff.mpr (.inr ⟨rfl, fields_lt (by decide) (by omega) (by omega) (by omega) ?_⟩)⟩
      omega
  · rw [length_fields (by decide) ⟨isYear, by omega, by omega⟩, length_fields (by decide) ⟨isYear', by omega, by omega⟩]

/-- Every day number has one valid date, from which it is read back; a later day has a later
date.  The time in a name is the time that it was made for, in whole seconds; and the texts are
in the order of these. -/
theorem stamps_exact :
    (∀ z : {z : Int // Small z}, ∃ date, civilFromDays z.1 = some date ∧ date.Valid ∧ daysFromCivil date = some z.1) ∧
    (∀ y z : {z : Int // Small z}, y < z →
      ∃ d e, civilFromDays y.1 = some d ∧ civilFromDays z.1 = some e ∧ d.Before e) ∧
    (∀ (t : Instant) (pre ext : List Char), ∃ name, backupName pre ext t.1 = some name ∧
      parseBackupStamp name (pre ++ ['.']) ext = some (some (t.1 / 10 ^ 9 * 10 ^ 9))) ∧
    ∀ t u : Instant, ∃ text other, stamp t.1 = some text ∧ stamp u.1 = some other ∧
      (text < other ↔ t.1 / 10 ^ 9 < u.1 / 10 ^ 9) := by
  refine ⟨fun z => ?_, fun y z less => ?_, parse_backupName, fun t u => ?_⟩
  · obtain ⟨year, day, isDay, -, isDate, isRead⟩ := exists_date z.2
    exact ⟨_, isDate, valid_dateOf isDay, isRead⟩
  · obtain ⟨_, _, -, -, first, -⟩ := exists_date y.2
    obtain ⟨_, _, -, -, second, -⟩ := exists_date z.2
    exact ⟨_, _, first, second, before_of_lt y.2 z.2 less first second⟩
  · obtain ⟨_, _, _, -, -, -, -, -, isText⟩ := exists_stamp t
    obtain ⟨_, _, _, -, -, -, -, -, isOther⟩ := exists_stamp u
    refine ⟨_, _, isText, isOther, fun less => ?_, stamp_lt isText isOther⟩
    rcases lt_trichotomy (t.1 / 10 ^ 9) (u.1 / 10 ^ 9) with earlier | same | later
    · exact earlier
    · have alike : stamp t.1 = stamp u.1 := by
        simp only [stamp, secsOf_eq, same]
      obtain isSame := Option.some.inj (isText.symm.trans (alike.trans isOther))
      exact absurd (isSame ▸ less) (List.lt_irrefl _)
    · exact absurd less (List.lt_asymm (stamp_lt isOther isText later))

end Nfrp.LogFile
