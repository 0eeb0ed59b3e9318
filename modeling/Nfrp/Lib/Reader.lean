import Mathlib.Data.List.DropRight

/-!
Readers of text.

A reader takes a value off the front of a text, or fails and takes nothing.
`StopsAt` says that a reader does not look past certain characters: what it
makes of a text stays the same when such a character and anything behind it is
appended.  It carries a fact about a whole text over to the text in a context.
-/

namespace Nfrp.Lib

/-- The characters with the property White_Space. -/
def isWhitespace (c : Char) : Bool :=
  let n := c.toNat
  (9 ≤ n && n ≤ 13) || n == 0x20 || n == 0x85 || n == 0xa0 || n == 0x1680 || (0x2000 ≤ n && n ≤ 0x200a) ||
    n == 0x2028 || n == 0x2029 || n == 0x202f || n == 0x205f || n == 0x3000

def trimmed (text : List Char) : List Char :=
  (text.dropWhile isWhitespace).rdropWhile isWhitespace

def trim (s : String) : String :=
  String.ofList (trimmed s.toList)

theorem exists_trimmed (text : List Char) :
    ∃ before after, text = before ++ trimmed text ++ after ∧
      (∀ c ∈ before, isWhitespace c) ∧ ∀ c ∈ after, isWhitespace c := by
  refine ⟨text.takeWhile isWhitespace, (text.dropWhile isWhitespace).rtakeWhile isWhitespace, ?_, ?_, ?_⟩
  · rw [List.append_assoc, trimmed, List.rdropWhile_append_rtakeWhile, List.takeWhile_append_dropWhile]
  · intro c member
    exact List.mem_takeWhile_imp member
  · intro c member
    exact List.mem_rtakeWhile_imp member

/-- What precedes the first `c`, and what follows it. -/
def splitOnce (c : Char) : List Char → Option (List Char × List Char)
  | [] => none
  | head :: tail =>
    if head = c then some ([], tail)
    else (splitOnce c tail).map fun parts => (head :: parts.1, parts.2)

/-- What precedes the last `c`, and what follows it. -/
def rsplitOnce (c : Char) (text : List Char) : Option (List Char × List Char) :=
  (splitOnce c text.reverse).map fun parts => (parts.2.reverse, parts.1.reverse)

theorem splitOnce_eq_some {c : Char} {text before after : List Char}
    (split : splitOnce c text = some (before, after)) : text = before ++ c :: after ∧ c ∉ before := by
  induction text generalizing before with
  | nil => cases split
  | cons head tail ih =>
    rw [splitOnce] at split
    split at split
    next found =>
      obtain ⟨rfl, rfl⟩ := Prod.mk.inj (Option.some.inj split)
      exact ⟨by rw [found, List.nil_append], List.not_mem_nil⟩
    next other =>
      obtain ⟨⟨front, rest⟩, splitTail, same⟩ := Option.map_eq_some_iff.mp split
      obtain ⟨rfl, rfl⟩ := Prod.mk.inj same
      obtain ⟨rfl, absent⟩ := ih splitTail
      refine ⟨rfl, ?_⟩
      rw [List.mem_cons, not_or]
      exact ⟨fun same => other same.symm, absent⟩

theorem splitOnce_append {c : Char} {before after : List Char} (absent : c ∉ before) :
    splitOnce c (before ++ c :: after) = some (before, after) := by
  induction before with
  | nil => rw [List.nil_append, splitOnce, if_pos rfl]
  | cons head tail ih =>
    rw [List.mem_cons, not_or] at absent
    rw [List.cons_append, splitOnce, if_neg (Ne.symm absent.1), ih absent.2]
    rfl

theorem rsplitOnce_append {c : Char} {before after : List Char} (absent : c ∉ after) :
    rsplitOnce c (before ++ c :: after) = some (before, after) := by
  rw [rsplitOnce, List.reverse_append, List.reverse_cons, List.append_assoc, List.singleton_append,
    splitOnce_append (by rwa [List.mem_reverse])]
  simp

abbrev Reader (α : Type) := List Char → Option (α × List Char)

namespace Reader

variable {α β : Type}

def pure (value : α) : Reader α :=
  fun text => some (value, text)

def bind (first : Reader α) (next : α → Reader β) : Reader β :=
  fun text => (first text).bind fun found => next found.1 found.2

def map (change : α → β) (first : Reader α) : Reader β :=
  first.bind fun value => pure (change value)

/-- The second reader is tried where the first fails. -/
def or (first second : Reader α) : Reader α :=
  fun text => (first text).or (second text)

def given (c : Char) : Reader Unit
  | [] => none
  | head :: tail => if head = c then some ((), tail) else none

def whole (reader : Reader α) (text : List Char) : Option α :=
  (reader text).bind fun found => if found.2 = [] then some found.1 else none

theorem whole_eq_some {reader : Reader α} {text : List Char} {value : α} :
    reader.whole text = some value ↔ reader text = some (value, []) := by
  unfold whole
  cases read : reader text with
  | none => simp
  | some found =>
    obtain ⟨other, rest⟩ := found
    by_cases empty : rest = [] <;> simp [empty]

/-- Nothing that begins with a stop character is looked at. -/
def StopsAt (stop : Char → Prop) (reader : Reader α) : Prop :=
  ∀ text rest, (∀ c ∈ rest.head?, stop c) →
    reader (text ++ rest) = (reader text).map fun found => (found.1, found.2 ++ rest)

/-- What is left is the end of the text. -/
def Consumes (reader : Reader α) : Prop :=
  ∀ ⦃text value rest⦄, reader text = some (value, rest) → rest <:+ text

variable {stop : Char → Prop}

theorem StopsAt.pure (value : α) : StopsAt stop (pure value) :=
  fun _ _ _ => rfl

theorem StopsAt.bind {first : Reader α} {next : α → Reader β} (firstStops : StopsAt stop first)
    (nextStops : ∀ value, StopsAt stop (next value)) : StopsAt stop (first.bind next) := by
  intro text rest stopped
  simp only [Reader.bind]
  rw [firstStops text rest stopped]
  cases first text with
  | none => rfl
  | some found => exact nextStops found.1 found.2 rest stopped

theorem StopsAt.map {change : α → β} {first : Reader α} (stops : StopsAt stop first) :
    StopsAt stop (first.map change) :=
  stops.bind fun _ => .pure _

theorem StopsAt.or {first second : Reader α} (firstStops : StopsAt stop first)
    (secondStops : StopsAt stop second) : StopsAt stop (first.or second) := by
  intro text rest stopped
  rw [Reader.or, Reader.or, firstStops text rest stopped, secondStops text rest stopped]
  cases first text <;> cases second text <;> rfl

theorem StopsAt.given {c : Char} (goesOn : ¬ stop c) : StopsAt stop (given c) := by
  intro text rest stopped
  cases text with
  | nil =>
    cases rest with
    | nil => rfl
    | cons head tail =>
      have other : head ≠ c := by
        rintro rfl
        exact goesOn (stopped head rfl)
      simp only [List.nil_append, Reader.given, if_neg other, Option.map_none]
  | cons head tail =>
    rw [List.cons_append, Reader.given, Reader.given]
    split <;> rfl

theorem Consumes.pure (value : α) : Consumes (pure value) := by
  rintro text _ rest ⟨⟩
  exact List.suffix_rfl

theorem Consumes.bind {first : Reader α} {next : α → Reader β} (firstConsumes : Consumes first)
    (nextConsumes : ∀ value, Consumes (next value)) : Consumes (first.bind next) := by
  intro text value rest read
  obtain ⟨⟨found, middle⟩, readFirst, readNext⟩ := Option.bind_eq_some_iff.mp read
  exact (nextConsumes found readNext).trans (firstConsumes readFirst)

theorem Consumes.map {change : α → β} {first : Reader α} (consumes : Consumes first) :
    Consumes (first.map change) :=
  consumes.bind fun _ => .pure _

theorem Consumes.given (c : Char) : Consumes (given c) := by
  intro text value rest read
  cases text with
  | nil => cases read
  | cons head tail =>
    rw [Reader.given] at read
    split at read
    · obtain ⟨-, rfl⟩ := Prod.mk.inj (Option.some.inj read)
      exact List.suffix_cons head tail
    · cases read

theorem StopsAt.eq_none {reader : Reader α} (stops : StopsAt stop reader) (fails : reader [] = none)
    {text : List Char} (stopped : ∀ c ∈ text.head?, stop c) : reader text = none := by
  have nothing := stops [] text stopped
  rw [fails] at nothing
  exact nothing

/-- What is read off a text that ends in a stop character is read off the part
before it. -/
theorem StopsAt.exists_of_append {reader : Reader α} (stops : StopsAt stop reader)
    {text rest after : List Char} {value : α} (stopped : ∀ c ∈ rest.head?, stop c)
    (read : reader (text ++ rest) = some (value, after)) :
    ∃ left, reader text = some (value, left) ∧ after = left ++ rest := by
  rw [stops text rest stopped] at read
  obtain ⟨⟨found, left⟩, readText, same⟩ := Option.map_eq_some_iff.mp read
  obtain ⟨rfl, rfl⟩ := Prod.mk.inj same
  exact ⟨left, readText, rfl⟩

/-- A text that is read as a whole by a reader that stops at white space has
none around it. -/
theorem trimmed_of_whole {reader : Reader α} (stops : StopsAt (isWhitespace ·) reader) (fails : reader [] = none)
    {text : List Char} {value : α} (read : reader.whole text = some value) : trimmed text = text := by
  rw [whole_eq_some] at read
  obtain ⟨before, after, parts, blankBefore, blankAfter⟩ := exists_trimmed text
  have noneBefore : before = [] := by
    cases before with
    | nil => rfl
    | cons c rest =>
      have blank : ∀ head ∈ text.head?, isWhitespace head := by
        intro head isHead
        rw [parts, List.cons_append, List.cons_append, List.head?_cons] at isHead
        rw [← Option.some.inj isHead]
        exact blankBefore c List.mem_cons_self
      rw [stops.eq_none fails blank] at read
      cases read
  subst noneBefore
  have blank : ∀ head ∈ after.head?, isWhitespace head :=
    fun head isHead => blankAfter head (List.mem_of_mem_head? isHead)
  rw [parts, List.nil_append] at read
  obtain ⟨left, -, nothing⟩ := stops.exists_of_append blank read
  obtain ⟨-, rfl⟩ := List.append_eq_nil_iff.mp nothing.symm
  rw [List.nil_append, List.append_nil] at parts
  exact parts.symm

end Reader

end Nfrp.Lib
