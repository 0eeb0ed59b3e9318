import Mathlib.Data.List.Basic

/-!
Messages in a stream of items.

Some items end a message.  A reader that has seen a front of a stream made of
whole messages can split off the first of them exactly when all of it has
arrived, and never anything else.
-/

namespace Nfrp.Lib

universe u

variable {α : Type u} (isLast : α → Prop)

/-- One message: its final item ends it, and no other does. -/
def Whole (items : List α) : Prop :=
  ∃ front last, items = front ++ [last] ∧ isLast last ∧ ∀ item ∈ front, ¬ isLast item

def firstWhole [DecidablePred isLast] : List α → Option (List α × List α)
  | [] => none
  | item :: rest =>
    if isLast item then some ([item], rest)
    else (firstWhole rest).map fun found => (item :: found.1, found.2)

variable {isLast}

theorem Whole.ne_nil {items : List α} (whole : Whole isLast items) : items ≠ [] := by
  obtain ⟨front, last, rfl, _⟩ := whole
  simp

variable [DecidablePred isLast]

theorem firstWhole_append_of_not_last {front : List α} (notLast : ∀ item ∈ front, ¬ isLast item)
    (rest : List α) :
    firstWhole isLast (front ++ rest) =
      (firstWhole isLast rest).map fun found => (front ++ found.1, found.2) := by
  induction front with
  | nil => simp
  | cons item front ih =>
    obtain ⟨itemNotLast, frontNotLast⟩ := List.forall_mem_cons.mp notLast
    rw [List.cons_append, firstWhole, if_neg itemNotLast, ih frontNotLast,
      Option.map_map]
    rfl

theorem firstWhole_append {items : List α} (whole : Whole isLast items) (rest : List α) :
    firstWhole isLast (items ++ rest) = some (items, rest) := by
  obtain ⟨front, last, rfl, isEnd, notLast⟩ := whole
  rw [List.append_assoc, firstWhole_append_of_not_last notLast, List.singleton_append, firstWhole,
    if_pos isEnd]
  rfl

theorem firstWhole_eq_none_of_front {items queue : List α} (whole : Whole isLast items)
    (arrived : queue <+: items) (incomplete : queue ≠ items) : firstWhole isLast queue = none := by
  obtain ⟨front, last, rfl, -, notLast⟩ := whole
  have inFront : queue <+: front := by
    rcases List.prefix_concat_iff.mp arrived with isAll | isFront
    · exact absurd isAll incomplete
    · exact isFront
  have unended : firstWhole isLast (queue ++ []) = none := by
    rw [firstWhole_append_of_not_last fun item membership =>
      notLast item (inFront.subset membership)]
    rfl
  rwa [List.append_nil] at unended

/-- In a stream of whole messages, what splits off an arrived front is the
first message. -/
theorem firstWhole_eq_some_of_front {messages : List (List α)} {queue message rest : List α}
    (whole : ∀ items ∈ messages, Whole isLast items) (arrived : queue <+: messages.flatten)
    (found : firstWhole isLast queue = some (message, rest)) :
    queue = message ++ rest ∧ ∃ later, messages = message :: later := by
  cases messages with
  | nil =>
    rw [List.flatten_nil, List.prefix_nil] at arrived
    simp [arrived, firstWhole] at found
  | cons first later =>
    have firstIsWhole := whole first List.mem_cons_self
    rw [List.flatten_cons] at arrived
    have complete : first <+: queue := by
      rcases List.prefix_or_prefix_of_prefix arrived (List.prefix_append first later.flatten) with
        inFirst | complete
      · by_cases all : queue = first
        · exact all ▸ List.prefix_refl first
        · rw [firstWhole_eq_none_of_front firstIsWhole inFirst all] at found
          exact absurd found (by simp)
      · exact complete
    obtain ⟨beyond, rfl⟩ := complete
    rw [firstWhole_append firstIsWhole] at found
    obtain ⟨rfl, rfl⟩ := Prod.mk.inj (Option.some.inj found)
    exact ⟨rfl, later, rfl⟩

/-- Cut into blocks of one size, the last of which may be shorter. -/
def blocks (size : Nat) (items : List α) : List (List α) :=
  (List.range ((items.length + size - 1) / size)).map fun i => (items.drop (i * size)).take size

theorem flatMap_take_drop (size count : Nat) (items : List α) :
    ((List.range count).flatMap fun i => (items.drop (i * size)).take size) = items.take (count * size) := by
  induction count with
  | zero => simp
  | succ count ih =>
    rw [List.range_succ, List.flatMap_append, ih, List.flatMap_singleton,
      Nat.succ_mul, List.take_add]

theorem flatten_blocks {size : Nat} (positive : 0 < size) (items : List α) :
    (blocks size items).flatten = items := by
  have ceiling := Nat.lt_div_mul_add (a := items.length + size - 1) positive
  rw [blocks, ← List.flatMap_def, flatMap_take_drop]
  exact List.take_of_length_le (by omega)

theorem length_le_of_mem_blocks {size : Nat} {items block : List α} (membership : block ∈ blocks size items) :
    block.length ≤ size := by
  obtain ⟨i, -, rfl⟩ := List.mem_map.mp membership
  exact List.length_take_le _ _

section Mark

variable [DecidableEq α] {mark items front : List α} {i : Nat}

/-- Where a mark begins first. -/
def position (mark : List α) : List α → Option Nat
  | [] => none
  | item :: rest => if mark <+: item :: rest then some 0 else (position mark rest).map (· + 1)

theorem position_isPrefix (found : position mark items = some i) : mark <+: items.drop i := by
  induction items generalizing i with
  | nil => cases found
  | cons item rest ih =>
    rw [position] at found
    split at found
    next begins =>
      cases found
      exact begins
    next =>
      obtain ⟨j, later, rfl⟩ := Option.map_eq_some_iff.mp found
      exact ih later

theorem position_eq_zero (someMark : mark ≠ []) (begins : mark <+: items) : position mark items = some 0 := by
  cases items with
  | nil => exact absurd (List.prefix_nil.mp begins) someMark
  | cons item rest => exact if_pos begins

/-- The mark is found in the front of a list as soon as the front covers it. -/
theorem position_front (someMark : mark ≠ []) (found : position mark items = some i) (isFront : front <+: items) :
    position mark front = if i + mark.length ≤ front.length then some i else none := by
  induction items generalizing i front with
  | nil => cases found
  | cons item rest ih =>
    have positive := List.length_pos_iff.mpr someMark
    cases front with
    | nil =>
      rw [if_neg (by simp only [List.length_nil]; omega)]
      rfl
    | cons first front =>
      obtain ⟨rfl, inRest⟩ := List.cons_prefix_cons.mp isFront
      rw [position] at found
      split at found
      next begins =>
        cases found
        rw [Nat.zero_add]
        split
        next covers => exact position_eq_zero someMark (List.prefix_of_prefix_length_le begins isFront covers)
        next short =>
          have notHere : ¬mark <+: first :: front := fun here => short here.length_le
          have later : position mark front = none := by
            cases isLater : position mark front with
            | none => rfl
            | some j =>
              have inside := (position_isPrefix isLater).length_le
              rw [List.length_drop] at inside
              simp only [List.length_cons] at short
              omega
          rw [position, if_neg notHere, later]
          rfl
      next notHere =>
        obtain ⟨j, later, rfl⟩ := Option.map_eq_some_iff.mp found
        have notInFront : ¬mark <+: first :: front := fun here => notHere (here.trans isFront)
        rw [position, if_neg notInFront, ih later inRest, List.length_cons]
        split
        next covers =>
          rw [if_pos (by omega)]
          rfl
        next short =>
          rw [if_neg (by omega)]
          rfl

theorem position_append_of_notMem {first : α} {skipped : List α} (absent : first ∉ skipped) :
    position (first :: mark) (skipped ++ items) = (position (first :: mark) items).map (· + skipped.length) := by
  induction skipped with
  | nil => exact Option.map_id'.symm
  | cons item skipped ih =>
    obtain ⟨different, absentBehind⟩ := not_or.mp (mt List.mem_cons.mpr absent)
    have notHere : ¬first :: mark <+: item :: (skipped ++ items) := fun here =>
      different (List.cons_prefix_cons.mp here).1
    rw [List.cons_append, position, if_neg notHere, ih absentBehind, Option.map_map]
    rfl

theorem position_front_none (notFound : position mark items = none) (isFront : front <+: items) :
    position mark front = none := by
  induction items generalizing front with
  | nil =>
    rw [List.prefix_nil.mp isFront]
    rfl
  | cons item rest ih =>
    cases front with
    | nil => rfl
    | cons first front =>
      obtain ⟨rfl, inRest⟩ := List.cons_prefix_cons.mp isFront
      rw [position] at notFound
      split at notFound
      next => cases notFound
      next notHere =>
        have notInFront : ¬mark <+: first :: front := fun here => notHere (here.trans isFront)
        rw [position, if_neg notInFront, ih (Option.map_eq_none_iff.mp notFound) inRest]
        rfl

theorem position_of_front (someMark : mark ≠ []) (found : position mark front = some i) (isFront : front <+: items) :
    position mark items = some i := by
  cases inItems : position mark items with
  | none =>
    rw [position_front_none inItems isFront] at found
    cases found
  | some j =>
    rw [position_front someMark inItems isFront] at found
    split at found
    next => exact found
    next => cases found

end Mark

section Reading

variable (enough : List α → Prop) [DecidablePred enough]

def readUntil : (buf : List α) → (reads : List (List α)) → List α
  | buf, [] | buf, [] :: _ => buf
  | buf, (item :: more) :: later =>
    if enough (buf ++ item :: more) then buf ++ item :: more else readUntil (buf ++ item :: more) later

variable {enough}

/-- Where a number of items is enough, reading stops with the read that brings as many. -/
theorem readUntil_eq {buf : List α} {reads : List (List α)} {n : Nat} (nonempty : ∀ piece ∈ reads, piece ≠ [])
    (isEnough : ∀ front, front <+: buf ++ reads.flatten → (enough front ↔ n ≤ front.length)) (short : buf.length < n)
    (covers : n ≤ (buf ++ reads.flatten).length) :
    ∃ before piece after, reads = before ++ piece :: after ∧
      readUntil enough buf reads = buf ++ (before ++ [piece]).flatten ∧ (buf ++ before.flatten).length < n ∧
      n ≤ (buf ++ (before ++ [piece]).flatten).length := by
  induction reads generalizing buf with
  | nil =>
    rw [List.flatten_nil, List.append_nil] at covers
    exact absurd covers (Nat.not_le_of_lt short)
  | cons piece later ih =>
    obtain ⟨somePiece, laterNonempty⟩ := List.forall_mem_cons.mp nonempty
    obtain ⟨item, more, rfl⟩ := List.exists_cons_of_ne_nil somePiece
    rw [List.flatten_cons, ← List.append_assoc] at isEnough covers
    have here := isEnough _ (List.prefix_append _ _)
    rw [readUntil]
    by_cases reached : n ≤ (buf ++ item :: more).length
    · rw [if_pos (here.mpr reached)]
      refine ⟨[], item :: more, later, rfl, ?_, ?_, ?_⟩
      · simp
      · simpa using short
      · simpa using reached
    · rw [if_neg (mt here.mp reached)]
      obtain ⟨before, piece, after, rfl, result, stillShort, enoughNow⟩ :=
        ih laterNonempty isEnough (Nat.lt_of_not_le reached) covers
      rw [List.append_assoc] at result stillShort enoughNow
      exact ⟨(item :: more) :: before, piece, after, rfl, result, stillShort, enoughNow⟩

end Reading

end Nfrp.Lib
