import Nfrp.Lib.Incremental

/-!
Pieces of a stream.

A stream is sent in pieces, one for each message, and `whole` counts how many of
them have arrived with a number of items.  A writer with a state puts out one
piece after the other; a header goes in front of the first.
-/

namespace Nfrp.Lib

universe u v w

variable {α : Type u} {State : Type v} {Item : Type w}

/-- How many of the pieces are whole in that many items. -/
def whole : List (List α) → Nat → Nat
  | [], _ => 0
  | piece :: pieces, count => if piece.length ≤ count then whole pieces (count - piece.length) + 1 else 0

theorem whole_zero {pieces : List (List α)} (nonempty : ∀ piece ∈ pieces, piece ≠ []) : whole pieces 0 = 0 := by
  cases pieces with
  | nil => rfl
  | cons piece pieces =>
    have someItems := List.length_pos_iff.mpr (nonempty piece List.mem_cons_self)
    rw [whole, if_neg (Nat.not_le_of_lt someItems)]

theorem whole_append_of_le {first second : List (List α)} {count : Nat} (covered : first.flatten.length ≤ count) :
    whole (first ++ second) count = first.length + whole second (count - first.flatten.length) := by
  induction first generalizing count with
  | nil => simp
  | cons piece first ih =>
    rw [List.flatten_cons, List.length_append] at covered ⊢
    have inFirst : piece.length ≤ count := by omega
    rw [List.cons_append, whole, if_pos inFirst, ih (by omega), List.length_cons, Nat.sub_sub]
    omega

/-- What is cut into whole pieces and a front of the next one. -/
theorem whole_eq_of_unfinished {done later : List (List α)} {rest : List α} (unfinished : Unfinished id later rest) :
    whole (done ++ later) (done.flatten.length + rest.length) = done.length := by
  rw [whole_append_of_le (Nat.le_add_right _ _), Nat.add_sub_cancel_left]
  cases later with
  | nil => rfl
  | cons next later =>
    obtain ⟨isFront, notAll⟩ := unfinished
    have shorter : ¬next.length ≤ rest.length := by
      intro covers
      exact notAll (isFront.eq_of_length_le covers)
    rw [whole, if_neg shorter]
    rfl

theorem whole_congr {β : Type w} {pieces : List (List α)} {others : List (List β)}
    (sameLengths : pieces.map List.length = others.map List.length) (count : Nat) :
    whole pieces count = whole others count := by
  induction pieces generalizing others count with
  | nil =>
    cases others with
    | nil => rfl
    | cons other others => cases sameLengths
  | cons piece pieces ih =>
    cases others with
    | nil => cases sameLengths
    | cons other others =>
      obtain ⟨sameLength, sameRest⟩ := List.cons.inj sameLengths
      rw [whole, whole, sameLength, ih sameRest]

def withHeader (header : List α) : List (List α) → List (List α)
  | [] => []
  | piece :: pieces => (header ++ piece) :: pieces

theorem flatten_withHeader (header : List α) {pieces : List (List α)} (some : pieces ≠ []) :
    (withHeader header pieces).flatten = header ++ pieces.flatten := by
  cases pieces with
  | nil => exact absurd rfl some
  | cons piece pieces => simp [withHeader]

theorem withHeader_flatten_isPrefix (header : List α) (pieces : List (List α)) :
    (withHeader header pieces).flatten <+: header ++ pieces.flatten := by
  cases pieces with
  | nil => exact List.nil_prefix
  | cons piece pieces => simp [withHeader]

theorem whole_withHeader_of_lt {header : List α} {pieces : List (List α)} {count : Nat} (short : count < header.length) :
    whole (withHeader header pieces) count = 0 := by
  cases pieces with
  | nil => rfl
  | cons piece pieces =>
    rw [withHeader, whole, if_neg]
    rw [List.length_append]
    omega

theorem whole_withHeader (header : List α) (pieces : List (List α)) (count : Nat) :
    whole (withHeader header pieces) (header.length + count) = whole pieces count := by
  cases pieces with
  | nil => rfl
  | cons piece pieces =>
    have sameTest : (header ++ piece).length ≤ header.length + count ↔ piece.length ≤ count := by
      rw [List.length_append]
      omega
    have sameRest : header.length + count - (header ++ piece).length = count - piece.length := by
      rw [List.length_append]
      omega
    rw [withHeader, whole, whole, sameRest]
    exact if_congr sameTest rfl rfl

/-- What a writer puts out for one item after the other. -/
def outputs (write : State → Item → State × List α) : State → List Item → List (List α)
  | _, [] => []
  | state, item :: items => (write state item).2 :: outputs write (write state item).1 items

theorem length_outputs (write : State → Item → State × List α) (state : State) (items : List Item) :
    (outputs write state items).length = items.length := by
  induction items generalizing state with
  | nil => rfl
  | cons item items ih => exact congrArg (· + 1) (ih _)

def writeGroup (encode : State → Item → List α) (next : State → State) (state : State) (group : List Item) :
    State × List α :=
  (stateAfter next group.length state, (encodeFrom encode next state group).flatten)

theorem flatten_outputs_writeGroup (encode : State → Item → List α) (next : State → State) (state : State)
    (groups : List (List Item)) :
    (outputs (writeGroup encode next) state groups).flatten = (encodeFrom encode next state groups.flatten).flatten := by
  induction groups generalizing state with
  | nil => rfl
  | cons group groups ih =>
    rw [outputs, List.flatten_cons, ih, List.flatten_cons, encodeFrom_append, List.flatten_append]
    rfl

/-- Of groups of texts as many are whole in what was put out for them as in what was
recognised of it. -/
theorem whole_outputs_writeGroup {β : Type w} {encode : State → List β → List α} {next : State → State} {state : State}
    {groups : List (List (List β))} {done later : List (List β)} {rest : List α}
    (nonempty : ∀ text ∈ groups.flatten, text ≠ []) (split : groups.flatten = done ++ later)
    (unfinished : Unfinished (encode (stateAfter next done.length state)) later rest) :
    whole (outputs (writeGroup encode next) state groups)
        ((encodeFrom encode next state done).flatten.length + rest.length) =
      whole (groups.map List.flatten) done.flatten.length := by
  induction groups generalizing state done with
  | nil => rfl
  | cons group groups ih =>
    rw [List.flatten_cons] at split nonempty
    show whole ((encodeFrom encode next state group).flatten ::
        outputs (writeGroup encode next) (stateAfter next group.length state) groups) _ =
      whole (group.flatten :: groups.map List.flatten) _
    rw [whole, whole]
    rcases List.append_eq_append_iff.mp split with ⟨done, rfl, inLater⟩ | ⟨more, rfl, rfl⟩
    · rw [List.length_append, stateAfter_add] at unfinished
      have recursive := ih (fun text member => nonempty text (List.mem_append_right _ member))
        inLater unfinished
      rw [encodeFrom_append, List.flatten_append, List.flatten_append, List.length_append, List.length_append,
        if_pos (by omega), if_pos (by omega), Nat.add_assoc, Nat.add_sub_cancel_left, Nat.add_sub_cancel_left,
        recursive]
    · cases more with
      | nil =>
        rw [List.append_nil]
        have recursive := @ih _ [] (fun text member =>
          nonempty text (List.mem_append_right _ member)) rfl unfinished
        rw [if_pos (by omega), if_pos (Nat.le_refl _), Nat.add_sub_cancel_left, Nat.sub_self]
        simpa [encodeFrom] using recursive
      | cons text more =>
        obtain ⟨isFront, notAll⟩ := unfinished
        have shorter : rest.length < (encode (stateAfter next done.length state) text).length :=
          Nat.lt_of_le_of_ne isFront.length_le fun same => notAll (isFront.eq_of_length same)
        have someText : 0 < text.length := List.length_pos_iff.mpr (nonempty text (by simp))
        rw [encodeFrom_append, List.flatten_append, encodeFrom, List.flatten_cons, List.length_append,
          List.length_append, if_neg (by omega), List.flatten_append, List.flatten_cons, List.length_append,
          List.length_append, if_neg (by omega)]

end Nfrp.Lib
