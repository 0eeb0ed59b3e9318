import Nfrp.Lib.Transducer

/-!
Parsing a stream as it arrives.

A parser looks at what has arrived and either recognises an item at the front,
or wants more, or gives up.  `drain` takes off as many items as it can.  When
every item is recognised as soon as all of it has arrived, and not before,
draining any front of a stream of encoded items yields the items that have
arrived whole and keeps the front of the next one.
-/

namespace Nfrp.Lib

universe u v w x

variable {Input : Type u} {Value : Type v} {Item : Type w}

inductive Parsed (Value : Type v) where
  | incomplete
  | item (value : Value) (length : Nat)
  | broken
  deriving DecidableEq, Repr

/-- Take items off the front; what remains, or nothing after giving up. -/
def drain (parse : List Input → Parsed Value) :
    (fuel : Nat) → (input : List Input) → List Value × List Input
  | 0, input => ([], input)
  | fuel + 1, input =>
    match parse input with
    | .incomplete => ([], input)
    | .broken => ([], [])
    | .item value length =>
      let later := drain parse fuel (input.drop length)
      (value :: later.1, later.2)

/-- Items of the stream are recognised exactly when they have arrived. -/
structure Recognises (parse : List Input → Parsed Value) (encode : Item → List Input)
    (value : Item → Value) (valid : Item → Prop) : Prop where
  nonempty : ∀ item, valid item → encode item ≠ []
  whole : ∀ item rest, valid item →
    parse (encode item ++ rest) = .item (value item) (encode item).length
  partly : ∀ item input, valid item → input <+: encode item → input ≠ encode item →
    parse input = .incomplete

/-- Items of a header and a body: nothing is known before the header is there, and
nothing is taken before the body is. -/
theorem Recognises.of_header {parse : List Input → Parsed Value} {header body : Item → List Input}
    {value : Item → Value} {valid : Item → Prop} (nonempty : ∀ item, header item ≠ [])
    (inHeader : ∀ item input, valid item → input <+: header item → input.length < (header item).length →
      parse input = .incomplete)
    (inBody : ∀ item after, valid item → after.length < (body item).length →
      parse (header item ++ after) = .incomplete)
    (whole : ∀ item rest, valid item →
      parse (header item ++ (body item ++ rest)) = .item (value item) (header item ++ body item).length) :
    Recognises parse (fun item => header item ++ body item) value valid where
  nonempty item _ := List.append_ne_nil_of_left_ne_nil (nonempty item) _
  whole item rest isValid := by
    rw [List.append_assoc]
    exact whole item rest isValid
  partly item input isValid isFront notAll := by
    have shorter : input.length < (header item ++ body item).length := by
      refine Nat.lt_of_le_of_ne isFront.length_le ?_
      intro sameLength
      exact notAll (isFront.eq_of_length sameLength)
    rcases List.prefix_or_prefix_of_prefix isFront (List.prefix_append _ _) with short | covers
    · by_cases all : input.length < (header item).length
      · exact inHeader item input isValid short all
      · obtain rfl : input = header item := short.eq_of_length_le (Nat.le_of_not_lt all)
        have someBody : ([] : List Input).length < (body item).length := by simpa using shorter
        simpa using inBody item [] isValid someBody
    · obtain ⟨after, rfl⟩ := covers
      rw [List.length_append, List.length_append, Nat.add_lt_add_iff_left] at shorter
      exact inBody item after isValid shorter

/-- What is left is a front of the next item, and not all of it. -/
def Unfinished (encode : Item → List Input) (later : List Item) (rest : List Input) : Prop :=
  match later with
  | [] => rest = []
  | next :: _ => rest <+: encode next ∧ rest ≠ encode next

/-- Of the front of a stream, the first item is there whole or in part. -/
theorem first_cases {item stream input : List Input} (arrived : input <+: item ++ stream) :
    (∃ beyond, input = item ++ beyond ∧ beyond <+: stream) ∨ (input <+: item ∧ input ≠ item) := by
  by_cases complete : item <+: input
  · obtain ⟨beyond, rfl⟩ := complete
    exact .inl ⟨beyond, rfl, (List.prefix_append_right_inj _).mp arrived⟩
  · right
    rcases List.prefix_or_prefix_of_prefix arrived (List.prefix_append _ _) with inItem | covers
    · refine ⟨inItem, ?_⟩
      rintro rfl
      exact complete (List.prefix_refl _)
    · exact absurd covers complete

theorem drain_front {parse : List Input → Parsed Value} {encode : Item → List Input}
    {value : Item → Value} {valid : Item → Prop} (recognises : Recognises parse encode value valid)
    (noInput : parse [] = .incomplete) {items : List Item} (allValid : ∀ item ∈ items, valid item)
    {input : List Input} (arrived : input <+: items.flatMap encode) {fuel : Nat}
    (enough : input.length < fuel) :
    ∃ done later rest, items = done ++ later ∧ input = done.flatMap encode ++ rest ∧
      drain parse fuel input = (done.map value, rest) ∧ Unfinished encode later rest := by
  induction items generalizing input fuel with
  | nil =>
    obtain ⟨fuel, rfl⟩ := Nat.exists_eq_succ_of_ne_zero (Nat.ne_of_gt (Nat.zero_lt_of_lt enough))
    rw [List.flatMap_nil, List.prefix_nil] at arrived
    subst arrived
    exact ⟨[], [], [], rfl, rfl, by simp [drain, noInput], rfl⟩
  | cons item items ih =>
    obtain ⟨fuel, rfl⟩ := Nat.exists_eq_succ_of_ne_zero (Nat.ne_of_gt (Nat.zero_lt_of_lt enough))
    obtain ⟨isValid, allValid⟩ := List.forall_mem_cons.mp allValid
    rw [List.flatMap_cons] at arrived
    rcases first_cases arrived with ⟨beyond, rfl, inStream⟩ | ⟨inItem, notAll⟩
    · have nonempty := List.length_pos_iff.mpr (recognises.nonempty item isValid)
      have shorter : beyond.length < fuel := by
        rw [List.length_append] at enough
        omega
      obtain ⟨done, later, rest, split, input, drained, unfinished⟩ :=
        ih allValid inStream shorter
      refine ⟨item :: done, later, rest, by rw [split, List.cons_append], ?_, ?_, unfinished⟩
      · rw [List.flatMap_cons, List.append_assoc, ← input]
      · simp only [drain, recognises.whole item beyond isValid, List.drop_left, drained,
          List.map_cons]
    · refine ⟨[], item :: items, input, rfl, rfl, ?_, inItem, notAll⟩
      simp only [drain, recognises.partly item input isValid inItem notAll, List.map_nil]

theorem Unfinished.append {parse : List Input → Parsed Value} {encode : Item → List Input}
    {value : Item → Value} {valid : Item → Prop} (recognises : Recognises parse encode value valid)
    {later more : List Item} {rest : List Input} (unfinished : Unfinished encode later rest)
    (allValid : ∀ item ∈ more, valid item) : Unfinished encode (later ++ more) rest := by
  cases later with
  | cons next later => exact unfinished
  | nil =>
    obtain rfl : rest = [] := unfinished
    cases more with
    | nil => rfl
    | cons next more =>
      exact ⟨List.nil_prefix, (recognises.nonempty next (allValid next List.mem_cons_self)).symm⟩

theorem Unfinished.not_isPrefix {encode : Item → List Input} {next : Item} {later : List Item} {rest : List Input}
    (unfinished : Unfinished encode (next :: later) rest) : ¬encode next <+: rest := by
  intro isWhole
  exact unfinished.2 (unfinished.1.eq_of_length_le isWhole.length_le)

theorem Unfinished.eq_nil {encode : Item → List Input} {later : List Item} {rest : List Input}
    (unfinished : Unfinished encode later rest) (all : rest = later.flatMap encode) :
    later = [] ∧ rest = [] := by
  cases later with
  | nil => exact ⟨rfl, all⟩
  | cons next more =>
    obtain ⟨isFront, notAll⟩ := unfinished
    rw [all, List.flatMap_cons] at isFront notAll
    have short := isFront.length_le
    rw [List.length_append] at short
    have noMore : more.flatMap encode = [] := List.length_eq_zero_iff.mp (by omega)
    rw [noMore, List.append_nil] at notAll
    exact absurd rfl notAll

section Stateful

variable {State : Type x}

/-- Take items off the front with a parser that changes with each of them; nothing
when it gives up. -/
def drainFrom (parse : State → List Input → Parsed Value) (next : State → State) :
    (fuel : Nat) → State → (input : List Input) → Option (List Value × State × List Input)
  | 0, state, input => some ([], state, input)
  | fuel + 1, state, input =>
    match parse state input with
    | .incomplete => some ([], state, input)
    | .broken => none
    | .item value length =>
      (drainFrom parse next fuel (next state) (input.drop length)).map fun later => (value :: later.1, later.2)

def encodeFrom (encode : State → Item → List Input) (next : State → State) : State → List Item → List (List Input)
  | _, [] => []
  | state, item :: items => encode state item :: encodeFrom encode next (next state) items

def stateAfter (next : State → State) : Nat → State → State
  | 0, state => state
  | count + 1, state => stateAfter next count (next state)

theorem stateAfter_add (next : State → State) (first second : Nat) (state : State) :
    stateAfter next (first + second) state = stateAfter next second (stateAfter next first state) := by
  induction first generalizing state with
  | zero => rw [Nat.zero_add, stateAfter]
  | succ first ih =>
    rw [Nat.succ_add]
    exact ih _

theorem encodeFrom_append (encode : State → Item → List Input) (next : State → State) (state : State)
    (items later : List Item) :
    encodeFrom encode next state (items ++ later) =
      encodeFrom encode next state items ++ encodeFrom encode next (stateAfter next items.length state) later := by
  induction items generalizing state with
  | nil => rfl
  | cons item items ih => exact congrArg (encode state item :: ·) (ih _)

theorem drainFrom_front {parse : State → List Input → Parsed Value} {encode : State → Item → List Input}
    {next : State → State} {value : Item → Value} {valid : Item → Prop}
    (recognises : ∀ state, Recognises (parse state) (encode state) value valid)
    (noInput : ∀ state, parse state [] = .incomplete) {items : List Item} (allValid : ∀ item ∈ items, valid item)
    {state : State} {input : List Input} (arrived : input <+: (encodeFrom encode next state items).flatten) {fuel : Nat}
    (enough : input.length < fuel) :
    ∃ done later rest, items = done ++ later ∧ input = (encodeFrom encode next state done).flatten ++ rest ∧
      drainFrom parse next fuel state input = some (done.map value, stateAfter next done.length state, rest) ∧
      Unfinished (encode (stateAfter next done.length state)) later rest := by
  induction items generalizing input fuel state with
  | nil =>
    obtain ⟨fuel, rfl⟩ := Nat.exists_eq_succ_of_ne_zero (Nat.ne_of_gt (Nat.zero_lt_of_lt enough))
    obtain rfl : input = [] := List.prefix_nil.mp arrived
    exact ⟨[], [], [], rfl, rfl, by simp [drainFrom, noInput, stateAfter], rfl⟩
  | cons item items ih =>
    obtain ⟨fuel, rfl⟩ := Nat.exists_eq_succ_of_ne_zero (Nat.ne_of_gt (Nat.zero_lt_of_lt enough))
    obtain ⟨isValid, allValid⟩ := List.forall_mem_cons.mp allValid
    rw [encodeFrom, List.flatten_cons] at arrived
    rcases first_cases arrived with ⟨beyond, rfl, inStream⟩ | ⟨inItem, notAll⟩
    · have nonempty := List.length_pos_iff.mpr ((recognises state).nonempty item isValid)
      have shorter : beyond.length < fuel := by
        rw [List.length_append] at enough
        omega
      obtain ⟨done, later, rest, split, input, drained, unfinished⟩ :=
        ih allValid inStream shorter
      refine ⟨item :: done, later, rest, by rw [split, List.cons_append], ?_, ?_, unfinished⟩
      · rw [encodeFrom, List.flatten_cons, List.append_assoc, ← input]
      · simp only [drainFrom, (recognises state).whole item beyond isValid, List.drop_left, drained, Option.map_some,
          List.map_cons, List.length_cons, stateAfter]
    · refine ⟨[], item :: items, input, rfl, rfl, ?_, inItem, notAll⟩
      simp only [drainFrom, (recognises state).partly item input isValid inItem notAll, List.map_nil, List.length_nil,
        stateAfter]

end Stateful

/-- Some of the stream arrives, or the next item is asked for. -/
inductive Feed (Input : Type u) where
  | arrive (chunk : List Input)
  | call

namespace Feed

def arrived : List (Feed Input) → List Input
  | [] => []
  | .arrive chunk :: events => chunk ++ arrived events
  | .call :: events => arrived events

theorem arrived_append (events more : List (Feed Input)) : arrived (events ++ more) = arrived events ++ arrived more := by
  induction events with
  | nil => rfl
  | cons event events ih =>
    cases event with
    | arrive chunk => rw [List.cons_append, arrived, arrived, ih, List.append_assoc]
    | call => exact ih

/-- What is held, and what the calls have returned. -/
structure Held (Input : Type u) (Value : Type v) where
  buffer : List Input := []
  got : List Value := []

def step (parse : List Input → Parsed Value) (held : Held Input Value) : Feed Input → Option (Held Input Value)
  | .arrive chunk => some { held with buffer := held.buffer ++ chunk }
  | .call =>
    match parse held.buffer with
    | .incomplete => some held
    | .broken => none
    | .item value length => some ⟨held.buffer.drop length, held.got ++ [value]⟩

def run (parse : List Input → Parsed Value) : List (Feed Input) → Held Input Value → Option (Held Input Value)
  | [], held => some held
  | event :: events, held => (step parse held event).bind (run parse events)

section Step

variable {parse : List Input → Parsed Value} {held : Held Input Value}

theorem step_call_item {value : Value} {item beyond : List Input} (isBuffer : held.buffer = item ++ beyond)
    (found : parse held.buffer = .item value item.length) :
    step parse held .call = some ⟨beyond, held.got ++ [value]⟩ := by
  rw [step, found]
  dsimp only
  rw [isBuffer, List.drop_left]

theorem step_call_incomplete (waits : parse held.buffer = .incomplete) : step parse held .call = some held := by
  rw [step, waits]

theorem run_calls_incomplete (waits : parse held.buffer = .incomplete) (count : Nat) :
    run parse (List.replicate count .call) held = some held := by
  induction count with
  | zero => rfl
  | succ count ih =>
    rw [List.replicate_succ, run, step_call_incomplete waits]
    exact ih

end Step

theorem run_append (parse : List Input → Parsed Value) (events more : List (Feed Input)) (held : Held Input Value) :
    run parse (events ++ more) held = (run parse events held).bind (run parse more) := by
  induction events generalizing held with
  | nil => rfl
  | cons event events ih =>
    rw [List.cons_append, run, run]
    cases step parse held event with
    | none => rfl
    | some held => exact ih held

/-- So many of the items have been returned, and the buffer is what has arrived of the
others. -/
structure Returned (encode : Item → List Input) (value : Item → Value) (items : List Item) (seen : List Input)
    (done later : List Item) (held : Held Input Value) : Prop where
  split : items = done ++ later
  got : held.got = done.map value
  seen : seen = done.flatMap encode ++ held.buffer

section Law

variable {parse : List Input → Parsed Value} {encode : Item → List Input} {value : Item → Value}
  {valid : Item → Prop} {items : List Item}

theorem Returned.initially : Returned encode value items [] [] items {} where
  split := rfl
  got := rfl
  seen := rfl

theorem Returned.buffer_isPrefix {seen : List Input} {done later : List Item} {held : Held Input Value}
    (returned : Returned encode value items seen done later held) (arrived : seen <+: items.flatMap encode) :
    held.buffer <+: later.flatMap encode := by
  rwa [returned.seen, returned.split, List.flatMap_append, List.prefix_append_right_inj] at arrived

theorem Returned.arrive {seen : List Input} {done later : List Item} {held : Held Input Value}
    (returned : Returned encode value items seen done later held) (chunk : List Input) :
    Returned encode value items (seen ++ chunk) done later { held with buffer := held.buffer ++ chunk } where
  split := returned.split
  got := returned.got
  seen := by rw [returned.seen, List.append_assoc]

/-- A call returns the next item if all of it is there, and nothing if not. -/
theorem Returned.call (recognises : Recognises parse encode value valid) (noInput : parse [] = .incomplete)
    (allValid : ∀ item ∈ items, valid item) {seen : List Input} {done later : List Item} {held : Held Input Value}
    (returned : Returned encode value items seen done later held) (arrived : seen <+: items.flatMap encode) :
    (Unfinished encode later held.buffer ∧ parse held.buffer = .incomplete) ∨
      ∃ next rest beyond, later = next :: rest ∧ held.buffer = encode next ++ beyond ∧
        parse held.buffer = .item (value next) (encode next).length ∧
        Returned encode value items seen (done ++ [next]) rest ⟨beyond, held.got ++ [value next]⟩ := by
  have inLater := returned.buffer_isPrefix arrived
  cases later with
  | nil =>
    have nothing : held.buffer = [] := List.prefix_nil.mp inLater
    exact .inl ⟨nothing, by rw [nothing, noInput]⟩
  | cons next rest =>
    have isValid : valid next := by
      apply allValid
      rw [returned.split]
      exact List.mem_append_right _ List.mem_cons_self
    rw [List.flatMap_cons] at inLater
    rcases first_cases inLater with ⟨beyond, isBuffer, -⟩ | ⟨inItem, notAll⟩
    · refine .inr ⟨next, rest, beyond, rfl, isBuffer, ?_, ?_, ?_, ?_⟩
      · rw [isBuffer]
        exact recognises.whole next beyond isValid
      · rw [returned.split, List.append_assoc, List.singleton_append]
      · rw [returned.got, List.map_append, List.map_singleton]
      · rw [returned.seen, isBuffer, List.flatMap_append, List.flatMap_singleton, List.append_assoc]
    · exact .inl ⟨⟨inItem, notAll⟩, recognises.partly next _ isValid inItem notAll⟩

theorem Returned.run (recognises : Recognises parse encode value valid) (noInput : parse [] = .incomplete)
    (allValid : ∀ item ∈ items, valid item) {events : List (Feed Input)} {seen : List Input} {done later : List Item}
    {held : Held Input Value} (returned : Returned encode value items seen done later held)
    (inStream : seen ++ arrived events <+: items.flatMap encode) :
    ∃ more rest after, Feed.run parse events held = some after ∧
      Returned encode value items (seen ++ arrived events) (done ++ more) rest after := by
  induction events generalizing seen done later held with
  | nil =>
    refine ⟨[], later, held, rfl, ?_⟩
    rwa [arrived, List.append_nil, List.append_nil]
  | cons event events ih =>
    cases event with
    | arrive chunk =>
      rw [arrived, ← List.append_assoc] at inStream ⊢
      exact ih (returned.arrive chunk) inStream
    | call =>
      rw [arrived] at inStream ⊢
      have soFar := (List.prefix_append seen _).trans inStream
      rw [Feed.run]
      rcases returned.call recognises noInput allValid soFar with
        ⟨-, waits⟩ | ⟨next, rest, beyond, rfl, isBuffer, isItem, after⟩
      · rw [step_call_incomplete waits]
        exact ih returned inStream
      · obtain ⟨more, last, final, ran, holds⟩ := ih after inStream
        refine ⟨next :: more, last, final, ?_, ?_⟩
        · rw [step_call_item isBuffer isItem]
          exact ran
        · rwa [List.append_assoc] at holds

/-- As many calls as there are items return all of them that are there. -/
theorem Returned.calls (recognises : Recognises parse encode value valid) (noInput : parse [] = .incomplete)
    (allValid : ∀ item ∈ items, valid item) {seen : List Input} {done later : List Item} {held : Held Input Value}
    (returned : Returned encode value items seen done later held) (arrived : seen <+: items.flatMap encode)
    {count : Nat} (enough : later.length ≤ count) :
    ∃ more rest after, Feed.run parse (List.replicate count .call) held = some after ∧
      Returned encode value items seen (done ++ more) rest after ∧ Unfinished encode rest after.buffer := by
  induction count generalizing done later held with
  | zero =>
    obtain rfl : later = [] := List.length_eq_zero_iff.mp (Nat.le_zero.mp enough)
    refine ⟨[], [], held, rfl, by rwa [List.append_nil], ?_⟩
    exact List.prefix_nil.mp (returned.buffer_isPrefix arrived)
  | succ count ih =>
    rcases returned.call recognises noInput allValid arrived with
      ⟨unfinished, waits⟩ | ⟨next, rest, beyond, rfl, isBuffer, isItem, after⟩
    · exact ⟨[], later, held, run_calls_incomplete waits _, by rwa [List.append_nil], unfinished⟩
    · have fewer : rest.length ≤ count := Nat.le_of_succ_le_succ enough
      obtain ⟨more, last, final, ran, holds, unfinished⟩ := ih after fewer
      refine ⟨next :: more, last, final, ?_, ?_, unfinished⟩
      · rw [List.replicate_succ, Feed.run, step_call_item isBuffer isItem]
        exact ran
      · rwa [List.append_assoc] at holds

end Law

end Feed

/-! ## Pieces, however they are cut

A parser that has settled on an item, or given up, is not swayed by what arrives
later.  Then a stream is drained in pieces to the same effect as at once.
-/

section Pieces

structure Settled (parse : List Input → Parsed Value) : Prop where
  advances : ∀ {input value length}, parse input = .item value length → 0 < length ∧ length ≤ input.length
  keeps : ∀ {input}, parse input ≠ .incomplete → ∀ more, parse (input ++ more) = parse input

/-- Somewhere behind whole items the parser gives up. -/
inductive Breaks (parse : List Input → Parsed Value) : List Input → Prop where
  | here {input : List Input} (broken : parse input = .broken) : Breaks parse input
  | later {input : List Input} {value : Value} {length : Nat} (item : parse input = .item value length)
      (behind : Breaks parse (input.drop length)) : Breaks parse input

def drainAll (parse : List Input → Parsed Value) (input : List Input) : List Value × List Input :=
  drain parse (input.length + 1) input

/-- One call: what was held and a piece are drained. -/
def absorb (parse : List Input → Parsed Value) (held piece : List Input) : List Input × List Value :=
  ((drainAll parse (held ++ piece)).2, (drainAll parse (held ++ piece)).1)

variable {parse : List Input → Parsed Value}

theorem drainAll_incomplete {input : List Input} (waits : parse input = .incomplete) :
    drainAll parse input = ([], input) := by
  rw [drainAll, drain, waits]

theorem drainAll_broken {input : List Input} (broken : parse input = .broken) : drainAll parse input = ([], []) := by
  rw [drainAll, drain, broken]

theorem Breaks.not_incomplete {input : List Input} (breaks : Breaks parse input) : parse input ≠ .incomplete := by
  intro waits
  cases breaks with
  | here broken => simp [waits] at broken
  | later item behind => simp [waits] at item

theorem Breaks.behind {input : List Input} {value : Value} {length : Nat} (breaks : Breaks parse input)
    (item : parse input = .item value length) : Breaks parse (input.drop length) := by
  cases breaks with
  | here broken => simp [item] at broken
  | later found behind =>
    rw [item] at found
    cases found
    exact behind

namespace Settled

variable (settled : Settled parse)

include settled

theorem drop_lt {input : List Input} {value : Value} {length : Nat} (item : parse input = .item value length) :
    (input.drop length).length < input.length := by
  have inside := settled.advances item
  rw [List.length_drop]
  omega

/-- Fuel for every item is enough, and more makes no difference. -/
theorem drain_fuel {fuel other : Nat} {input : List Input} (enough : input.length < fuel) (also : input.length < other) :
    drain parse fuel input = drain parse other input := by
  induction fuel generalizing other input with
  | zero => exact absurd enough (Nat.not_lt_zero _)
  | succ fuel ih =>
    obtain ⟨other, rfl⟩ := Nat.exists_eq_succ_of_ne_zero (Nat.ne_of_gt (Nat.zero_lt_of_lt also))
    rw [drain, drain]
    cases result : parse input with
    | incomplete => rfl
    | broken => rfl
    | item value length =>
      have shorter := settled.drop_lt result
      simp only
      rw [@ih other (input.drop length) (by omega) (by omega)]

theorem drainAll_item {input : List Input} {value : Value} {length : Nat} (item : parse input = .item value length) :
    drainAll parse input =
      (value :: (drainAll parse (input.drop length)).1, (drainAll parse (input.drop length)).2) := by
  rw [drainAll, drain, item]
  simp only
  rw [drainAll, settled.drain_fuel (settled.drop_lt item) (Nat.lt_succ_self _)]

theorem keeps_item {input : List Input} {value : Value} {length : Nat} (item : parse input = .item value length)
    (more : List Input) :
    parse (input ++ more) = .item value length ∧ (input ++ more).drop length = input.drop length ++ more := by
  have found : parse input ≠ .incomplete := by simp [item]
  exact ⟨(settled.keeps found more).trans item, List.drop_append_of_le_length (settled.advances item).2⟩

theorem induct {motive : List Input → Prop} (incomplete : ∀ input, parse input = .incomplete → motive input)
    (broken : ∀ input, parse input = .broken → motive input)
    (item : ∀ input value length, parse input = .item value length → motive (input.drop length) → motive input)
    (input : List Input) : motive input := by
  induction size : input.length using Nat.strongRecOn generalizing input with
  | ind size ih =>
    subst size
    cases result : parse input with
    | incomplete => exact incomplete input result
    | broken => exact broken input result
    | item value length =>
      exact item input value length result (ih _ (settled.drop_lt result) _ rfl)

/-- What is left is the end of the input, which the parser could not use yet. -/
theorem drainAll_rest {input : List Input} (goesOn : ¬Breaks parse input) :
    parse (drainAll parse input).2 = .incomplete ∧ (drainAll parse input).2 <:+ input := by
  induction input using settled.induct with
  | incomplete input waits =>
    rw [drainAll_incomplete waits]
    exact ⟨waits, List.suffix_refl _⟩
  | broken input broken => exact absurd (.here broken) goesOn
  | item input value length item ih =>
    obtain ⟨waits, isEnd⟩ := ih fun behind => goesOn (.later item behind)
    rw [settled.drainAll_item item]
    exact ⟨waits, isEnd.trans (List.drop_suffix _ _)⟩

/-- As long as nothing broke, what arrives later is parsed behind what was left. -/
theorem drainAll_append {input : List Input} (goesOn : ¬Breaks parse input) (more : List Input) :
    drainAll parse (input ++ more) =
      ((drainAll parse input).1 ++ (drainAll parse ((drainAll parse input).2 ++ more)).1,
        (drainAll parse ((drainAll parse input).2 ++ more)).2) := by
  induction input using settled.induct with
  | incomplete input waits =>
    rw [drainAll_incomplete waits]
    rfl
  | broken input broken => exact absurd (.here broken) goesOn
  | item input value length item ih =>
    obtain ⟨stillItem, dropped⟩ := settled.keeps_item item more
    have behind := ih fun behind => goesOn (.later item behind)
    rw [settled.drainAll_item stillItem, dropped, behind, settled.drainAll_item item]
    rfl

theorem breaks_append_iff {input : List Input} (goesOn : ¬Breaks parse input) (more : List Input) :
    Breaks parse (input ++ more) ↔ Breaks parse ((drainAll parse input).2 ++ more) := by
  induction input using settled.induct with
  | incomplete input waits => rw [drainAll_incomplete waits]
  | broken input broken => exact absurd (.here broken) goesOn
  | item input value length item ih =>
    obtain ⟨stillItem, dropped⟩ := settled.keeps_item item more
    rw [settled.drainAll_item item, ← ih fun behind => goesOn (.later item behind), ← dropped]
    exact ⟨fun breaks => breaks.behind stillItem, fun behind => .later stillItem behind⟩

theorem breaks_append {input : List Input} (breaks : Breaks parse input) (more : List Input) :
    Breaks parse (input ++ more) ∧ drainAll parse (input ++ more) = drainAll parse input ∧
      (drainAll parse input).2 = [] := by
  induction breaks with
  | @here input broken =>
    have found : parse input ≠ .incomplete := by simp [broken]
    have still := (settled.keeps found more).trans broken
    rw [drainAll_broken broken, drainAll_broken still]
    exact ⟨.here still, rfl, rfl⟩
  | later item behind ih =>
    obtain ⟨stillItem, dropped⟩ := settled.keeps_item item more
    rw [settled.drainAll_item stillItem, settled.drainAll_item item, dropped]
    obtain ⟨breaks, same, nothing⟩ := ih
    rw [same]
    refine ⟨.later stillItem ?_, rfl, nothing⟩
    rwa [dropped]

/-- Pieces are drained as the whole is, and no call breaks, when the whole does not. -/
theorem absorb_pieces {held : List Input} (waits : parse held = .incomplete) (pieces : List (List Input))
    (goesOn : ¬Breaks parse (held ++ pieces.flatten)) :
    ((transduce (absorb parse) held pieces).2.flatten, (transduce (absorb parse) held pieces).1) =
        drainAll parse (held ++ pieces.flatten) ∧
      ∀ before piece after, pieces = before ++ piece :: after →
        ¬Breaks parse ((transduce (absorb parse) held before).1 ++ piece) := by
  induction pieces generalizing held with
  | nil =>
    rw [List.flatten_nil, List.append_nil, drainAll_incomplete waits]
    refine ⟨rfl, ?_⟩
    rintro before piece after split
    simp at split
  | cons first pieces ih =>
    rw [List.flatten_cons, ← List.append_assoc] at goesOn ⊢
    have firstGoesOn : ¬Breaks parse (held ++ first) := fun breaks => goesOn (settled.breaks_append breaks _).1
    rw [settled.breaks_append_iff firstGoesOn] at goesOn
    obtain ⟨same, noneBreaks⟩ := ih (settled.drainAll_rest firstGoesOn).1 goesOn
    refine ⟨?_, ?_⟩
    · rw [settled.drainAll_append firstGoesOn, ← same]
      rfl
    · rintro before piece after split
      cases before with
      | nil =>
        obtain ⟨rfl, -⟩ := List.cons.inj split
        exact firstGoesOn
      | cons _ before =>
        obtain ⟨rfl, rest⟩ := List.cons.inj split
        exact noneBreaks before piece after rest

/-- When the whole breaks, one call is the first to break, and up to it the pieces
were drained as the whole is. -/
theorem absorb_breaks {held : List Input} (waits : parse held = .incomplete) (pieces : List (List Input))
    (breaks : Breaks parse (held ++ pieces.flatten)) :
    ∃ before piece after, pieces = before ++ piece :: after ∧ ¬Breaks parse (held ++ before.flatten) ∧
      Breaks parse ((transduce (absorb parse) held before).1 ++ piece) ∧
      ((transduce (absorb parse) held (before ++ [piece])).2.flatten,
          (transduce (absorb parse) held (before ++ [piece])).1) =
        drainAll parse (held ++ pieces.flatten) := by
  induction pieces generalizing held with
  | nil =>
    rw [List.flatten_nil, List.append_nil] at breaks
    exact absurd waits breaks.not_incomplete
  | cons first pieces ih =>
    have notHeld : ¬Breaks parse held := fun breaks => breaks.not_incomplete waits
    rw [List.flatten_cons, ← List.append_assoc] at breaks ⊢
    by_cases atFirst : Breaks parse (held ++ first)
    · refine ⟨[], first, pieces, rfl, ?_, atFirst, ?_⟩
      · rwa [List.flatten_nil, List.append_nil]
      · rw [(settled.breaks_append atFirst _).2.1]
        simp [transduce, absorb]
    · rw [settled.breaks_append_iff atFirst] at breaks
      obtain ⟨before, piece, after, rfl, quiet, breaksAt, same⟩ :=
        ih (settled.drainAll_rest atFirst).1 breaks
      refine ⟨first :: before, piece, after, rfl, ?_, breaksAt, ?_⟩
      · rwa [List.flatten_cons, ← List.append_assoc, settled.breaks_append_iff atFirst]
      · rw [settled.drainAll_append atFirst, ← same]
        rfl

end Settled

end Pieces

end Nfrp.Lib
