import Mathlib.Data.List.Basic
import Mathlib.Logic.Function.Iterate
import Mathlib.Logic.Relation

/-!
Runs of deterministic event-driven systems.

Everything a system cannot decide for itself (what a peer sends, what a clock
shows, how far an inner operation gets) is part of the event, so one step is a
function and a run is a fold.  `run_invariant` is the induction rule of every
unconditional invariant and `run_invariant_of_meets` that of the invariants
which need a condition on each step taken; `throughout_iff_runMeets` says when that
condition is exact.
-/

namespace Nfrp.Lib

universe u v w

variable {State : Type u} {Event : Type v}

def run (step : State → Event → State) : State → List Event → State
  | state, [] => state
  | state, event :: events => run step (step state event) events

@[simp]
theorem run_cons (step : State → Event → State) (state : State) (event : Event)
    (events : List Event) :
    run step state (event :: events) = run step (step state event) events := rfl

theorem run_append (step : State → Event → State) (state : State) (events later : List Event) :
    run step state (events ++ later) = run step (run step state events) later := by
  induction events generalizing state with
  | nil => rfl
  | cons event events ih => exact ih _

/-- What every step preserves holds at the end of every run. -/
theorem run_invariant {step : State → Event → State} {invariant : State → Prop}
    (preserved : ∀ state event, invariant state → invariant (step state event))
    {state : State} (initially : invariant state) (events : List Event) :
    invariant (run step state events) := by
  induction events generalizing state with
  | nil => exact initially
  | cons event events ih =>
    exact ih (preserved state event initially)

/-- Every event of the run is taken in a state that meets the condition. -/
def RunMeets (step : State → Event → State) (condition : State → Event → Prop) :
    State → List Event → Prop
  | _, [] => True
  | state, event :: events =>
    condition state event ∧ RunMeets step condition (step state event) events

instance RunMeets.decidable (step : State → Event → State)
    (condition : State → Event → Prop) [∀ state event, Decidable (condition state event)] :
    (state : State) → (events : List Event) → Decidable (RunMeets step condition state events)
  | _, [] => .isTrue trivial
  | state, event :: events =>
    have := RunMeets.decidable step condition (step state event) events
    inferInstanceAs (Decidable (condition state event ∧
      RunMeets step condition (step state event) events))

theorem runMeets_of_forall {step : State → Event → State} {condition : State → Event → Prop}
    (always : ∀ state event, condition state event) (state : State) (events : List Event) :
    RunMeets step condition state events := by
  induction events generalizing state with
  | nil => exact trivial
  | cons event events ih => exact ⟨always state event, ih _⟩

theorem runMeets_mem (step : State → Event → State) (state : State) {events past : List Event}
    (subset : events ⊆ past) : RunMeets step (fun _ event => event ∈ past) state events := by
  induction events generalizing state with
  | nil => exact trivial
  | cons event events ih =>
    exact ⟨subset List.mem_cons_self, ih _ fun _ later => subset (List.mem_cons_of_mem _ later)⟩

theorem runMeets_append {step : State → Event → State} {condition : State → Event → Prop}
    {state : State} {events later : List Event} :
    RunMeets step condition state (events ++ later) ↔
      RunMeets step condition state events ∧ RunMeets step condition (run step state events) later := by
  induction events generalizing state with
  | nil => exact (and_iff_right trivial).symm
  | cons event events ih =>
    exact (and_congr_right fun _ => ih).trans and_assoc.symm

theorem runMeets_and {step : State → Event → State} {condition other : State → Event → Prop}
    {state : State} {events : List Event} :
    RunMeets step (fun state event => condition state event ∧ other state event) state events ↔
      RunMeets step condition state events ∧ RunMeets step other state events := by
  induction events generalizing state with
  | nil => exact (and_self_iff.trans Iff.rfl).symm
  | cons event events ih =>
    exact (and_congr_right fun _ => ih).trans and_and_and_comm

/-- What every step that meets the condition preserves holds at the end of
every run whose steps all meet it. -/
theorem run_invariant_of_meets {step : State → Event → State}
    {condition : State → Event → Prop} {invariant : State → Prop}
    (preserved : ∀ state event, condition state event →
      invariant state → invariant (step state event))
    {state : State} (initially : invariant state) {events : List Event}
    (meets : RunMeets step condition state events) :
    invariant (run step state events) := by
  induction events generalizing state with
  | nil => exact initially
  | cons event events ih =>
    exact ih (preserved state event meets.1 initially) meets.2

/-- Conditions that agree wherever an invariant holds are met by the same runs. -/
theorem runMeets_congr {step : State → Event → State} {condition other : State → Event → Prop}
    {invariant : State → Prop} (preserved : ∀ state event, invariant state → invariant (step state event))
    (agree : ∀ state event, invariant state → (condition state event ↔ other state event))
    {state : State} (initially : invariant state) (events : List Event) :
    RunMeets step condition state events ↔ RunMeets step other state events := by
  induction events generalizing state with
  | nil => exact Iff.rfl
  | cons event events ih =>
    exact and_congr (agree state event initially) (ih (preserved state event initially))

def Throughout (step : State → Event → State) (property : State → Prop) : State → List Event → Prop
  | state, [] => property state
  | state, event :: events => property state ∧ Throughout step property (step state event) events

theorem Throughout.last {step : State → Event → State} {property : State → Prop} {state : State} {events : List Event}
    (all : Throughout step property state events) : property (run step state events) := by
  induction events generalizing state with
  | nil => exact all
  | cons event events ih => exact ih all.2

/-- What every step that meets the condition preserves, and has the property, has it
throughout. -/
theorem throughout_of_runMeets {step : State → Event → State} {condition : State → Event → Prop}
    {invariant property : State → Prop}
    (preserved : ∀ state event, condition state event → invariant state → invariant (step state event))
    (holds : ∀ state, invariant state → property state)
    {state : State} (initially : invariant state) {events : List Event} (meets : RunMeets step condition state events) :
    Throughout step property state events := by
  induction events generalizing state with
  | nil => exact holds state initially
  | cons event events ih =>
    exact ⟨holds state initially, ih (preserved state event meets.1 initially) meets.2⟩

/-- Where steps that meet the condition keep an invariant that has the property, and
others lose the property at once, the runs with the property are those whose steps
all meet the condition. -/
theorem throughout_iff_runMeets {step : State → Event → State} {admissible condition : State → Event → Prop}
    {invariant property : State → Prop}
    (preserved : ∀ state event, admissible state event → condition state event →
      invariant state → invariant (step state event))
    (holds : ∀ state, invariant state → property state)
    (breaks : ∀ state event, admissible state event → invariant state →
      ¬condition state event → ¬property (step state event))
    {state : State} (initially : invariant state) {events : List Event}
    (meets : RunMeets step admissible state events) :
    Throughout step property state events ↔ RunMeets step condition state events := by
  induction events generalizing state with
  | nil => exact ⟨fun _ => trivial, fun _ => holds state initially⟩
  | cons event events ih =>
    by_cases taken : condition state event
    · have next := ih (preserved state event meets.1 taken initially) meets.2
      exact ⟨fun all => ⟨taken, next.mp all.2⟩, fun all => ⟨holds state initially, next.mpr all.2⟩⟩
    · refine ⟨fun all => absurd ?_ (breaks state event meets.1 initially taken), fun all => absurd all.1 taken⟩
      cases events with
      | nil => exact all.2
      | cons later events => exact all.2.1

/-- What is observed after a run was set by the last step that set it, or is there from the
beginning. -/
theorem observed_run_iff {Value : Type w} {step : State → Event → State} {observe : State → Option Value}
    {sets : State → Event → Prop} {events : List Event}
    (keeps : ∀ event ∈ events, ∀ state, ¬sets state event → observe (step state event) = observe state) {state : State}
    {value : Value} :
    observe (run step state events) = some value ↔
      (∃ before event after, events = before ++ event :: after ∧ sets (run step state before) event ∧
        observe (step (run step state before) event) = some value ∧
        RunMeets step (fun state event => ¬sets state event) (step (run step state before) event) after) ∨
      observe state = some value ∧ RunMeets step (fun state event => ¬sets state event) state events := by
  induction events generalizing state with
  | nil =>
    constructor
    · exact fun isThere => .inr ⟨isThere, trivial⟩
    · rintro (⟨before, event, after, isEvents, -⟩ | ⟨isThere, -⟩)
      · exact absurd isEvents.symm (List.append_ne_nil_of_right_ne_nil _ (List.cons_ne_nil _ _))
      · exact isThere
  | cons event events ih =>
    have keepsLater := fun later member => keeps later (List.mem_cons_of_mem _ member)
    rw [run_cons, ih keepsLater]
    constructor
    · rintro (⟨before, last, after, rfl, isSet, isValue, kept⟩ | ⟨isThere, kept⟩)
      · exact .inl ⟨event :: before, last, after, rfl, isSet, isValue, kept⟩
      · by_cases isSet : sets state event
        · exact .inl ⟨[], event, events, rfl, isSet, isThere, kept⟩
        · rw [keeps event List.mem_cons_self state isSet] at isThere
          exact .inr ⟨isThere, isSet, kept⟩
    · rintro (⟨before, last, after, isEvents, isSet, isValue, kept⟩ | ⟨isThere, isKept, kept⟩)
      · cases before with
        | nil =>
          obtain ⟨rfl, rfl⟩ := List.cons.inj isEvents
          exact .inr ⟨isValue, kept⟩
        | cons first before =>
          obtain ⟨rfl, rfl⟩ := List.cons.inj isEvents
          exact .inl ⟨before, last, after, rfl, isSet, isValue, kept⟩
      · rw [← keeps event List.mem_cons_self state isKept] at isThere
        exact .inr ⟨isThere, kept⟩

/-- Forward simulation: if every step that meets the condition is matched by
steps of an abstract system, so is every run whose steps all meet it. -/
theorem run_simulates {Abstract : Type w} {step : State → Event → State}
    {condition : State → Event → Prop} {abstractStep : Abstract → Abstract → Prop}
    {related : State → Abstract → Prop}
    (matched : ∀ state event abstract, condition state event → related state abstract →
      ∃ next, Relation.ReflTransGen abstractStep abstract next ∧ related (step state event) next)
    {state : State} {abstract : Abstract} (initially : related state abstract) {events : List Event}
    (meets : RunMeets step condition state events) :
    ∃ last, Relation.ReflTransGen abstractStep abstract last ∧ related (run step state events) last := by
  induction events generalizing state abstract with
  | nil => exact ⟨abstract, .refl, initially⟩
  | cons event events ih =>
    obtain ⟨next, steps, isRelated⟩ := matched state event abstract meets.1 initially
    obtain ⟨last, moreSteps, atEnd⟩ := ih isRelated meets.2
    exact ⟨last, steps.trans moreSteps, atEnd⟩

/-- Systems that take every step together, and are related by each that meets the condition,
are related at the end of every run whose steps all meet it. -/
theorem run_related {Abstract : Type w} {step : State → Event → State} {condition : State → Event → Prop}
    {abstractStep : Abstract → Event → Abstract} {related : State → Abstract → Prop}
    (matched : ∀ state event abstract, condition state event → related state abstract →
      related (step state event) (abstractStep abstract event))
    {state : State} {abstract : Abstract} (initially : related state abstract) {events : List Event}
    (meets : RunMeets step condition state events) :
    related (run step state events) (run abstractStep abstract events) := by
  induction events generalizing state abstract with
  | nil => exact initially
  | cons event events ih =>
    exact ih (matched state event abstract meets.1 initially) meets.2

/-- Where every step reaches an end or brings a measure down, an end is reached. -/
theorem exists_iterate {step : State → State} {invariant final : State → Prop} (measure : State → Nat)
    (preserved : ∀ state, invariant state → invariant (step state))
    (falls : ∀ state, invariant state → ¬final state → final (step state) ∨ measure (step state) < measure state)
    {state : State} (initially : invariant state) : ∃ k, final (step^[k] state) := by
  induction left : measure state using Nat.strongRecOn generalizing state with
  | ind left' ih =>
    by_cases isFinal : final state
    · exact ⟨0, isFinal⟩
    rcases falls state initially isFinal with ended | less
    · exact ⟨1, ended⟩
    · obtain ⟨k, reached⟩ := ih _ (left ▸ less) (preserved state initially) rfl
      exact ⟨k + 1, reached⟩

/-!
Noninterference by unwinding.

Some events of a run are hidden.  If hidden events keep a relation between two
states when only one of them takes the event, and all others keep it when both
do, then a run and the run without its hidden events end in related states.
-/

/-- The run without its hidden events; what is hidden depends on the state. -/
def erased (step : State → Event → State) (hidden : State → Event → Prop)
    [∀ state event, Decidable (hidden state event)] : State → List Event → List Event
  | _, [] => []
  | state, event :: events =>
    if hidden state event then erased step hidden (step state event) events
    else event :: erased step hidden (step state event) events

theorem run_erased {step : State → Event → State} {hidden condition : State → Event → Prop}
    [∀ state event, Decidable (hidden state event)] {related : State → State → Prop}
    (skips : ∀ state other event, condition state event → related state other → hidden state event →
      related (step state event) other)
    (follows : ∀ state other event, condition state event → related state other → ¬ hidden state event →
      related (step state event) (step other event))
    {state other : State} (initially : related state other) {events : List Event}
    (meets : RunMeets step condition state events) :
    related (run step state events) (run step other (erased step hidden state events)) := by
  induction events generalizing state other with
  | nil => exact initially
  | cons event events ih =>
    rw [erased]
    by_cases isHidden : hidden state event
    · rw [if_pos isHidden]
      exact ih (skips state other event meets.1 initially isHidden) meets.2
    · rw [if_neg isHidden]
      exact ih (follows state other event meets.1 initially isHidden) meets.2

end Nfrp.Lib
