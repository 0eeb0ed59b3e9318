import Mathlib.Data.List.Basic

/-!
Transducers: machines that turn each item of a list into another one.

A stream cipher is a transducer whose state follows the text that passes
through it.  Working on a list in pieces is working on it at once, and a second
machine that undoes every single step undoes the whole.
-/

namespace Nfrp.Lib

universe u v w

variable {State : Type u} {Input : Type v} {Output : Type w}

def transduce (step : State → Input → State × Output) : State → List Input → State × List Output
  | state, [] => (state, [])
  | state, item :: rest =>
    let after := step state item
    let later := transduce step after.1 rest
    (later.1, after.2 :: later.2)

variable {step : State → Input → State × Output}

@[simp]
theorem length_transduce (state : State) (items : List Input) :
    (transduce step state items).2.length = items.length := by
  induction items generalizing state with
  | nil => rfl
  | cons item rest ih =>
    rw [transduce, List.length_cons, List.length_cons, ih]

theorem transduce_append (state : State) (first second : List Input) :
    transduce step state (first ++ second) =
      ((transduce step (transduce step state first).1 second).1,
        (transduce step state first).2 ++
          (transduce step (transduce step state first).1 second).2) := by
  induction first generalizing state with
  | nil => rfl
  | cons item first ih =>
    simp only [List.cons_append, transduce, ih]

/-- A machine that undoes single steps, ending in the same state, undoes lists. -/
theorem transduce_undo {undo : State → Output → State × Input}
    (inverse : ∀ state item, undo state (step state item).2 = ((step state item).1, item))
    (state : State) (items : List Input) :
    transduce undo state (transduce step state items).2 = ((transduce step state items).1, items) := by
  induction items generalizing state with
  | nil => rfl
  | cons item rest ih =>
    simp only [transduce, inverse, ih]

theorem transduce_front {shorter longer : List Input} (isFront : shorter <+: longer) (state : State) :
    (transduce step state shorter).2 <+: (transduce step state longer).2 := by
  obtain ⟨rest, rfl⟩ := isFront
  rw [transduce_append]
  exact List.prefix_append _ _

/-- A layer that text passes through, or nothing in its place. -/
def through (layer : State → List Input → State × List Input) :
    Option State → List Input → Option State × List Input
  | none, items => (none, items)
  | some state, items => (some (layer state items).1, (layer state items).2)

end Nfrp.Lib
