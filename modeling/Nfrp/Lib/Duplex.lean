import Mathlib.Logic.Function.Basic

/-!
Two parties and what lies between them.

An action changes the party that takes it and may look at the other.  A relation
between a sender and a receiver is kept in either direction when it is kept
whichever of the two acts.
-/

namespace Nfrp.Lib

universe u v

inductive Side where
  | left
  | right
  deriving DecidableEq, Repr

def Side.peer : Side → Side
  | .left => .right
  | .right => .left

@[simp]
theorem Side.peer_peer (side : Side) : side.peer.peer = side := by
  cases side <;> rfl

theorem Side.peer_ne (side : Side) : side.peer ≠ side := by
  cases side <;> decide

theorem Side.eq_or_eq_peer (side other : Side) : side = other ∨ side = other.peer := by
  cases side <;> cases other <;> simp [peer]

variable {Party : Type u} {Action : Type v}

def duplexStep (act : Party → Party → Action → Party) (w : Side → Party) (event : Side × Action) :
    Side → Party :=
  Function.update w event.1 (act (w event.1) (w event.1.peer) event.2)

theorem duplexStep_cases (act : Party → Party → Action → Party) (w : Side → Party)
    (event : Side × Action) (side : Side) :
    (event.1 = side ∧ duplexStep act w event side = act (w side) (w side.peer) event.2 ∧
      duplexStep act w event side.peer = w side.peer) ∨
    (event.1 = side.peer ∧ duplexStep act w event side = w side ∧
      duplexStep act w event side.peer = act (w side.peer) (w side) event.2) := by
  obtain ⟨actor, action⟩ := event
  rcases actor.eq_or_eq_peer side with rfl | rfl
  · exact .inl ⟨rfl, Function.update_self .., Function.update_of_ne actor.peer_ne ..⟩
  · refine .inr ⟨rfl, Function.update_of_ne side.peer_ne.symm .., ?_⟩
    rw [duplexStep, Function.update_self, Side.peer_peer]

/-! ## Reliable channels

The specification of everything that is meant to be a pipe: items go in, and a
front of them has come out.  That nothing is lost, repeated or reordered is
part of the type, so an implementation that refines a channel has the property
in every state it reaches.
-/

/-- What was put in, and the front of it that was handed out. -/
structure Fifo (α : Type u) where
  accepted : List α
  handed : List α
  inOrder : handed <+: accepted

namespace Fifo

variable {α : Type u}

def empty : Fifo α where
  accepted := []
  handed := []
  inOrder := List.prefix_refl []

def accept (channel : Fifo α) (items : List α) : Fifo α where
  accepted := channel.accepted ++ items
  handed := channel.handed
  inOrder := channel.inOrder.trans (List.prefix_append _ _)

/-- A channel only ever accepts more, or hands out what comes next. -/
inductive Step : Fifo α → Fifo α → Prop where
  | accept (channel : Fifo α) (items : List α) : Step channel (channel.accept items)
  | hand (channel : Fifo α) (items : List α) (next : channel.handed ++ items <+: channel.accepted) :
      Step channel ⟨channel.accepted, channel.handed ++ items, next⟩

end Fifo

end Nfrp.Lib
