import Mathlib.Data.List.Nodup
import Mathlib.Data.List.Perm.Basic
import Mathlib.Data.List.Range

/-!
# Waiting in line

Whoever comes is given the next number, joins the end of a line or goes at once, and leaves
with an end that is written down.  `Placed` says that nobody is lost and nobody is in two
places, and `InTurn` that those who are served are served in the order they came.
-/

namespace Nfrp.Lib

universe u

variable {End : Type u} {ends later : List (Nat × End)} {line coming came : List Nat} {id next : Nat} {reason : End}

/-- Everybody has left, stands in the line, or is still coming. -/
def Placed (ends : List (Nat × End)) (line coming : List Nat) (next : Nat) : Prop :=
  (ends.map Prod.fst ++ line ++ coming).Perm (List.range next)

namespace Placed

theorem nodup (placed : Placed ends line coming next) : (ends.map Prod.fst ++ line ++ coming).Nodup :=
  placed.nodup_iff.mpr List.nodup_range

theorem leave (placed : Placed ends (later.map Prod.fst ++ line) coming next) :
    Placed (ends ++ later) line coming next := by
  rw [Placed, List.map_append, List.append_assoc (ends.map Prod.fst)]
  exact placed

theorem turnAway (placed : Placed ends line (id :: coming) next) : Placed (ends ++ [(id, reason)]) line coming next := by
  refine List.Perm.trans ?_ placed
  rw [List.map_append, List.append_assoc, List.append_assoc, List.append_assoc]
  have same : (id :: (line ++ coming)).Perm (line ++ id :: coming) := List.perm_middle.symm
  exact same.append_left _

theorem join (placed : Placed ends line (id :: coming) next) : Placed ends (line ++ [id]) coming next := by
  refine List.Perm.trans (.of_eq ?_) placed
  rw [List.append_assoc, List.append_assoc, List.append_assoc]
  rfl

theorem come (placed : Placed ends line coming next) : Placed ends line (next :: coming) (next + 1) := by
  rw [Placed, List.range_succ]
  refine List.perm_middle.trans ?_
  exact (placed.cons next).trans (List.perm_append_singleton next _).symm

theorem perm {coming' : List Nat} (placed : Placed ends line coming next) (same : coming'.Perm coming) :
    Placed ends line coming' next :=
  (same.append_left _).trans placed

end Placed

def servedIds (served : End → Bool) (ends : List (Nat × End)) : List Nat :=
  (ends.filter fun e => served e.2).map Prod.fst

/-- Nobody who came later is served before, and those in the line are next. -/
structure InTurn (served : End → Bool) (came : List Nat) (ends : List (Nat × End)) (line : List Nat) : Prop where
  order : (servedIds served ends ++ line).Sublist came
  once : came.Nodup
  gone : came ⊆ ends.map Prod.fst ++ line

variable {served : End → Bool}

theorem servedIds_append : servedIds served (ends ++ later) = servedIds served ends ++ servedIds served later := by
  rw [servedIds, List.filter_append, List.map_append]
  rfl

theorem servedIds_eq_nil (unserved : ∀ e ∈ later, served e.2 = false) : servedIds served later = [] := by
  rw [servedIds, List.filter_eq_nil_iff.mpr fun e member => Bool.eq_false_iff.mp (unserved e member)]
  rfl

namespace InTurn

theorem leave (inTurn : InTurn served came ends (later.map Prod.fst ++ line))
    (unserved : ∀ e ∈ later, served e.2 = false) : InTurn served came (ends ++ later) line where
  order := by
    rw [servedIds_append, servedIds_eq_nil unserved, List.append_nil]
    exact ((List.sublist_append_right _ line).append_left _).trans inTurn.order
  once := inTurn.once
  gone := by
    rw [List.map_append, List.append_assoc]
    exact inTurn.gone

theorem serve (inTurn : InTurn served came ends (id :: line)) (isServed : served reason = true) :
    InTurn served came (ends ++ [(id, reason)]) line where
  order := by
    have alone : servedIds served [(id, reason)] = [id] := by simp [servedIds, isServed]
    rw [servedIds_append, alone, List.append_assoc]
    exact inTurn.order
  once := inTurn.once
  gone := by
    rw [List.map_append, List.append_assoc]
    exact inTurn.gone

theorem fresh (inTurn : InTurn served came ends line) (placed : Placed ends line (id :: coming) next) : id ∉ came :=
  fun member => List.disjoint_of_nodup_append placed.nodup (inTurn.gone member) List.mem_cons_self

theorem join (inTurn : InTurn served came ends line) (fresh : id ∉ came) :
    InTurn served (came ++ [id]) ends (line ++ [id]) where
  order := by
    rw [← List.append_assoc]
    exact inTurn.order.append_right [id]
  once := inTurn.once.append (List.nodup_singleton id) (List.disjoint_singleton.mpr fresh)
  gone := by
    rw [← List.append_assoc]
    exact List.append_subset.mpr
      ⟨List.subset_append_of_subset_left _ inTurn.gone, List.subset_append_right _ _⟩

/-- Where nobody is in the line, who comes may be served at once. -/
theorem serveNow (inTurn : InTurn served came ends []) (fresh : id ∉ came) (isServed : served reason = true) :
    InTurn served (came ++ [id]) (ends ++ [(id, reason)]) [] :=
  (inTurn.join fresh).serve isServed

/-- Who leaves before the line may be anybody that is not served. -/
theorem bypass (inTurn : InTurn served came ends line) (unserved : ∀ e ∈ later, served e.2 = false) :
    InTurn served came (ends ++ later) line where
  order := by
    rw [servedIds_append, servedIds_eq_nil unserved, List.append_nil]
    exact inTurn.order
  once := inTurn.once
  gone := by
    intro other member
    rw [List.map_append, List.append_assoc]
    rcases List.mem_append.mp (inTurn.gone member) with hasLeft | inLine
    · exact List.mem_append_left _ hasLeft
    · exact List.mem_append_right _ (List.mem_append_right _ inLine)

theorem turnAway (inTurn : InTurn served came ends line) (fresh : id ∉ came) (unserved : served reason = false) :
    InTurn served (came ++ [id]) (ends ++ [(id, reason)]) line := by
  have alone : ∀ e ∈ [(id, reason)], served e.2 = false := List.forall_mem_singleton.mpr unserved
  have bypassed := inTurn.bypass alone
  refine ⟨bypassed.order.trans (List.sublist_append_left _ _), (inTurn.join fresh).once, ?_⟩
  have written : id ∈ (ends ++ [(id, reason)]).map Prod.fst := List.mem_map.mpr ⟨_, List.mem_concat_self, rfl⟩
  exact List.append_subset.mpr ⟨bypassed.gone, List.cons_subset.mpr ⟨List.mem_append_left _ written, List.nil_subset _⟩⟩

end InTurn

end Nfrp.Lib
