import Mathlib.Data.Nat.Basic

/-!
# Handing out by notification

Items are put where those who want one look for them.  Who finds none is about to wait, and
whoever puts an item there gives one notification.  Only a single notification is stored for
those who do not wait yet: that is enough for one of them, but not for two.
-/

namespace Nfrp.Lib

/-- So many items lie there, are there without notification yet, and so many are woken,
about to wait, and waiting. -/
structure Handoff where
  idle : Nat := 0
  coming : Nat := 0
  woken : Nat := 0
  about : Nat := 0
  waiting : Nat := 0
  permit : Bool := false

namespace Handoff

variable (h : Handoff)

def deposit : Handoff := { h with idle := h.idle + 1, coming := h.coming + 1 }

def take : Handoff :=
  if h.idle = 0 then { h with about := h.about + 1 } else { h with idle := h.idle - 1 }

def notifyOne : Handoff :=
  if h.waiting = 0 then { h with permit := true } else { h with waiting := h.waiting - 1, woken := h.woken + 1 }

def notified : Handoff :=
  if h.permit then { h with permit := false, woken := h.woken + 1 } else { h with waiting := h.waiting + 1 }

/-- A notification would be lost now, and somebody might wait for it. -/
def Uncovered : Prop := h.permit ∧ 2 ≤ h.about ∧ h.woken + h.coming < h.idle

instance : Decidable h.Uncovered := inferInstanceAs (Decidable (_ ∧ _ ∧ _))

/-- For every item somebody is woken or will be, as far as somebody waits or will wait;
`held` are notifications in somebody's hand. -/
structure Covered (held : Nat) (h : Handoff) : Prop where
  waiting : h.waiting ≠ 0 → h.permit = false ∧ h.idle ≤ h.woken + h.coming + held
  one : 1 ≤ h.about → h.permit = true ∨ h.idle ≤ h.woken + h.coming + held
  many : 2 ≤ h.about → h.idle ≤ h.woken + h.coming + held + h.permit.toNat

namespace Covered

variable {h : Handoff} {held : Nat}

theorem empty : Covered 0 {} := ⟨fun some => absurd rfl some, nofun, nofun⟩

theorem mono {later : Handoff} {more : Nat} (covered : Covered held h) (idle : later.idle ≤ h.idle)
    (woken : h.woken + h.coming + held ≤ later.woken + later.coming + more) (about : later.about ≤ h.about)
    (waiting : later.waiting ≤ h.waiting) (permit : later.permit = h.permit) : Covered more later where
  waiting some := by
    obtain ⟨noPermit, enough⟩ := covered.waiting (by omega)
    exact ⟨permit.trans noPermit, by omega⟩
  one some := by
    rcases covered.one (by omega) with isPermit | enough
    · exact .inl (permit.trans isPermit)
    · exact .inr (by omega)
  many some := by
    have enough := covered.many (by omega)
    rw [permit]
    omega

theorem more (covered : Covered held h) : Covered (held + 1) h :=
  covered.mono le_rfl (Nat.le_succ _) le_rfl le_rfl rfl

theorem deposit (covered : Covered held h) : Covered held h.deposit where
  waiting some := by
    obtain ⟨noPermit, enough⟩ := covered.waiting some
    exact ⟨noPermit, show h.idle + 1 ≤ h.woken + (h.coming + 1) + held by omega⟩
  one some := (covered.one some).imp_right fun enough => show h.idle + 1 ≤ h.woken + (h.coming + 1) + held by omega
  many some := by
    have enough := covered.many some
    show h.idle + 1 ≤ h.woken + (h.coming + 1) + held + h.permit.toNat
    omega

theorem take (covered : Covered (held + 1) h) : Covered held h.take := by
  unfold Handoff.take
  split
  next none =>
    have enough : h.idle ≤ h.woken + h.coming + held := by omega
    exact ⟨fun some => ⟨(covered.waiting some).1, enough⟩, fun _ => .inr enough, fun _ => Nat.le_add_right_of_le enough⟩
  next some =>
    refine ⟨fun waiting => ?_, fun about => ?_, fun about => ?_⟩
    · obtain ⟨noPermit, enough⟩ := covered.waiting waiting
      exact ⟨noPermit, show h.idle - 1 ≤ h.woken + h.coming + held by omega⟩
    · exact (covered.one about).imp_right fun enough => show h.idle - 1 ≤ h.woken + h.coming + held by omega
    · have enough := covered.many about
      show h.idle - 1 ≤ h.woken + h.coming + held + h.permit.toNat
      omega

/-- A notification that is given covers as much as before, unless it is lost. -/
theorem notifyOne (covered : Covered (held + 1) h)
    (kept : h.permit → 2 ≤ h.about → h.idle ≤ h.woken + h.coming + held + 1) : Covered held h.notifyOne := by
  unfold Handoff.notifyOne
  split
  next nobody =>
    refine ⟨fun some => absurd nobody some, fun _ => .inl rfl, fun about => ?_⟩
    show h.idle ≤ h.woken + h.coming + held + 1
    have enough := covered.many about
    cases isPermit : h.permit with
    | true => exact kept isPermit about
    | false =>
      rw [isPermit] at enough
      exact enough
  next somebody =>
    obtain ⟨noPermit, enough⟩ := covered.waiting somebody
    have same : h.idle ≤ h.woken + 1 + h.coming + held := by omega
    exact ⟨fun _ => ⟨noPermit, same⟩, fun _ => .inr same, fun _ => Nat.le_add_right_of_le same⟩

/-- Who was about to wait has the notification that is stored, or waits. -/
theorem notified (covered : Covered held { h with about := h.about + 1 }) : Covered held h.notified := by
  have one := covered.one (Nat.le_add_left 1 h.about)
  unfold Handoff.notified
  split
  next isPermit =>
    have noneWaits : h.waiting = 0 := by
      by_contra some
      exact Bool.noConfusion (isPermit.symm.trans (covered.waiting some).1)
    have enough (about : 1 ≤ h.about) : h.idle ≤ h.woken + 1 + h.coming + held := by
      have many := covered.many (Nat.succ_le_succ about)
      rw [show Handoff.permit _ = true from isPermit] at many
      change h.idle ≤ h.woken + h.coming + held + 1 at many
      omega
    exact ⟨fun some => absurd noneWaits some, fun about => .inr (enough about),
      fun about => Nat.le_add_right_of_le (enough (Nat.le_of_succ_le about))⟩
  next noPermit =>
    have enough : h.idle ≤ h.woken + h.coming + held := one.resolve_left noPermit
    exact ⟨fun _ => ⟨Bool.eq_false_iff.mpr noPermit, enough⟩, fun _ => .inr enough,
      fun _ => Nat.le_add_right_of_le enough⟩

theorem none_waits (covered : Covered 0 h) (idle : h.idle ≠ 0) (coming : h.coming = 0) (woken : h.woken = 0) :
    h.waiting = 0 := by
  by_contra some
  have enough := (covered.waiting some).2
  omega

end Covered

end Handoff

/-! ## Who is woken

Who waits for a notification takes the permit that is stored, or joins the end of a line.
A notification goes to the first in the line; where nobody waits, it is stored, and a
second one is no more than the first.
-/

universe u

structure Notify (Waiter : Type u) where
  permit : Bool := false
  waiters : List Waiter := []

namespace Notify

variable {Waiter : Type u} (n : Notify Waiter)

def notifyOne : Notify Waiter × Option Waiter :=
  match n.waiters with
  | [] => ({ n with permit := true }, none)
  | first :: rest => ({ n with waiters := rest }, some first)

def notified (waiter : Waiter) : Notify Waiter × Bool :=
  if n.permit then ({ n with permit := false }, true) else ({ n with waiters := n.waiters ++ [waiter] }, false)

def notifyWaiters : Notify Waiter × List Waiter :=
  ({ n with waiters := [] }, n.waiters)

end Notify

end Nfrp.Lib
