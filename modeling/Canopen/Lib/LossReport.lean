import Mathlib.Algebra.BigOperators.Group.List.Basic
import Mathlib.Algebra.GroupWithZero.Nat

/-!
# Reports with losses

The reader of a sequence gets every element, or is told how many elements in a row are
lost. The reports of a reader tell of a sequence when they cut it into consecutive pieces,
one for each report.
-/

namespace LossReport

variable {α : Type}

inductive Report (α : Type)
  | item (a : α)
  /-- This many elements are lost. -/
  | lost (n : ℕ)
  deriving DecidableEq, Repr

def Report.size : Report α → ℕ
  | .item _ => 1
  | .lost n => n

def Report.item? : Report α → Option α
  | .item a => some a
  | .lost _ => none

/-- The elements that are handed over. -/
def items (reports : List (Report α)) : List α := reports.filterMap Report.item?

@[simp] theorem items_append (l l' : List (Report α)) : items (l ++ l') = items l ++ items l' :=
  List.filterMap_append

/-- Every report goes on where the one before it ended. -/
inductive Tells : List (Report α) → List α → Prop
  | nil : Tells [] []
  | item {reports : List (Report α)} {told : List α} (h : Tells reports told) (a : α) :
      Tells (reports ++ [.item a]) (told ++ [a])
  | lost {reports : List (Report α)} {told gone : List α} (h : Tells reports told) (hgone : gone ≠ []) :
      Tells (reports ++ [.lost gone.length]) (told ++ gone)

variable {reports before after : List (Report α)} {told : List α}

theorem Tells.items_sublist (h : Tells reports told) : (items reports).Sublist told := by
  induction h with
  | nil => exact List.Sublist.refl []
  | item h a ih =>
    rw [items_append]
    exact ih.append (List.Sublist.refl [a])
  | @lost reports told gone h hgone ih =>
    rw [items_append]
    exact ih.append (List.nil_sublist gone)

theorem Tells.length_eq (h : Tells reports told) : told.length = (reports.map Report.size).sum := by
  induction h with
  | nil => rfl
  | item h a ih => simp [ih, Report.size]
  | lost h hgone ih => simp [ih, Report.size]

/-- What comes first in the reports comes first in the sequence. -/
theorem Tells.split (h : Tells (before ++ after) told) :
    ∃ front back, told = front ++ back ∧ Tells before front ∧ Tells after back := by
  generalize hreports : before ++ after = reports at h
  induction h generalizing after with
  | nil =>
    obtain ⟨rfl, rfl⟩ := List.append_eq_nil_iff.mp hreports
    exact ⟨[], [], rfl, .nil, .nil⟩
  | @item reports told h a ih =>
    rcases List.eq_nil_or_concat after with rfl | ⟨after, r, rfl⟩
    · rw [List.append_nil] at hreports
      subst hreports
      exact ⟨told ++ [a], [], by simp, h.item a, .nil⟩
    · rw [List.concat_eq_append, ← List.append_assoc] at hreports
      obtain ⟨rfl, hlast⟩ := List.append_inj' hreports rfl
      cases hlast
      obtain ⟨front, back, rfl, hfront, hback⟩ := ih rfl
      rw [List.concat_eq_append]
      exact ⟨front, back ++ [a], by simp, hfront, hback.item a⟩
  | @lost reports told gone h hgone ih =>
    rcases List.eq_nil_or_concat after with rfl | ⟨after, r, rfl⟩
    · rw [List.append_nil] at hreports
      subst hreports
      exact ⟨told ++ gone, [], by simp, h.lost hgone, .nil⟩
    · rw [List.concat_eq_append, ← List.append_assoc] at hreports
      obtain ⟨rfl, hlast⟩ := List.append_inj' hreports rfl
      cases hlast
      obtain ⟨front, back, rfl, hfront, hback⟩ := ih rfl
      rw [List.concat_eq_append]
      exact ⟨front, back ++ gone, by simp, hfront, hback.lost hgone⟩

theorem Tells.lost_eq {n : ℕ} (h : Tells [.lost n] told) : told.length = n := by
  have hlen := h.length_eq
  simpa [Report.size] using hlen

theorem Tells.around_loss {n : ℕ} (h : Tells (before ++ .lost n :: after) told) :
    ∃ earlier gone later, told = earlier ++ gone ++ later ∧ gone.length = n ∧
      Tells before earlier ∧ Tells after later := by
  obtain ⟨earlier, rest, rfl, hbefore, hrest⟩ := h.split
  obtain ⟨gone, later, rfl, hgone, hafter⟩ : ∃ gone later, rest = gone ++ later ∧ Tells [.lost n] gone ∧
      Tells after later := Tells.split hrest
  exact ⟨earlier, gone, later, by simp, hgone.lost_eq, hbefore, hafter⟩

end LossReport
