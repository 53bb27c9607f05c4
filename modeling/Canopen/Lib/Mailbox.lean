import Mathlib.Data.List.Induction
import Mathlib.Tactic.SplitIfs

/-!
# One-slot mailboxes

A mailbox holds at most one message between the one who puts it there and the one
who takes it. `step` is the automaton of its events, with `none` for an event that
must not happen; a history that the automaton accepts takes out every message that
was put in, once and in order.
-/

namespace Mailbox

variable {α : Type} [DecidableEq α]

inductive Event (α : Type)
  | put (a : α)
  /-- The message is offered and stays. -/
  | refused (a : α)
  | delivered (a : α)
  | dropped (a : α)
  /-- Something that must wait until the mailbox is empty. -/
  | needsEmpty
  deriving DecidableEq, Repr

/-- The message held after an event. -/
def step : Option α → Event α → Option (Option α)
  | none, .put a => some (some a)
  | none, .needsEmpty => some none
  | some b, .refused a => if a = b then some (some b) else none
  | some b, .delivered a => if a = b then some none else none
  | some b, .dropped a => if a = b then some none else none
  | _, _ => none

/-- The history leaves the mailbox with the message `held`. -/
def Accepts (l : List (Event α)) (held : Option α) : Prop := l.foldlM step none = some held

def puts (l : List (Event α)) : List α :=
  l.filterMap fun e => match e with
    | .put a => some a
    | _ => none

/-- The messages taken out, and whether they were delivered. -/
def settled (l : List (Event α)) : List (α × Bool) :=
  l.filterMap fun e => match e with
    | .delivered a => some (a, true)
    | .dropped a => some (a, false)
    | _ => none

omit [DecidableEq α] in
theorem puts_append (l l' : List (Event α)) : puts (l ++ l') = puts l ++ puts l' :=
  List.filterMap_append

omit [DecidableEq α] in
theorem settled_append (l l' : List (Event α)) : settled (l ++ l') = settled l ++ settled l' :=
  List.filterMap_append

theorem accepts_append {l l' : List (Event α)} {held held' : Option α} (h : Accepts l held)
    (h' : l'.foldlM step held = some held') : Accepts (l ++ l') held' := by
  unfold Accepts at h ⊢
  rw [List.foldlM_append, h]
  exact h'

theorem Accepts.split {l l' : List (Event α)} {held : Option α} (h : Accepts (l ++ l') held) :
    ∃ before, Accepts l before ∧ l'.foldlM step before = some held := by
  unfold Accepts at h
  rw [List.foldlM_append] at h
  exact Option.bind_eq_some_iff.mp h

/-- One event moves a message in, out, or not at all. -/
theorem step_balance {before held : Option α} {e : Event α} (h : step before e = some held) :
    before.toList ++ puts [e] = (settled [e]).map Prod.fst ++ held.toList := by
  cases before with
  | none =>
    cases e with
    | put a =>
      cases h
      rfl
    | needsEmpty =>
      cases h
      rfl
    | _ => cases h
  | some b =>
    cases e with
    | put a => cases h
    | needsEmpty => cases h
    | refused a =>
      simp only [step] at h
      split_ifs at h
      cases h
      rfl
    | delivered a =>
      simp only [step] at h
      split_ifs at h with heq
      cases h
      rw [heq]
      rfl
    | dropped a =>
      simp only [step] at h
      split_ifs at h with heq
      cases h
      rw [heq]
      rfl

/-- Every message put in is taken out once and in order, or still held. -/
theorem Accepts.balance {l : List (Event α)} {held : Option α} (h : Accepts l held) :
    puts l = (settled l).map Prod.fst ++ held.toList := by
  induction l using List.reverseRecOn generalizing held with
  | nil =>
    cases h
    rfl
  | append_singleton l e ih =>
    obtain ⟨before, hbefore, hlast⟩ := h.split
    have hstep : step before e = some held := by simpa using hlast
    calc puts (l ++ [e]) = puts l ++ puts [e] := puts_append l [e]
      _ = (settled l).map Prod.fst ++ (before.toList ++ puts [e]) := by
        rw [ih hbefore, List.append_assoc]
      _ = (settled l).map Prod.fst ++ ((settled [e]).map Prod.fst ++ held.toList) := by
        rw [step_balance hstep]
      _ = (settled (l ++ [e])).map Prod.fst ++ held.toList := by
        rw [settled_append, List.map_append, List.append_assoc]

theorem Accepts.put_empty {pre post : List (Event α)} {a : α} {held : Option α}
    (h : Accepts (pre ++ .put a :: post) held) : Accepts pre none := by
  obtain ⟨before, hbefore, hrest⟩ := h.split
  cases before with
  | none => exact hbefore
  | some b => simp [step] at hrest

theorem Accepts.needsEmpty_empty {pre post : List (Event α)} {held : Option α}
    (h : Accepts (pre ++ .needsEmpty :: post) held) : Accepts pre none := by
  obtain ⟨before, hbefore, hrest⟩ := h.split
  cases before with
  | none => exact hbefore
  | some b => simp [step] at hrest

end Mailbox
