import Mathlib.Data.List.Induction
import Canopen.Lib.History

/-!
# Rate-limited triggers

A trigger goes off on events, or by a timer when nothing has been accepted for some
time. It offers something until the offer is accepted, and accepted offers keep a
minimal distance. `Law` extends a history by an event or by an offer at a time at which
the trigger is due.
-/

namespace Trigger

inductive Token
  | event
  | offer (now : ℕ) (accepted : Bool)
  deriving DecidableEq, Repr

def Token.isAccepted : Token → Bool
  | .offer _ accepted => accepted
  | .event => false

def Token.acceptedAt : Token → Option ℕ
  | .offer now true => some now
  | _ => none

def acceptedTimes (tokens : List Token) : List ℕ := tokens.filterMap Token.acceptedAt

/-- The time of the last accepted offer. -/
def lastAccepted (last : ℕ) (tokens : List Token) : ℕ :=
  tokens.foldl (fun last token => token.acceptedAt.getD last) last

/-- The distance of accepted offers, and the time after which the trigger goes off by
itself. It never does when the latter is 0. -/
structure Timing where
  inhibit : ℕ
  timer : ℕ
  deriving DecidableEq, Repr

structure State where
  pending : Bool
  last : ℕ
  deriving DecidableEq, Repr

def Timing.Due (t : Timing) (s : State) (now : ℕ) : Prop :=
  (s.pending = true ∨ (0 < t.timer ∧ s.last + t.timer ≤ now)) ∧ s.last + t.inhibit ≤ now

inductive Law (t : Timing) (start : State) : List Token → State → Prop
  | nil : Law t start [] start
  | event {tokens s} (h : Law t start tokens s) :
    Law t start (tokens ++ [.event]) ⟨true, s.last⟩
  | refused {tokens s now} (h : Law t start tokens s) (hdue : t.Due s now) :
    Law t start (tokens ++ [.offer now false]) s
  | accepted {tokens s now} (h : Law t start tokens s) (hdue : t.Due s now) :
    Law t start (tokens ++ [.offer now true]) ⟨false, now⟩

/-- An event has not been answered by an accepted offer yet. -/
def Unanswered (start : State) (tokens : List Token) : Prop :=
  .event ∈ History.since Token.isAccepted tokens ∨
    (start.pending = true ∧ ∀ token ∈ tokens, token.isAccepted = false)

variable {t : Timing} {start s s' s₁ : State} {tokens tokens' : List Token} {now : ℕ}
  {accepted : Bool}

theorem lastAccepted_append (last : ℕ) (tokens tokens' : List Token) :
    lastAccepted last (tokens ++ tokens') = lastAccepted (lastAccepted last tokens) tokens' :=
  List.foldl_append

theorem Law.trans (h : Law t start tokens s) (h' : Law t s tokens' s') :
    Law t start (tokens ++ tokens') s' := by
  induction h' with
  | nil =>
    rw [List.append_nil]
    exact h
  | event _ ih =>
    rw [← List.append_assoc]
    exact ih.event
  | refused _ hdue ih =>
    rw [← List.append_assoc]
    exact ih.refused hdue
  | accepted _ hdue ih =>
    rw [← List.append_assoc]
    exact ih.accepted hdue

/-- Events are kept until an offer is accepted. -/
theorem Law.pending_iff (h : Law t start tokens s) :
    s.pending = true ↔ Unanswered start tokens := by
  unfold Unanswered
  induction h with
  | nil => simp [History.since, History.sinceFrom]
  | @event tokens _ h ih =>
    rw [History.since_append_of_not_cut tokens (by simp [Token.isAccepted])]
    simp
  | @refused tokens _ _ h hdue ih =>
    rw [History.since_append_of_not_cut tokens (by simp [Token.isAccepted]), ih]
    simp only [List.mem_append, List.mem_singleton, reduceCtorEq, or_false, or_imp, forall_and,
      forall_eq, Token.isAccepted, and_true]
  | @accepted tokens _ _ h hdue ih =>
    rw [History.since_append_cut tokens rfl (by simp)]
    simp [Token.isAccepted]

theorem Law.last_eq (h : Law t start tokens s) : s.last = lastAccepted start.last tokens := by
  induction h with
  | nil => rfl
  | event _ ih =>
    rw [lastAccepted_append, ← ih]
    rfl
  | refused _ _ ih =>
    rw [lastAccepted_append, ← ih]
    rfl
  | accepted _ _ ih =>
    rw [lastAccepted_append]
    rfl

theorem acceptedTimes_append_of_none {token : Token} (h : token.acceptedAt = none)
    (tokens : List Token) : acceptedTimes (tokens ++ [token]) = acceptedTimes tokens := by
  rw [acceptedTimes, List.filterMap_append, List.filterMap_cons, h]
  exact List.append_nil _

/-- Accepted offers keep their distance, also from the last one before the history. -/
theorem Law.apart (h : Law t start tokens s) :
    (start.last :: acceptedTimes tokens).Pairwise (· + t.inhibit ≤ ·) ∧
      ∀ time ∈ start.last :: acceptedTimes tokens, time ≤ s.last := by
  induction h with
  | nil => exact ⟨List.pairwise_singleton _ _, by simp [acceptedTimes]⟩
  | @event tokens _ _ ih =>
    rw [acceptedTimes_append_of_none rfl]
    exact ih
  | @refused tokens _ _ _ _ ih =>
    rw [acceptedTimes_append_of_none rfl]
    exact ih
  | @accepted tokens s now _ hdue ih =>
    obtain ⟨hpairs, hlast⟩ := ih
    have happend : start.last :: acceptedTimes (tokens ++ [Token.offer now true]) =
        (start.last :: acceptedTimes tokens) ++ [now] := by
      rw [acceptedTimes, List.filterMap_append]
      rfl
    rw [happend]
    have hnow : s.last + t.inhibit ≤ now := hdue.2
    refine ⟨?_, ?_⟩
    · rw [List.pairwise_append]
      refine ⟨hpairs, List.pairwise_singleton _ _, ?_⟩
      intro time htime time' htime'
      rw [List.mem_singleton.mp htime']
      have := hlast time htime
      omega
    · intro time htime
      rcases List.mem_append.mp htime with htime | htime
      · have := hlast time htime
        change time ≤ now
        omega
      · exact Nat.le_of_eq (List.mem_singleton.mp htime)

theorem Law.front (h : Law t start (tokens ++ tokens') s) : ∃ s', Law t start tokens s' := by
  induction tokens' using List.reverseRecOn generalizing s with
  | nil =>
    rw [List.append_nil] at h
    exact ⟨s, h⟩
  | append_singleton tokens' token ih =>
    rw [← List.append_assoc] at h
    generalize hall : tokens ++ tokens' ++ [token] = all at h
    cases h with
    | nil => simp at hall
    | event h =>
      obtain ⟨rfl, -⟩ := List.append_inj' hall rfl
      exact ih h
    | refused h =>
      obtain ⟨rfl, -⟩ := List.append_inj' hall rfl
      exact ih h
    | accepted h =>
      obtain ⟨rfl, -⟩ := List.append_inj' hall rfl
      exact ih h

/-- An offer is made when the trigger is due. -/
theorem Law.offered (h : Law t start (tokens ++ .offer now accepted :: tokens') s) :
    ∃ s', Law t start tokens s' ∧ t.Due s' now := by
  rw [List.append_cons] at h
  obtain ⟨_, hfront⟩ := h.front
  generalize hall : tokens ++ [Token.offer now accepted] = all at hfront
  cases hfront with
  | nil => simp at hall
  | event h' =>
    obtain ⟨-, hlast⟩ := List.append_inj' hall rfl
    cases hlast
  | refused h' hdue =>
    obtain ⟨rfl, hlast⟩ := List.append_inj' hall rfl
    cases hlast
    exact ⟨_, h', hdue⟩
  | accepted h' hdue =>
    obtain ⟨rfl, hlast⟩ := List.append_inj' hall rfl
    cases hlast
    exact ⟨_, h', hdue⟩

/-- What a history tells about its trigger. -/
structure Guaranteed (t : Timing) (start : State) (tokens : List Token) (s : State) : Prop where
  /-- Events are kept until an offer is accepted, and all of them are answered by one. -/
  pending : s.pending = true ↔ Unanswered start tokens
  last : s.last = lastAccepted start.last tokens
  apart : (start.last :: acceptedTimes tokens).Pairwise (· + t.inhibit ≤ ·)
  /-- Without an unanswered event only the timer sets off an offer. -/
  offered : ∀ before now accepted after, tokens = before ++ .offer now accepted :: after →
    lastAccepted start.last before + t.inhibit ≤ now ∧
      (Unanswered start before ∨
        (0 < t.timer ∧ lastAccepted start.last before + t.timer ≤ now))

theorem Law.guaranteed (h : Law t start tokens s) : Guaranteed t start tokens s where
  pending := h.pending_iff
  last := h.last_eq
  apart := h.apart.1
  offered := by
    rintro before now accepted after rfl
    obtain ⟨s', h', hpending, hinhibit⟩ := h.offered
    rw [← h'.last_eq, ← h'.pending_iff]
    exact ⟨hinhibit, hpending⟩

end Trigger
