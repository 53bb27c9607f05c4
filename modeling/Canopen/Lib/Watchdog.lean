import Mathlib.Data.List.Induction
import Canopen.Lib.History

/-!
# Watchdogs

A watchdog is fed, checked and stopped. It is armed by the first feeding after a stop,
and a check expires it when the last feeding is too long ago. `late` compares a deadline,
the time of the last feeding and the time of the check; a check without a deadline never
expires anything.
-/

namespace Watchdog

variable {δ τ : Type}

inductive Token (δ τ : Type)
  | fed (now : τ)
  | checked (deadline : Option δ) (now : τ) (expired : Bool)
  | stopped
  deriving DecidableEq, Repr

/-- The last feeding since the last stop, and whether the watchdog has expired since. -/
structure State (τ : Type) where
  last : Option τ
  expired : Bool
  deriving DecidableEq, Repr

def State.start : State τ := ⟨none, false⟩

/-- Whether a check expires the watchdog. -/
def State.expires (late : δ → τ → τ → Bool) (s : State τ) (deadline : Option δ) (now : τ) : Bool :=
  !s.expired && s.last.any fun last => deadline.any fun deadline => late deadline last now

inductive Law (late : δ → τ → τ → Bool) (start : State τ) : List (Token δ τ) → State τ → Prop
  | nil : Law late start [] start
  | fed {tokens s now} (h : Law late start tokens s) :
    Law late start (tokens ++ [.fed now]) ⟨some now, false⟩
  | checked {tokens s deadline now} (h : Law late start tokens s) :
    Law late start (tokens ++ [.checked deadline now (s.expires late deadline now)])
      ⟨s.last, s.expired || s.expires late deadline now⟩
  | stopped {tokens s} (h : Law late start tokens s) :
    Law late start (tokens ++ [.stopped]) .start

/-- A feeding or a stop: what expired before it is over. -/
def Token.restarts : Token δ τ → Bool
  | .checked _ _ _ => false
  | .fed _ | .stopped => true

def Token.isExpiry : Token δ τ → Bool
  | .checked _ _ expired => expired
  | .fed _ | .stopped => false

/-- The last feeding since the last stop. -/
def lastFed (tokens : List (Token δ τ)) : Option τ :=
  tokens.foldl (fun last token =>
    match token with
    | .fed now => some now
    | .checked _ _ _ => last
    | .stopped => none) none

/-- The watchdog has expired since it was last fed or stopped. -/
def Expired (tokens : List (Token δ τ)) : Prop :=
  ∃ token ∈ History.since Token.restarts tokens, token.isExpiry = true

variable {late : δ → τ → τ → Bool} {start s s' : State τ} {tokens tokens' : List (Token δ τ)}

theorem Law.trans (h : Law late start tokens s) (h' : Law late s tokens' s') :
    Law late start (tokens ++ tokens') s' := by
  induction h' with
  | nil =>
    rw [List.append_nil]
    exact h
  | fed _ ih =>
    rw [← List.append_assoc]
    exact ih.fed
  | checked _ ih =>
    rw [← List.append_assoc]
    exact ih.checked
  | stopped _ ih =>
    rw [← List.append_assoc]
    exact ih.stopped

theorem Law.last_eq (h : Law late .start tokens s) : s.last = lastFed tokens := by
  unfold lastFed
  induction h with
  | nil => rfl
  | fed _ ih => simp
  | checked _ ih => simpa using ih
  | stopped _ ih => simp [State.start]

theorem Law.expired_iff (h : Law late .start tokens s) : s.expired = true ↔ Expired tokens := by
  unfold Expired
  induction h with
  | nil => simp [State.start, History.since, History.sinceFrom]
  | @fed tokens _ _ _ ih =>
    rw [History.since_append_cut tokens rfl (by simp)]
    simp
  | @checked tokens s deadline now _ ih =>
    rw [History.since_append_of_not_cut tokens (by simp [Token.restarts])]
    simp only [Bool.or_eq_true, ih, List.mem_append, List.mem_singleton, or_and_right, exists_or,
      exists_eq_left]
    rfl
  | @stopped tokens _ _ ih =>
    rw [History.since_append_cut tokens rfl (by simp)]
    simp [State.start]

theorem Law.front (h : Law late start (tokens ++ tokens') s) :
    ∃ s', Law late start tokens s' := by
  induction tokens' using List.reverseRecOn generalizing s with
  | nil =>
    rw [List.append_nil] at h
    exact ⟨s, h⟩
  | append_singleton tokens' token ih =>
    rw [← List.append_assoc] at h
    generalize hall : tokens ++ tokens' ++ [token] = all at h
    cases h with
    | nil => simp at hall
    | fed h =>
      obtain ⟨rfl, -⟩ := List.append_inj' hall rfl
      exact ih h
    | checked h =>
      obtain ⟨rfl, -⟩ := List.append_inj' hall rfl
      exact ih h
    | stopped h =>
      obtain ⟨rfl, -⟩ := List.append_inj' hall rfl
      exact ih h

theorem Law.check {deadline : Option δ} {now : τ} {expired : Bool}
    (h : Law late start (tokens ++ .checked deadline now expired :: tokens') s) :
    ∃ s', Law late start tokens s' ∧ expired = s'.expires late deadline now := by
  rw [List.append_cons] at h
  obtain ⟨_, hfront⟩ := h.front
  generalize hall : tokens ++ [Token.checked deadline now expired] = all at hfront
  cases hfront with
  | nil => simp at hall
  | fed _ =>
    obtain ⟨-, hlast⟩ := List.append_inj' hall rfl
    cases hlast
  | checked h' =>
    obtain ⟨rfl, hlast⟩ := List.append_inj' hall rfl
    cases hlast
    exact ⟨_, h', rfl⟩
  | stopped _ =>
    obtain ⟨-, hlast⟩ := List.append_inj' hall rfl
    cases hlast

/-- What a history tells about its watchdog. -/
structure Guaranteed (late : δ → τ → τ → Bool) (tokens : List (Token δ τ)) (s : State τ) :
    Prop where
  last : s.last = lastFed tokens
  expired : s.expired = true ↔ Expired tokens
  /-- A check expires the watchdog if it is the first one since the last feeding that
  comes too late. -/
  checked : ∀ before deadline now expired after,
    tokens = before ++ .checked deadline now expired :: after →
    (expired = true ↔ ¬ Expired before ∧ ∃ last d, lastFed before = some last ∧
      deadline = some d ∧ late d last now = true)

theorem Law.guaranteed (h : Law late .start tokens s) : Guaranteed late tokens s where
  last := h.last_eq
  expired := h.expired_iff
  checked := by
    rintro before deadline now expired after rfl
    obtain ⟨s', h', rfl⟩ := h.check
    rw [← h'.last_eq, ← h'.expired_iff]
    simp only [State.expires, Bool.and_eq_true, Bool.not_eq_true', Option.any_eq_true,
      Bool.not_eq_true]
    constructor
    · rintro ⟨hfresh, last, hlast, d, hd, hlate⟩
      exact ⟨hfresh, last, d, hlast, hd, hlate⟩
    · rintro ⟨hfresh, last, d, hlast, hd, hlate⟩
      exact ⟨hfresh, last, hlast, d, hd, hlate⟩

end Watchdog
