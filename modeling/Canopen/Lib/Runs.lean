import Mathlib.Data.List.Basic

/-!
# Runs of a partial step function

A machine takes one action after the other, and an action may fail. `log` collects
what the actions put out on the way, and `along` checks every action in the state
it is taken in.
-/

namespace Runs

variable {σ α β : Type} (step : σ → α → Option σ)

/-- The state after a list of actions. -/
def run (s : σ) (l : List α) : Option σ := l.foldlM step s

/-- What the actions put out, each in the state it is taken in. -/
def log (out : σ → α → List β) (s : σ) : List α → List β
  | [] => []
  | a :: l => out s a ++ match step s a with
    | some s' => log out s' l
    | none => []

/-- Every action that is taken satisfies `p` in the state it is taken in. -/
def along (p : σ → α → Bool) (s : σ) : List α → Bool
  | [] => true
  | a :: l => p s a && match step s a with
    | some s' => along p s' l
    | none => true

variable {step} {out : σ → α → List β} {p : σ → α → Bool} {s s' : σ} {l l' : List α}

theorem run_cons {a : α} : run step s (a :: l) = some s' ↔
    ∃ s₁, step s a = some s₁ ∧ run step s₁ l = some s' := by
  unfold run
  rw [List.foldlM_cons]
  exact Option.bind_eq_some_iff

theorem run_append : run step s (l ++ l') = (run step s l).bind (run step · l') := by
  unfold run
  rw [List.foldlM_append]
  rfl

theorem run_append_eq_some : run step s (l ++ l') = some s' ↔
    ∃ s₁, run step s l = some s₁ ∧ run step s₁ l' = some s' := by
  rw [run_append]
  exact Option.bind_eq_some_iff

theorem log_append {s₁ : σ} (h : run step s l = some s₁) :
    log step out s (l ++ l') = log step out s l ++ log step out s₁ l' := by
  induction l generalizing s with
  | nil =>
    cases h
    rfl
  | cons a l ih =>
    obtain ⟨s₂, hstep, hrest⟩ := run_cons.mp h
    simp only [List.cons_append, log, hstep, ih hrest, List.append_assoc]

/-- An invariant of the state and of what has been put out so far. -/
theorem run_inv {Inv : List β → σ → Prop}
    (hstep : ∀ past s a s', Inv past s → p s a = true → step s a = some s' →
      Inv (past ++ out s a) s')
    {past : List β} (hinv : Inv past s) (hp : along step p s l = true)
    (h : run step s l = some s') : Inv (past ++ log step out s l) s' := by
  induction l generalizing s past with
  | nil =>
    cases h
    rw [log, List.append_nil]
    exact hinv
  | cons a l ih =>
    obtain ⟨s₁, h₁, hrest⟩ := run_cons.mp h
    rw [along, h₁, Bool.and_eq_true] at hp
    have hall := ih (hstep past s a s₁ hinv hp.1 h₁) hp.2 hrest
    rw [List.append_assoc] at hall
    rw [log, h₁]
    exact hall

theorem along_true (s : σ) (l : List α) : along step (fun _ _ => true) s l = true := by
  induction l generalizing s with
  | nil => rfl
  | cons a l ih =>
    rw [along, Bool.true_and]
    split
    · exact ih _
    · rfl

theorem log_inv (Inv : List β → σ → Prop)
    (hstep : ∀ past s a s', Inv past s → step s a = some s' → Inv (past ++ out s a) s')
    (hinv : Inv [] s) (h : run step s l = some s') : Inv (log step out s l) s' :=
  run_inv (fun past s a s' hs _ => hstep past s a s' hs) hinv (along_true s l) h

theorem along_append {s₁ : σ} (h : run step s l = some s₁)
    (hp : along step p s (l ++ l') = true) :
    along step p s l = true ∧ along step p s₁ l' = true := by
  induction l generalizing s with
  | nil =>
    cases h
    exact ⟨rfl, hp⟩
  | cons a l ih =>
    obtain ⟨s₂, hstep, hrest⟩ := run_cons.mp h
    rw [List.cons_append, along, hstep, Bool.and_eq_true] at hp
    obtain ⟨hfront, hback⟩ := ih hrest hp.2
    exact ⟨by rw [along, hstep, Bool.and_eq_true]; exact ⟨hp.1, hfront⟩, hback⟩

end Runs
