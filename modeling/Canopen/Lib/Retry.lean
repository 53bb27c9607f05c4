import Mathlib.Data.List.Perm.Lattice
import Mathlib.Order.Basic

/-!
# Retried batches

A batch of frames is offered to a receiver that takes some of them; what it refused is
offered again in a later round. `Rounds` is the discipline of such retries: every round
offers exactly what the round before it left over, at another instant and only while
that is allowed. Then what was taken and what is waiting always make up the batch.
-/

namespace Retry

variable {α τ ι : Type}

/-- One opportunity to offer frames, with the answers to the frames that were offered. -/
structure Round (α τ : Type) where
  stamp : τ
  offers : List (α × Bool)
  deriving DecidableEq, Repr

namespace Round

def offered (r : Round α τ) : List α := r.offers.map Prod.fst

def taken (r : Round α τ) : List α := (r.offers.filter (·.2)).map Prod.fst

def refused (r : Round α τ) : List α := (r.offers.filter (!·.2)).map Prod.fst

theorem refused_sublist (r : Round α τ) : r.refused.Sublist r.offered :=
  List.filter_sublist.map _

theorem taken_refused_perm (r : Round α τ) : (r.taken ++ r.refused).Perm r.offered := by
  unfold taken refused offered
  rw [← List.map_append]
  exact (List.filter_append_perm _ _).map _

theorem taken_of_idle {r : Round α τ} (h : r.offers = []) : r.taken = [] := by
  rw [taken, h]
  rfl

def isIdle (r : Round α τ) : Bool := r.offers.isEmpty

end Round

/-- The rounds of a batch so far, what is waiting for another round, and the stamp of the
last round. An idle opportunity offers nothing. -/
inductive Rounds (instant : τ → ι) (allowed : τ → Prop) (batch : List α) :
    List (Round α τ) → List α → τ → Prop
  | first {r} (h : r.offered = batch) : Rounds instant allowed batch [r] r.refused r.stamp
  | idle {rs waiting last r} (h : Rounds instant allowed batch rs waiting last)
    (hidle : r.offers = []) : Rounds instant allowed batch (rs ++ [r]) waiting last
  | again {rs waiting last r} (h : Rounds instant allowed batch rs waiting last)
    (hoffers : r.offers ≠ []) (hoffered : r.offered = waiting)
    (hlater : instant r.stamp ≠ instant last) (hallowed : allowed r.stamp) :
    Rounds instant allowed batch (rs ++ [r]) r.refused r.stamp

variable {instant : τ → ι} {allowed : τ → Prop} {batch waiting : List α} {rs : List (Round α τ)}
  {last : τ}

theorem Rounds.ne_nil (h : Rounds instant allowed batch rs waiting last) : rs ≠ [] := by
  cases h with
  | first h => exact List.cons_ne_nil _ _
  | idle h hidle => simp
  | again h hoffers hoffered hlater hallowed => simp

def allTaken (rs : List (Round α τ)) : List α := rs.flatMap Round.taken

theorem allTaken_concat (rs : List (Round α τ)) (r : Round α τ) :
    allTaken (rs ++ [r]) = allTaken rs ++ r.taken := by
  simp [allTaken]

/-- Nothing of the batch is lost and nothing is taken twice. -/
theorem Rounds.perm (h : Rounds instant allowed batch rs waiting last) :
    (allTaken rs ++ waiting).Perm batch := by
  induction h with
  | @first r h =>
    rw [← h]
    simpa [allTaken] using r.taken_refused_perm
  | @idle rs waiting last r _ hidle ih =>
    rw [allTaken_concat, Round.taken_of_idle hidle, List.append_nil]
    exact ih
  | @again rs waiting last r _ _ hoffered _ _ ih =>
    rw [allTaken_concat, List.append_assoc]
    apply List.Perm.trans _ ih
    apply List.Perm.append_left
    rw [← hoffered]
    exact r.taken_refused_perm

theorem Rounds.waiting_sublist (h : Rounds instant allowed batch rs waiting last) :
    waiting.Sublist batch := by
  induction h with
  | @first r h =>
    rw [← h]
    exact r.refused_sublist
  | idle _ _ ih => exact ih
  | @again rs waiting last r _ _ hoffered _ _ ih =>
    apply List.Sublist.trans r.refused_sublist
    rw [hoffered]
    exact ih

/-- Every round offers frames of the batch as they are, in its order. -/
theorem Rounds.offered_sublist (h : Rounds instant allowed batch rs waiting last) :
    ∀ r ∈ rs, r.offered.Sublist batch := by
  induction h with
  | @first r h =>
    intro r' hr
    rw [List.mem_singleton.mp hr, h]
  | @idle rs waiting last r _ hidle ih =>
    intro r' hr
    rcases List.mem_append.mp hr with hr | hr
    · exact ih r' hr
    · rw [List.mem_singleton.mp hr, Round.offered, hidle]
      exact List.nil_sublist _
  | @again rs waiting last r h _ hoffered _ _ ih =>
    intro r' hr
    rcases List.mem_append.mp hr with hr | hr
    · exact ih r' hr
    · rw [List.mem_singleton.mp hr, hoffered]
      exact h.waiting_sublist

theorem Rounds.taken_count [BEq α] (h : Rounds instant allowed batch rs waiting last) (a : α) :
    (allTaken rs).count a ≤ batch.count a := by
  rw [← h.perm.count_eq a, List.count_append]
  exact Nat.le_add_right _ _

/-- After the first round frames are offered only while that is allowed. -/
theorem Rounds.offers_allowed (h : Rounds instant allowed batch rs waiting last) :
    ∀ r ∈ rs.tail, r.offers ≠ [] → allowed r.stamp := by
  induction h with
  | first => simp
  | @idle rs waiting last r h hidle ih =>
    intro r' hr hne
    cases rs with
    | nil => exact absurd rfl h.ne_nil
    | cons r₀ rs =>
      rcases List.mem_append.mp hr with hr | hr
      · exact ih r' hr hne
      · rw [List.mem_singleton.mp hr] at hne
        exact absurd hidle hne
  | @again rs waiting last r h _ _ _ hallowed ih =>
    intro r' hr hne
    cases rs with
    | nil => exact absurd rfl h.ne_nil
    | cons r₀ rs =>
      rcases List.mem_append.mp hr with hr | hr
      · exact ih r' hr hne
      · rw [List.mem_singleton.mp hr]
        exact hallowed

def active (rs : List (Round α τ)) : List (Round α τ) := rs.filter (!·.isIdle)

theorem active_concat (rs : List (Round α τ)) (r : Round α τ) :
    active (rs ++ [r]) = if r.isIdle then active rs else active rs ++ [r] := by
  unfold active
  rw [List.filter_append]
  cases h : r.isIdle <;> simp [h]

/-- While time does not go back, no two rounds offer anything at the same instant. -/
theorem Rounds.instants [PartialOrder ι] (h : Rounds instant allowed batch rs waiting last)
    (hle : (active rs).Pairwise fun r r' => instant r.stamp ≤ instant r'.stamp) :
    (active rs).Pairwise (fun r r' => instant r.stamp < instant r'.stamp) ∧
      (active rs = [] ∨ ∃ r₀ ∈ active rs, r₀.stamp = last ∧
        ∀ r ∈ active rs, instant r.stamp ≤ instant last) := by
  induction h with
  | @first r h =>
    unfold active
    cases hr : r.isIdle with
    | true => simp [hr]
    | false => simp [hr]
  | @idle rs waiting last r h hidle ih =>
    have hkeep : active (rs ++ [r]) = active rs := by
      rw [active_concat, if_pos (by rw [Round.isIdle, hidle]; rfl)]
    rw [hkeep] at hle ⊢
    exact ih hle
  | @again rs waiting last r h hoffers _ hlater _ ih =>
    have hgrow : active (rs ++ [r]) = active rs ++ [r] := by
      rw [active_concat, if_neg (by simpa [Round.isIdle] using hoffers)]
    rw [hgrow] at hle ⊢
    obtain ⟨hpast, -, hnext⟩ := List.pairwise_append.mp hle
    obtain ⟨hlt, hlast⟩ := ih hpast
    have hbefore : ∀ r' ∈ active rs, instant r'.stamp < instant r.stamp := by
      intro r' hr'
      rcases hlast with hnil | ⟨r₀, hmem, heq, hbound⟩
      · rw [hnil] at hr'
        cases hr'
      · have hstep := hnext r₀ hmem r (List.mem_singleton_self r)
        rw [heq] at hstep
        exact (hbound r' hr').trans_lt (lt_of_le_of_ne hstep hlater.symm)
    refine ⟨List.pairwise_append.mpr ⟨hlt, List.pairwise_singleton _ _, ?_⟩, .inr ⟨r, ?_, rfl, ?_⟩⟩
    · intro r' hr' r'' hr''
      rw [List.mem_singleton.mp hr'']
      exact hbefore r' hr'
    · exact List.mem_append_right _ (List.mem_singleton_self r)
    · intro r' hr'
      rcases List.mem_append.mp hr' with hr' | hr'
      · exact (hbefore r' hr').le
      · rw [List.mem_singleton.mp hr']

end Retry
