import Mathlib.Data.List.Basic

/-!
# Histories with cuts

A history is a list of observations, oldest first. Some observations cut it: what
happened before a cut is over. `since` keeps what happened after the last cut, and
`Supported` says that every observation is supported by what happened since then.
-/

namespace History

variable {α : Type} (cut : α → Bool)

/-- What has happened since the last cut when `past` happened before `l`. -/
def sinceFrom (past l : List α) : List α :=
  l.foldl (fun past a => if cut a then [] else past ++ [a]) past

/-- What has happened since the last cut. -/
def since (l : List α) : List α := sinceFrom cut [] l

/-- Every element of `l` is supported by what happened since the last cut before it. -/
def Supported (support : List α → α → Prop) : List α → List α → Prop
  | _, [] => True
  | past, a :: l => support past a ∧ Supported support (if cut a then [] else past ++ [a]) l

variable {cut} {support : List α → α → Prop}

theorem since_append (l l' : List α) : since cut (l ++ l') = sinceFrom cut (since cut l) l' :=
  List.foldl_append

theorem sinceFrom_of_not_cut {past l : List α} (h : ∀ a ∈ l, cut a = false) :
    sinceFrom cut past l = past ++ l := by
  induction l generalizing past with
  | nil => simp [sinceFrom]
  | cons a l ih =>
    have htail : sinceFrom cut (past ++ [a]) l = past ++ [a] ++ l :=
      ih fun b hb => h b (List.mem_cons_of_mem a hb)
    rw [sinceFrom] at htail
    simp only [sinceFrom, List.foldl_cons, h a List.mem_cons_self, Bool.false_eq_true, if_false]
    rw [htail, List.append_assoc, List.singleton_append]

theorem since_append_of_not_cut (l : List α) {l' : List α} (h : ∀ a ∈ l', cut a = false) :
    since cut (l ++ l') = since cut l ++ l' := by
  rw [since_append, sinceFrom_of_not_cut h]

theorem since_append_cut (l : List α) {a : α} {l' : List α} (ha : cut a = true)
    (h : ∀ b ∈ l', cut b = false) : since cut (l ++ a :: l') = l' := by
  have hcons : sinceFrom cut (since cut l) (a :: l') = sinceFrom cut [] l' := by
    simp [sinceFrom, ha]
  rw [since_append, hcons, sinceFrom_of_not_cut h, List.nil_append]

theorem supported_append {past l l' : List α} (h : Supported cut support past l)
    (h' : Supported cut support (sinceFrom cut past l) l') :
    Supported cut support past (l ++ l') := by
  induction l generalizing past with
  | nil => exact h'
  | cons a l ih => exact ⟨h.1, ih h.2 h'⟩

/-- Support that only asks for something to have happened is kept while the past grows. -/
theorem supported_of_forall
    (mono : ∀ (past past' : List α) (a : α), past ⊆ past' → support past a → support past' a)
    {past l : List α} (hcut : ∀ a ∈ l, cut a = false) (h : ∀ a ∈ l, support past a) :
    Supported cut support past l := by
  induction l generalizing past with
  | nil => trivial
  | cons a l ih =>
    refine ⟨h a List.mem_cons_self, ?_⟩
    rw [if_neg (by simp [hcut a List.mem_cons_self])]
    apply ih
    · intro b hb
      exact hcut b (List.mem_cons_of_mem a hb)
    · intro b hb
      exact mono _ _ b (List.subset_append_left _ _) (h b (List.mem_cons_of_mem a hb))

theorem Supported.at {past pre : List α} {a : α} {post : List α}
    (h : Supported cut support past (pre ++ a :: post)) : support (sinceFrom cut past pre) a := by
  induction pre generalizing past with
  | nil => exact h.1
  | cons b pre ih => exact ih h.2

end History
