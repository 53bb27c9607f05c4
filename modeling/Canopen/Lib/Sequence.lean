import Mathlib.Data.List.Basic
import Mathlib.Data.List.Infix

/-!
# Ordered sequences

A recogniser of one ordered sequence of distinct elements keeps a single counter. The
counter tracks a history when it says how much of the sequence the history ends with.
-/

namespace Sequence

variable {α : Type} [DecidableEq α] {pattern past : List α} {progress : ℕ} {a : α}

/-- The counter after one more element. An element out of order restarts the sequence,
and the first element always starts it. -/
def advance (pattern : List α) (progress : ℕ) (a : α) : ℕ :=
  if a ∈ pattern ∧ (pattern.idxOf a = 0 ∨ pattern.idxOf a = progress) then
    pattern.idxOf a + 1 else 0

theorem advance_le : advance pattern progress a ≤ pattern.length := by
  unfold advance
  split_ifs with hnext
  · exact List.idxOf_lt_length_iff.mpr hnext.1
  · exact Nat.zero_le _

/-- The history ends with the first `progress` elements of the sequence, and with no
other part of it that starts at the front. -/
def Tracks (pattern past : List α) (progress : ℕ) : Prop :=
  ∀ j ≤ pattern.length, pattern.take j <:+ past ↔ j = 0 ∨ j = progress

omit [DecidableEq α] in
theorem tracks_nil : Tracks pattern [] 0 := by
  intro j hj
  rw [List.suffix_nil, List.take_eq_nil_iff, or_self]
  constructor
  · rintro (hzero | hnil)
    · exact hzero
    · rw [hnil] at hj
      exact Nat.le_zero.mp hj
  · intro hzero
    exact .inl hzero

omit [DecidableEq α] in
theorem take_succ_suffix_concat {j : ℕ} (hj : j < pattern.length) :
    pattern.take (j + 1) <:+ past ++ [a] ↔ pattern[j]? = some a ∧ pattern.take j <:+ past := by
  rw [List.take_add_one, List.getElem?_eq_getElem hj, Option.toList_some, List.suffix_concat_iff,
    Option.some_inj]
  constructor
  · rintro (h | ⟨t, ht, hs⟩)
    · exact absurd h (List.append_ne_nil_of_right_ne_nil _ (List.cons_ne_nil _ _))
    · obtain ⟨rfl, hlast⟩ := List.append_inj' ht rfl
      exact ⟨(List.cons.inj hlast).1, hs⟩
  · rintro ⟨ha, hs⟩
    cases ha
    exact .inr ⟨_, rfl, hs⟩

theorem Tracks.advance (hnd : pattern.Nodup) (h : Tracks pattern past progress)  :
    Tracks pattern (past ++ [a]) (advance pattern progress a) := by
  intro j hj
  cases j with
  | zero => simp
  | succ j =>
    rw [take_succ_suffix_concat hj, h j (Nat.le_of_lt hj)]
    have hindex : pattern[j]? = some a ↔ a ∈ pattern ∧ pattern.idxOf a = j := by
      constructor
      · intro ha
        obtain ⟨hlt, rfl⟩ := List.getElem?_eq_some_iff.mp ha
        exact ⟨List.getElem_mem hlt, hnd.idxOf_getElem j hlt⟩
      · rintro ⟨ha, rfl⟩
        exact List.getElem?_idxOf ha
    unfold Sequence.advance
    rw [hindex]
    by_cases hnext : a ∈ pattern ∧ (pattern.idxOf a = 0 ∨ pattern.idxOf a = progress)
    · rw [if_pos hnext]
      constructor
      · rintro ⟨⟨_, rfl⟩, _⟩
        exact .inr rfl
      · intro hsucc
        have hij : pattern.idxOf a = j := by
          rcases hsucc with hsucc | hsucc
          · exact absurd hsucc (Nat.succ_ne_zero j)
          · exact (Nat.succ.inj hsucc).symm
        subst hij
        exact ⟨⟨hnext.1, rfl⟩, hnext.2⟩
    · rw [if_neg hnext]
      constructor
      · rintro ⟨⟨ha, rfl⟩, hj'⟩
        exact absurd ⟨ha, hj'⟩ hnext
      · rintro (hsucc | hsucc)
        · exact absurd hsucc (Nat.succ_ne_zero j)
        · exact absurd hsucc (Nat.succ_ne_zero j)

end Sequence
