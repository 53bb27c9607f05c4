import Mathlib.Data.List.Basic
import Mathlib.Tactic.Ring

/-!
# Divisors

A divisor counts ticks and fires on every `t`-th one. Started at any count it fires
after at most `t` ticks, and from then on on every multiple of `t`. `phase` is the
number of ticks that count, so that a count that is too high fires at once.
-/

namespace Divisor

variable {t c : ℕ}

/-- One tick: the count afterwards, and whether the divisor fires. -/
def tick (t c : ℕ) : ℕ × Bool := if t ≤ c + 1 then (0, true) else (c + 1, false)

def phase (t c : ℕ) : ℕ := min c (t - 1)

theorem tick_fires (ht : 0 < t) (c : ℕ) : (tick t c).2 = decide (t ∣ phase t c + 1) := by
  unfold tick phase
  split_ifs with hdue
  · have heq : min c (t - 1) + 1 = t := by omega
    rw [heq]
    exact (decide_eq_true (dvd_refl t)).symm
  · have heq : min c (t - 1) = c := by omega
    rw [heq]
    have hndvd : ¬ t ∣ c + 1 := Nat.not_dvd_of_pos_of_lt (Nat.succ_pos c) (by omega)
    exact (decide_eq_false hndvd).symm

theorem tick_phase (ht : 0 < t) (c : ℕ) : phase t (tick t c).1 = (phase t c + 1) % t := by
  unfold tick phase
  split_ifs with hdue
  · have heq : min c (t - 1) + 1 = t := by omega
    rw [heq, Nat.mod_self]
    exact Nat.zero_min _
  · rw [Nat.mod_eq_of_lt (by omega)]
    omega

/-- What a divisor has done in `past` ticks since its count was `c₀`. -/
structure Fired (t c₀ : ℕ) (past : List Bool) (c : ℕ) : Prop where
  phase : phase t c = (Divisor.phase t c₀ + past.length) % t
  fired : past = (List.range past.length).map fun j => decide (t ∣ Divisor.phase t c₀ + j + 1)

theorem fired_start (ht : 0 < t) (c₀ : ℕ) : Fired t c₀ [] c₀ where
  phase := by
    rw [List.length_nil, Nat.add_zero, Nat.mod_eq_of_lt]
    unfold Divisor.phase
    omega
  fired := rfl

theorem Fired.tick {c₀ : ℕ} {past : List Bool} (ht : 0 < t) (h : Fired t c₀ past c) :
    Fired t c₀ (past ++ [(tick t c).2]) (tick t c).1 where
  phase := by
    rw [tick_phase ht, h.phase, List.length_append, List.length_singleton, Nat.mod_add_mod,
      Nat.add_assoc]
  fired := by
    rw [List.length_append, List.length_singleton, List.range_succ, List.map_append, ← h.fired,
      List.map_singleton, tick_fires ht, h.phase]
    congr 3
    rw [Nat.dvd_iff_mod_eq_zero, Nat.dvd_iff_mod_eq_zero, Nat.mod_add_mod]

theorem Fired.within {c₀ : ℕ} {past : List Bool} (ht : 0 < t) (h : Fired t c₀ past c)
    (hlen : t ≤ past.length) : true ∈ past.take t := by
  have hphase : Divisor.phase t c₀ < t := by
    unfold Divisor.phase
    omega
  have hlast : Divisor.phase t c₀ + (t - 1 - Divisor.phase t c₀) + 1 = t := by omega
  rw [h.fired, List.map_take.symm, List.take_range, List.mem_map]
  refine ⟨t - 1 - Divisor.phase t c₀, ?_, ?_⟩
  · rw [List.mem_range]
    omega
  · rw [hlast]
    exact decide_eq_true (dvd_refl t)

end Divisor
