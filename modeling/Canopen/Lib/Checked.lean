import Mathlib.Algebra.Group.Nat.Defs
import Canopen.Lib.FixedBuffer

/-!
# Checked operations

Integer and slice operations of a language that stops the program on a bad
operand. Such a stop is the result `none`; a program over these operations
runs to its end exactly when every operand was in range.
-/

/-- `a - b` on unsigned integers. -/
def checkedSub (a b : ℕ) : Option ℕ := if b ≤ a then some (a - b) else none

theorem checkedSub_of_le {a b : ℕ} (h : b ≤ a) : checkedSub a b = some (a - b) := if_pos h

/-- `a + b` on bytes. -/
def checkedAdd8 (a b : UInt8) : Option UInt8 :=
  if a.toNat + b.toNat < 2 ^ 8 then some (a + b) else none

theorem checkedAdd8_of_lt {a b : UInt8} (h : a.toNat + b.toNat < 2 ^ 8) :
    checkedAdd8 a b = some (a + b) := if_pos h

/-- `a + b` on sixteen-bit words. -/
def checkedAdd16 (a b : UInt16) : Option UInt16 :=
  if a.toNat + b.toNat < 2 ^ 16 then some (a + b) else none

theorem checkedAdd16_of_lt {a b : UInt16} (h : a.toNat + b.toNat < 2 ^ 16) :
    checkedAdd16 a b = some (a + b) := if_pos h

namespace FixedBuffer

variable {α : Type} {n : ℕ}

/-- `b[start..stop]`. -/
def checkedSlice (b : FixedBuffer α n) (start stop : ℕ) : Option (List α) :=
  if start ≤ stop ∧ stop ≤ n then some (b.slice start (stop - start)) else none

/-- `b[start..stop].copy_from_slice(src)`: the lengths have to agree, too. -/
def checkedCopy (b : FixedBuffer α n) (start stop : ℕ) (src : List α) : Option (FixedBuffer α n) :=
  if start ≤ stop ∧ stop ≤ n ∧ src.length = stop - start then some (b.write start src) else none

theorem checkedSlice_add (b : FixedBuffer α n) {start len : ℕ} (h : start + len ≤ n) :
    b.checkedSlice start (start + len) = some (b.slice start len) := by
  unfold checkedSlice
  rw [if_pos ⟨Nat.le_add_right start len, h⟩, Nat.add_sub_cancel_left]

theorem checkedSlice_front (b : FixedBuffer α n) {stop : ℕ} (h : stop ≤ n) :
    b.checkedSlice 0 stop = some (b.front stop) := by
  unfold checkedSlice
  rw [if_pos ⟨Nat.zero_le stop, h⟩, Nat.sub_zero, slice_zero_left]

theorem checkedCopy_add (b : FixedBuffer α n) {start len : ℕ} {src : List α}
    (hsrc : src.length = len) (h : start + len ≤ n) :
    b.checkedCopy start (start + len) src = some (b.write start src) := by
  unfold checkedCopy
  rw [if_pos ⟨Nat.le_add_right start len, h, by omega⟩]

end FixedBuffer
