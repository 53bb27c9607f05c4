import Mathlib.Data.List.Basic

/-!
# Fixed-size buffers

A buffer of exactly `n` cells, written by block copies and read by slices. The
length is carried by the structure, so no later proof has to recover it. A
copy that would leave the buffer has no effect here; the programs modelled on
top of it bound every copy before they make it.
-/

/-- An array of exactly `n` cells. -/
structure FixedBuffer (α : Type) (n : ℕ) where
  cells : List α
  size_eq : cells.length = n
  deriving DecidableEq, Repr

namespace FixedBuffer

variable {α : Type} {n : ℕ}

/-- The buffer with the same value in every cell. -/
def filled (n : ℕ) (a : α) : FixedBuffer α n := ⟨List.replicate n a, by simp⟩

/-- The first `k` cells. -/
def front (b : FixedBuffer α n) (k : ℕ) : List α := b.cells.take k

/-- The cells `from ..< from + len`. -/
def slice (b : FixedBuffer α n) (start len : ℕ) : List α := (b.cells.drop start).take len

/-- Copy `data` over the cells starting at `start`. -/
def write (b : FixedBuffer α n) (start : ℕ) (data : List α) : FixedBuffer α n :=
  if h : start + data.length ≤ n then
    ⟨b.cells.take start ++ data ++ b.cells.drop (start + data.length), by
      simp [b.size_eq]; omega⟩
  else b

@[simp] theorem length_cells (b : FixedBuffer α n) : b.cells.length = n := b.size_eq

theorem length_front (b : FixedBuffer α n) {k : ℕ} (h : k ≤ n) : (b.front k).length = k := by
  simp [front, h]

theorem length_slice (b : FixedBuffer α n) {start len : ℕ} (h : start + len ≤ n) :
    (b.slice start len).length = len := by
  simp [slice]
  omega

theorem front_append_slice (b : FixedBuffer α n) (start len : ℕ) :
    b.front start ++ b.slice start len = b.front (start + len) := by
  simp [front, slice, List.take_add]

@[simp] theorem slice_zero_left (b : FixedBuffer α n) (len : ℕ) : b.slice 0 len = b.front len := rfl

@[simp] theorem front_zero (b : FixedBuffer α n) : b.front 0 = [] := rfl

theorem slice_front (b : FixedBuffer α n) {start len k : ℕ} (h : start + len ≤ k) :
    ((b.front k).drop start).take len = b.slice start len := by
  simp [front, slice, List.drop_take, List.take_take]
  omega

theorem front_write (b : FixedBuffer α n) (start : ℕ) (data : List α)
    (h : start + data.length ≤ n) :
    (b.write start data).front (start + data.length) = b.front start ++ data := by
  have hs : start ≤ n := by omega
  simp [write, h, front, List.take_append, hs, List.take_take]

theorem cells_write_singleton (b : FixedBuffer α n) (start : ℕ) (a : α) :
    (b.write start [a]).cells = b.cells.set start a := by
  unfold write
  split_ifs with h
  · have hlt : start < b.cells.length := by
      rw [length_cells]
      exact h
    rw [List.set_eq_take_append_cons_drop, if_pos hlt]
    simp
  · have hle : b.cells.length ≤ start := by
      rw [length_cells]
      exact Nat.le_of_not_lt h
    rw [List.set_eq_of_length_le hle]

theorem cells_write_full (b : FixedBuffer α n) {data : List α} (h : data.length = n) :
    (b.write 0 data).cells = data := by
  have hle : 0 + data.length ≤ n := by omega
  have hdrop : b.cells.drop (0 + data.length) = [] :=
    List.drop_eq_nil_of_le (by rw [length_cells]; omega)
  unfold write
  rw [dif_pos hle]
  simp only [hdrop, List.take_zero, List.nil_append, List.append_nil]

theorem cells_write_filled (a : α) {data : List α} (h : data.length ≤ n) :
    ((filled n a).write 0 data).cells = data ++ List.replicate (n - data.length) a := by
  unfold write
  rw [dif_pos (by omega)]
  simp only [filled, Nat.zero_add, List.take_zero, List.nil_append, List.drop_replicate]

end FixedBuffer
