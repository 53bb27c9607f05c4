import Mathlib.Tactic

/-!
# Little-endian encoding of machine words

`leBytes16` and `leBytes32` list the bytes of a word, least significant first;
`ofLe16` and `ofLe32` read them back. Both directions are exact. `leBytes` lists the low
bytes of a number of any size.
-/

namespace LittleEndian

def ofLe16 (a b : UInt8) : UInt16 := UInt16.ofNat (a.toNat + 256 * b.toNat)

def ofLe32 (a b c d : UInt8) : UInt32 :=
  UInt32.ofNat (a.toNat + 256 * b.toNat + 65536 * c.toNat + 16777216 * d.toNat)

/-- Byte `i` of a 16-bit word. -/
def byte16 (v : UInt16) (i : ℕ) : UInt8 := UInt8.ofNat (v.toNat / 256 ^ i)

/-- Byte `i` of a 32-bit word. -/
def byte32 (v : UInt32) (i : ℕ) : UInt8 := UInt8.ofNat (v.toNat / 256 ^ i)

def leBytes16 (v : UInt16) : List UInt8 := [byte16 v 0, byte16 v 1]

def leBytes32 (v : UInt32) : List UInt8 := [byte32 v 0, byte32 v 1, byte32 v 2, byte32 v 3]

theorem toNat_ofLe16 (a b : UInt8) : (ofLe16 a b).toNat = a.toNat + 256 * b.toNat := by
  have ha := a.toNat_lt
  have hb := b.toNat_lt
  simp only [ofLe16, UInt16.toNat_ofNat']
  omega

theorem toNat_ofLe32 (a b c d : UInt8) : (ofLe32 a b c d).toNat =
    a.toNat + 256 * b.toNat + 65536 * c.toNat + 16777216 * d.toNat := by
  have ha := a.toNat_lt
  have hb := b.toNat_lt
  have hc := c.toNat_lt
  have hd := d.toNat_lt
  simp only [ofLe32, UInt32.toNat_ofNat']
  omega

@[simp] theorem ofLe16_bytes (v : UInt16) : ofLe16 (byte16 v 0) (byte16 v 1) = v := by
  have hv := v.toNat_lt
  apply UInt16.toNat_inj.mp
  rw [toNat_ofLe16]
  simp only [byte16, UInt8.toNat_ofNat']
  omega

@[simp] theorem ofLe32_bytes (v : UInt32) :
    ofLe32 (byte32 v 0) (byte32 v 1) (byte32 v 2) (byte32 v 3) = v := by
  have hv := v.toNat_lt
  apply UInt32.toNat_inj.mp
  rw [toNat_ofLe32]
  simp only [byte32, UInt8.toNat_ofNat']
  omega

@[simp] theorem leBytes16_ofLe16 (a b : UInt8) : leBytes16 (ofLe16 a b) = [a, b] := by
  have ha := a.toNat_lt
  have hb := b.toNat_lt
  simp only [leBytes16, byte16, toNat_ofLe16, List.cons.injEq, and_true]
  refine ⟨?_, ?_⟩ <;> apply UInt8.toNat_inj.mp <;> simp only [UInt8.toNat_ofNat'] <;> omega

@[simp] theorem leBytes32_ofLe32 (a b c d : UInt8) : leBytes32 (ofLe32 a b c d) = [a, b, c, d] := by
  have ha := a.toNat_lt
  have hb := b.toNat_lt
  have hc := c.toNat_lt
  have hd := d.toNat_lt
  simp only [leBytes32, byte32, toNat_ofLe32, List.cons.injEq, and_true]
  refine ⟨?_, ?_, ?_, ?_⟩ <;> apply UInt8.toNat_inj.mp <;> simp only [UInt8.toNat_ofNat'] <;> omega

@[simp] theorem length_leBytes32 (v : UInt32) : (leBytes32 v).length = 4 := rfl

/-- The low `size` bytes of a number. -/
def leBytes (size n : ℕ) : List UInt8 := (List.range size).map fun i => UInt8.ofNat (n / 256 ^ i)

theorem take_leBytes {k size : ℕ} (h : k ≤ size) (n : ℕ) : (leBytes size n).take k = leBytes k n := by
  rw [leBytes, ← List.map_take, List.take_range, Nat.min_eq_left h]
  rfl

/-- The low bytes depend on the low bits only. -/
theorem leBytes_congr {size n m : ℕ} (h : n % 256 ^ size = m % 256 ^ size) :
    leBytes size n = leBytes size m := by
  refine List.map_congr_left ?_
  intro i hi
  have hlt := List.mem_range.mp hi
  have hbyte : ∀ x : ℕ, x / 256 ^ i % 256 = x % 256 ^ size / 256 ^ i % 256 := by
    intro x
    have hsplit : 256 ^ size = 256 ^ i * 256 ^ (size - i) := by
      rw [← pow_add]
      congr 1
      omega
    have hdvd : 256 ∣ 256 ^ (size - i) := dvd_pow_self 256 (by omega)
    rw [hsplit, Nat.mod_mul_right_div_self, Nat.mod_mod_of_dvd _ hdvd]
  apply UInt8.toNat_inj.mp
  rw [UInt8.toNat_ofNat', UInt8.toNat_ofNat', hbyte n, hbyte m, h]

theorem leBytes_inj {size n m : ℕ} (h : leBytes size n = leBytes size m) :
    n % 256 ^ size = m % 256 ^ size := by
  have hbyte (i : ℕ) (hi : i < size) : n / 256 ^ i % 256 = m / 256 ^ i % 256 := by
    have hget := List.map_inj_left.mp h i (List.mem_range.mpr hi)
    have hnat := UInt8.toNat_inj.mpr hget
    rwa [UInt8.toNat_ofNat', UInt8.toNat_ofNat'] at hnat
  have hmod (k : ℕ) (hk : k ≤ size) : n % 256 ^ k = m % 256 ^ k := by
    induction k with
    | zero => rw [pow_zero, Nat.mod_one, Nat.mod_one]
    | succ k ih => rw [Nat.mod_pow_succ, Nat.mod_pow_succ, ih (Nat.le_of_succ_le hk), hbyte k hk]
  exact hmod size (Nat.le_refl size)

end LittleEndian
