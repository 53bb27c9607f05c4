import Mathlib.Algebra.Order.Ring.Int
import Mathlib.Tactic.Linarith
import Mathlib.Tactic.Zify

/-!
# Integers of a fixed width

A type of integers is a width with a signedness. Its values are integers in a range, and its
operations on bits are those of the bit vectors of its width. In a wider type that holds the same
values they give the same results.
-/

namespace FixedWidth

structure IntTy where
  bits : ℕ
  signed : Bool
  pos : 0 < bits
  deriving DecidableEq, Repr

namespace IntTy

variable (ty : IntTy)

/-- The values of a type. -/
def InRange (z : ℤ) : Prop :=
  if ty.signed then -2 ^ (ty.bits - 1) ≤ z ∧ z < 2 ^ (ty.bits - 1) else 0 ≤ z ∧ z < 2 ^ ty.bits

instance (z : ℤ) : Decidable (ty.InRange z) := by
  unfold InRange
  infer_instance

def ofBits (x : BitVec ty.bits) : ℤ := if ty.signed then x.toInt else x.toNat

/-- The value of the low bits. -/
def wrap (z : ℤ) : ℤ := ty.ofBits (BitVec.ofInt ty.bits z)

/-- A result, if it is in range. -/
def checked (z : ℤ) : Option ℤ := if ty.InRange z then some z else none

variable {ty} {a b z : ℤ}

theorem inRange_signed (h : ty.signed = true) :
    ty.InRange z ↔ -2 ^ (ty.bits - 1) ≤ z ∧ z < 2 ^ (ty.bits - 1) := by
  rw [InRange, if_pos h]

theorem inRange_unsigned (h : ty.signed = false) : ty.InRange z ↔ 0 ≤ z ∧ z < 2 ^ ty.bits := by
  rw [InRange, h]
  rfl

theorem inRange_ofBits (x : BitVec ty.bits) : ty.InRange (ty.ofBits x) := by
  cases h : ty.signed with
  | true =>
    rw [inRange_signed h, ofBits, if_pos h]
    exact ⟨x.le_toInt, x.toInt_lt⟩
  | false =>
    rw [inRange_unsigned h, ofBits, h, if_neg Bool.false_ne_true]
    have hlt := x.isLt
    constructor
    · exact Int.natCast_nonneg _
    · exact_mod_cast hlt

theorem checked_eq_some_iff {r : ℤ} : ty.checked z = some r ↔ ty.InRange z ∧ r = z := by
  unfold checked
  split_ifs with h
  · simp only [h, Option.some.injEq, true_and, eq_comm]
  · simp only [h, false_and]

/-! ## Wider types -/

/-- An operation on bit vectors that acts on each bit alone. -/
structure Bitwise (op : ∀ {n : ℕ}, BitVec n → BitVec n → BitVec n) : Prop where
  signExtend : ∀ {n : ℕ} (w : ℕ) (x y : BitVec n),
    (op x y).signExtend w = op (x.signExtend w) (y.signExtend w)
  setWidth : ∀ {n : ℕ} (w : ℕ) (x y : BitVec n), (op x y).setWidth w = op (x.setWidth w) (y.setWidth w)
  msb : ∀ {n : ℕ} (x y : BitVec n), x.msb = false → y.msb = false → (op x y).msb = false

theorem bitwise_and : Bitwise fun x y => x &&& y where
  signExtend := fun w x y => BitVec.signExtend_and
  setWidth := fun w x y => BitVec.setWidth_and
  msb := fun x y hx hy => by rw [BitVec.msb_and, hx, hy]; rfl

theorem bitwise_or : Bitwise fun x y => x ||| y where
  signExtend := fun w x y => BitVec.signExtend_or
  setWidth := fun w x y => BitVec.setWidth_or
  msb := fun x y hx hy => by rw [BitVec.msb_or, hx, hy]; rfl

theorem bitwise_xor : Bitwise fun x y => x ^^^ y where
  signExtend := fun w x y => BitVec.signExtend_xor
  setWidth := fun w x y => BitVec.setWidth_xor
  msb := fun x y hx hy => by rw [BitVec.msb_xor, hx, hy]; rfl

section
variable {w : ℕ} (hw : ty.bits ≤ w)
include hw

theorem ofInt_signExtend (hsigned : ty.signed = true) (h : ty.InRange z) :
    BitVec.ofInt w z = (BitVec.ofInt ty.bits z).signExtend w := by
  obtain ⟨hlow, hhigh⟩ := (inRange_signed hsigned).mp h
  have hpos := ty.pos
  have hle : (2 : ℤ) ^ (ty.bits - 1) ≤ 2 ^ (w - 1) := pow_le_pow_right₀ (by norm_num) (by omega)
  apply BitVec.eq_of_toInt_eq
  rw [BitVec.toInt_signExtend_of_le hw, BitVec.toInt_ofInt_eq_self hpos hlow hhigh,
    BitVec.toInt_ofInt_eq_self (by omega) (by linarith) (by linarith)]

theorem ofInt_setWidth (hsigned : ty.signed = false) (h : ty.InRange z) :
    BitVec.ofInt w z = (BitVec.ofInt ty.bits z).setWidth w := by
  obtain ⟨hlow, hhigh⟩ := (inRange_unsigned hsigned).mp h
  have hle : (2 : ℤ) ^ ty.bits ≤ 2 ^ w := pow_le_pow_right₀ (by norm_num) hw
  apply BitVec.eq_of_toNat_eq
  rw [BitVec.toNat_setWidth, BitVec.toNat_ofInt, BitVec.toNat_ofInt]
  push_cast
  rw [Int.emod_eq_of_lt hlow hhigh, Int.emod_eq_of_lt hlow (by linarith), Nat.mod_eq_of_lt]
  zify
  rw [Int.toNat_of_nonneg hlow]
  linarith

/-- An operation on bits gives the same in a wider signed type that holds its operands. -/
theorem toInt_bitwise {op : ∀ {n : ℕ}, BitVec n → BitVec n → BitVec n} (hop : Bitwise op)
    (ha : ty.InRange a) (hb : ty.InRange b) (ha' : a < 2 ^ (w - 1)) (hb' : b < 2 ^ (w - 1)) :
    (op (BitVec.ofInt w a) (BitVec.ofInt w b)).toInt =
      ty.ofBits (op (BitVec.ofInt ty.bits a) (BitVec.ofInt ty.bits b)) := by
  cases hsigned : ty.signed with
  | true =>
    rw [ofInt_signExtend hw hsigned ha, ofInt_signExtend hw hsigned hb, ← hop.signExtend,
      BitVec.toInt_signExtend_of_le hw, ofBits, if_pos hsigned]
  | false =>
    have hmsb {z : ℤ} (hz : ty.InRange z) (hz' : z < 2 ^ (w - 1)) : (BitVec.ofInt w z).msb = false := by
      obtain ⟨hlow, -⟩ := (inRange_unsigned hsigned).mp hz
      have hpos := ty.pos
      have hself : (BitVec.ofInt w z).toInt = z := by
        have hneg : -2 ^ (w - 1) ≤ (0 : ℤ) := by
          rw [Left.neg_nonpos_iff]
          exact pow_nonneg (by norm_num) _
        exact BitVec.toInt_ofInt_eq_self (by omega) (hneg.trans hlow) hz'
      rw [BitVec.msb_eq_toInt, hself, decide_eq_false (not_lt.mpr hlow)]
    rw [BitVec.toInt_eq_toNat_of_msb (hop.msb _ _ (hmsb ha ha') (hmsb hb hb')), ofInt_setWidth hw hsigned ha,
      ofInt_setWidth hw hsigned hb, ← hop.setWidth, BitVec.toNat_setWidth, Nat.mod_eq_of_lt, ofBits, hsigned]
    · rfl
    · exact (BitVec.isLt _).trans_le (Nat.pow_le_pow_right (by decide) hw)

end

end IntTy

end FixedWidth
