import Mathlib.Tactic

/-!
# Byte strings as numbers and bits

`leNat` is the number a byte string stands for, least significant byte first; `bitAt` is
one of its bits. A byte string is determined by its length and its bits, so programs that
move bits are compared bit by bit. A `field` is the number in a run of bits.
-/

namespace ByteBits

/-! ## Numbers -/

def leNat : List UInt8 → ℕ
  | [] => 0
  | b :: bs => b.toNat + 256 * leNat bs

@[simp] theorem leNat_nil : leNat [] = 0 := rfl

theorem leNat_lt (bs : List UInt8) : leNat bs < 2 ^ (8 * bs.length) := by
  induction bs with
  | nil => simp
  | cons b bs ih =>
    have hb := b.toNat_lt
    have hpow : 2 ^ (8 * (b :: bs).length) = 256 * 2 ^ (8 * bs.length) := by
      rw [List.length_cons, Nat.mul_add, Nat.pow_add, Nat.mul_comm]
    unfold leNat
    omega

@[simp] theorem leNat_replicate_zero (n : ℕ) : leNat (List.replicate n 0) = 0 := by
  induction n with
  | zero => rfl
  | succ n ih => simp [List.replicate_succ, leNat, ih]

theorem leNat_inj {as bs : List UInt8} (hlen : as.length = bs.length) (h : leNat as = leNat bs) :
    as = bs := by
  induction as generalizing bs with
  | nil =>
    cases bs with
    | nil => rfl
    | cons b bs => cases hlen
  | cons a as ih =>
    cases bs with
    | nil => cases hlen
    | cons b bs =>
      have ha := a.toNat_lt
      have hb := b.toNat_lt
      unfold leNat at h
      have hhead : a = b := UInt8.toNat_inj.mp (by omega)
      have htail : leNat as = leNat bs := by omega
      rw [hhead, ih (Nat.succ.inj hlen) htail]

/-! ## Bits -/

/-- Bit `i` of a byte string, counted from the least significant bit of the first byte. -/
def bitAt (bs : List UInt8) (i : ℕ) : Bool := (bs.getD (i / 8) 0).toNat.testBit (i % 8)

theorem bitAt_eq_testBit (bs : List UInt8) (i : ℕ) : bitAt bs i = (leNat bs).testBit i := by
  induction bs generalizing i with
  | nil => simp [bitAt]
  | cons b bs ih =>
    have hb := b.toNat_lt
    have hform : leNat (b :: bs) = 2 ^ 8 * leNat bs + b.toNat := by
      rw [leNat]
      ring
    rw [hform, Nat.testBit_two_pow_mul_add _ hb]
    by_cases hi : i < 8
    · rw [if_pos hi, bitAt, Nat.div_eq_of_lt hi, Nat.mod_eq_of_lt hi]
      rfl
    · have hdiv : i / 8 = (i - 8) / 8 + 1 := by omega
      have hmod : i % 8 = (i - 8) % 8 := by omega
      rw [if_neg hi, ← ih, bitAt, bitAt, hdiv, hmod]
      rfl

theorem bitAt_of_le {bs : List UInt8} {i : ℕ} (h : 8 * bs.length ≤ i) : bitAt bs i = false := by
  rw [bitAt_eq_testBit]
  exact Nat.testBit_lt_two_pow ((leNat_lt bs).trans_le (Nat.pow_le_pow_right (by decide) h))

@[simp] theorem bitAt_replicate_zero (n i : ℕ) : bitAt (List.replicate n 0) i = false := by
  rw [bitAt_eq_testBit, leNat_replicate_zero, Nat.zero_testBit]

theorem bitAt_take (bs : List UInt8) (k i : ℕ) :
    bitAt (bs.take k) i = (decide (i < 8 * k) && bitAt bs i) := by
  unfold bitAt
  by_cases hi : i < 8 * k
  · have hlt : i / 8 < k := by omega
    rw [List.getD_eq_getElem?_getD, List.getElem?_take_of_lt hlt, ← List.getD_eq_getElem?_getD,
      decide_eq_true hi, Bool.true_and]
  · have hle : (bs.take k).length ≤ i / 8 := (List.length_take_le k bs).trans (by omega)
    rw [List.getD_eq_getElem?_getD, List.getElem?_eq_none hle, decide_eq_false hi]
    simp

theorem bitAt_append (as bs : List UInt8) (i : ℕ) :
    bitAt (as ++ bs) i = if i < 8 * as.length then bitAt as i else bitAt bs (i - 8 * as.length) := by
  unfold bitAt
  rw [List.getD_eq_getElem?_getD, List.getD_eq_getElem?_getD, List.getD_eq_getElem?_getD]
  by_cases hi : i < 8 * as.length
  · rw [if_pos hi, List.getElem?_append_left (by omega)]
  · have hdiv : (i - 8 * as.length) / 8 = i / 8 - as.length := by omega
    have hmod : (i - 8 * as.length) % 8 = i % 8 := by omega
    rw [if_neg hi, List.getElem?_append_right (by omega), hdiv, hmod]

theorem bitAt_drop (bs : List UInt8) (k i : ℕ) : bitAt (bs.drop k) i = bitAt bs (8 * k + i) := by
  have hdiv : (8 * k + i) / 8 = k + i / 8 := by omega
  have hmod : (8 * k + i) % 8 = i % 8 := by omega
  unfold bitAt
  rw [List.getD_eq_getElem?_getD, List.getD_eq_getElem?_getD, List.getElem?_drop, hdiv, hmod]

theorem leNat_eq_of_bitAt {as bs : List UInt8} (h : ∀ i, bitAt as i = bitAt bs i) :
    leNat as = leNat bs := by
  apply Nat.eq_of_testBit_eq
  intro i
  rw [← bitAt_eq_testBit, ← bitAt_eq_testBit, h i]

/-! ## Setting bits -/

def byteWith (b : UInt8) (k : ℕ) (v : Bool) : UInt8 :=
  if v then b ||| 1 <<< UInt8.ofNat k else b &&& ~~~(1 <<< UInt8.ofNat k)

theorem mask_testBit (k j : Fin 8) :
    ((1 : UInt8) <<< UInt8.ofNat k.1).toNat.testBit j.1 = decide (j = k) ∧
      (~~~((1 : UInt8) <<< UInt8.ofNat k.1)).toNat.testBit j.1 = !decide (j = k) := by
  revert k j
  decide

theorem testBit_byteWith (b : UInt8) {k j : ℕ} (hk : k < 8) (hj : j < 8) (v : Bool) :
    (byteWith b k v).toNat.testBit j = if j = k then v else b.toNat.testBit j := by
  obtain ⟨hor, hand⟩ := mask_testBit ⟨k, hk⟩ ⟨j, hj⟩
  simp only [Fin.mk.injEq] at hor hand
  unfold byteWith
  cases v with
  | true =>
    rw [if_pos rfl, UInt8.toNat_or, Nat.testBit_or, hor]
    by_cases h : j = k
    · simp [h]
    · simp [h]
  | false =>
    rw [if_neg (by decide), UInt8.toNat_and, Nat.testBit_and, hand]
    by_cases h : j = k
    · simp [h]
    · simp [h]

/-- Setting one bit changes that bit only. -/
theorem bitAt_modify_byteWith (bs : List UInt8) {i : ℕ} (hi : i < 8 * bs.length) (v : Bool)
    (j : ℕ) : bitAt (bs.modify (i / 8) fun b => byteWith b (i % 8) v) j =
      if j = i then v else bitAt bs j := by
  unfold bitAt
  rw [List.getD_eq_getElem?_getD, List.getD_eq_getElem?_getD, List.getElem?_modify]
  have hmod := Nat.mod_lt i (by decide : 0 < 8)
  have hmodj := Nat.mod_lt j (by decide : 0 < 8)
  have hlt : i / 8 < bs.length := by omega
  by_cases hbyte : i / 8 = j / 8
  · simp only [← hbyte, List.getElem?_eq_getElem hlt, if_true, Option.map_eq_map, Option.map_some,
      Option.getD_some, testBit_byteWith _ hmod hmodj]
    by_cases hj : j % 8 = i % 8
    · rw [if_pos hj, if_pos (by omega)]
    · rw [if_neg hj, if_neg (by rintro rfl; exact hj rfl)]
  · simp only [hbyte, if_false, Option.map_eq_map, Option.map_id']
    rw [if_neg (by rintro rfl; exact hbyte rfl)]

/-! ## Fields -/

/-- The number in the `n` bits from bit `off` on. -/
def field (bs : List UInt8) (off n : ℕ) : ℕ := leNat bs / 2 ^ off % 2 ^ n

theorem field_lt (bs : List UInt8) (off n : ℕ) : field bs off n < 2 ^ n :=
  Nat.mod_lt _ (Nat.two_pow_pos n)

@[simp] theorem testBit_field (bs : List UInt8) (off n i : ℕ) :
    (field bs off n).testBit i = (decide (i < n) && bitAt bs (off + i)) := by
  rw [field, Nat.testBit_mod_two_pow, Nat.testBit_div_two_pow, bitAt_eq_testBit, Nat.add_comm]

theorem field_congr {as bs : List UInt8} {o o' n : ℕ}
    (h : ∀ i < n, bitAt as (o + i) = bitAt bs (o' + i)) : field as o n = field bs o' n := by
  apply Nat.eq_of_testBit_eq
  intro i
  rw [testBit_field, testBit_field]
  by_cases hi : i < n
  · rw [h i hi]
  · simp [hi]

theorem field_zero (bs : List UInt8) (n : ℕ) : field bs 0 n = leNat bs % 2 ^ n := by
  rw [field, Nat.pow_zero, Nat.div_one]

/-! ## Widening -/

theorem leNat_of_bits {bs : List UInt8} {n x : ℕ} (hx : x < 2 ^ n)
    (h : ∀ i, bitAt bs i = (decide (i < n) && x.testBit i)) : leNat bs = x := by
  apply Nat.eq_of_testBit_eq
  intro i
  rw [← bitAt_eq_testBit, h i]
  by_cases hi : i < n
  · simp [hi]
  · have hle : 2 ^ n ≤ 2 ^ i := Nat.pow_le_pow_right (by decide) (by omega)
    simp [hi, Nat.testBit_lt_two_pow (hx.trans_le hle)]

theorem testBit_top {n x : ℕ} (hx : x < 2 ^ (n + 1)) : x.testBit n = decide (2 ^ n ≤ x) := by
  have hpow : 2 ^ (n + 1) = 2 * 2 ^ n := by rw [Nat.pow_succ, Nat.mul_comm]
  by_cases hle : 2 ^ n ≤ x
  · obtain ⟨y, rfl⟩ := Nat.exists_eq_add_of_le hle
    rw [Nat.testBit_two_pow_add_eq, Nat.testBit_lt_two_pow (by omega)]
    simp
  · rw [Nat.testBit_lt_two_pow (by omega), decide_eq_false hle]

/-- Repeating the top bit of a number keeps its value in two's complement. -/
theorem bmod_of_sign_bits {bs : List UInt8} {n x : ℕ} (hn : n + 1 ≤ 8 * bs.length)
    (hx : x < 2 ^ (n + 1))
    (h : ∀ i < 8 * bs.length, bitAt bs i = if i < n + 1 then x.testBit i else x.testBit n) :
    Int.bmod (leNat bs) (2 ^ (8 * bs.length)) = Int.bmod x (2 ^ (n + 1)) := by
  obtain ⟨k, hk⟩ := Nat.exists_eq_add_of_le hn
  have hpow : 2 ^ (n + 1) = 2 * 2 ^ n := by rw [Nat.pow_succ, Nat.mul_comm]
  have hle : 2 ^ (n + 1) ≤ 2 ^ (8 * bs.length) := Nat.pow_le_pow_right (by decide) hn
  have htop := testBit_top hx
  by_cases hsign : 2 ^ n ≤ x
  · -- the bits above are ones: the number is the modulus less what `x` misses
    have hvalue : leNat bs = 2 ^ (n + 1) * (2 ^ k - 1) + x := by
      apply Nat.eq_of_testBit_eq
      intro i
      rw [← bitAt_eq_testBit, Nat.testBit_two_pow_mul_add _ hx, Nat.testBit_two_pow_sub_one]
      by_cases hi : i < 8 * bs.length
      · rw [h i hi, htop, decide_eq_true hsign]
        by_cases hin : i < n + 1
        · rw [if_pos hin, if_pos hin]
        · rw [if_neg hin, if_neg hin]
          simp only [true_eq_decide_iff]
          omega
      · rw [bitAt_of_le (by omega), if_neg (by omega)]
        simp only [false_eq_decide_iff]
        omega
    have hmod : 2 ^ (n + 1) * (2 ^ k - 1) + 2 ^ (n + 1) = 2 ^ (8 * bs.length) := by
      have hsplit : 2 ^ (8 * bs.length) = 2 ^ (n + 1) * 2 ^ k := by rw [hk, Nat.pow_add]
      have hone := Nat.le_mul_of_pos_right (2 ^ (n + 1)) (Nat.two_pow_pos k)
      rw [hsplit, Nat.mul_sub, Nat.mul_one]
      omega
    have hneg : Int.bmod x (2 ^ (n + 1)) = (x : ℤ) - (2 ^ (n + 1) : ℕ) := by
      rw [Int.bmod_def, Int.emod_eq_of_lt (by omega) (by omega), if_neg (by omega)]
    have hneg' : Int.bmod (leNat bs) (2 ^ (8 * bs.length)) =
        (leNat bs : ℤ) - (2 ^ (8 * bs.length) : ℕ) := by
      have hlt := leNat_lt bs
      rw [Int.bmod_def, Int.emod_eq_of_lt (by omega) (by omega), if_neg (by omega)]
    rw [hneg, hneg']
    omega
  · have hvalue : leNat bs = x := by
      refine leNat_of_bits hx fun i => ?_
      by_cases hi : i < 8 * bs.length
      · rw [h i hi, htop, decide_eq_false hsign]
        by_cases hin : i < n + 1
        · simp [hin]
        · simp [hin]
      · rw [bitAt_of_le (by omega)]
        have : ¬i < n + 1 := by omega
        simp [this]
    rw [hvalue, Int.bmod_eq_of_le_mul_two (by omega) (by omega),
      Int.bmod_eq_of_le_mul_two (by omega) (by omega)]

/-! ## All bytes -/

theorem forall_byte {q : UInt8 → Bool} (h : (List.range 16).all (fun i =>
    (List.range 16).all fun j => q (UInt8.ofNat (16 * i + j))) = true) (b : UInt8) : q b = true := by
  have hlt := b.toNat_lt
  have hrow := List.all_eq_true.mp h (b.toNat / 16) (List.mem_range.mpr (by omega))
  have hb := List.all_eq_true.mp hrow (b.toNat % 16) (List.mem_range.mpr (Nat.mod_lt _ (by omega)))
  rw [Nat.div_add_mod, UInt8.ofNat_toNat] at hb
  exact hb

end ByteBits
