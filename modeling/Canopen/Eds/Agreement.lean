import Mathlib.Data.List.TakeWhile
import Canopen.Eds.Values

/-!
# The two readers of values

When the DCF reader and the EDS importer agree on a boolean or integer value. They part
on quoted numbers, on a negative zero of an unsigned type, on the spellings of booleans
other than `0`, `1`, `true` and `false`, and on `$NODEID` in mixed letter case.
-/

namespace Canopen.Eds

open LittleEndian Text

def importDefault (value : List Char) (dataType : UInt16) : Option Literal :=
  (datatypeToRust dataType).bind fun _ => normalizeDefault value dataType

def Literal.bytes (t : DataType) : Literal → Option (List UInt8)
  | .int z => t.size.map fun size => leBytes size (z % 2 ^ 64).toNat
  | .bool b => some [if b then 1 else 0]
  | .source _ => none

/-! ## Integers -/

theorem filter_le {n bound : ℕ} (h : n ≤ bound) : (some n).filter (· ≤ bound) = some n := by
  rw [Option.filter_some, if_pos (decide_eq_true h)]

theorem filter_not_le {n bound : ℕ} (h : ¬n ≤ bound) : (some n).filter (· ≤ bound) = none := by
  rw [Option.filter_some, if_neg (by simpa using h)]

theorem filter_lt {n bound : ℕ} (h : n < bound) : (some n).filter (· < bound) = some n := by
  rw [Option.filter_some, if_pos (decide_eq_true h)]

theorem filter_not_lt {n bound : ℕ} (h : ¬n < bound) : (some n).filter (· < bound) = none := by
  rw [Option.filter_some, if_neg (by simpa using h)]

theorem stripHex_eq_some {v digits : List Char} (h : stripHex v = some digits) :
    (∃ x, (x = 'x' ∨ x = 'X') ∧ v = '0' :: x :: digits) ∧
      ("0x".toList.isPrefixOf v || "0X".toList.isPrefixOf v) = true := by
  unfold stripHex stripPrefix at h
  rcases Option.or_eq_some_iff.mp h with h | ⟨-, h⟩ <;> split_ifs at h with hfront <;> cases h
  · obtain ⟨t, rfl⟩ := List.isPrefixOf_iff_prefix.mp hfront
    exact ⟨⟨'x', .inl rfl, by simp⟩, by simp⟩
  · obtain ⟨t, rfl⟩ := List.isPrefixOf_iff_prefix.mp hfront
    exact ⟨⟨'X', .inr rfl, by simp⟩, by simp⟩

theorem stripHex_eq_none {v : List Char} (h : stripHex v = none) :
    ("0x".toList.isPrefixOf v || "0X".toList.isPrefixOf v) = false := by
  unfold stripHex stripPrefix at h
  obtain ⟨h₁, h₂⟩ := Option.or_eq_none_iff.mp h
  split_ifs at h₁ h₂ with hx hX
  rw [Bool.or_eq_false_iff]
  exact ⟨Bool.eq_false_iff.mpr hx, Bool.eq_false_iff.mpr hX⟩

/-- A minus sign before zeros only. -/
def minusZero (v : List Char) : Prop := ∃ l, v = '-' :: l ∧ digits 10 l = some 0

/-- The bits the DCF reader allows to a number that does not start with a minus sign. -/
def limitBits (bits : ℕ) (signed : Bool) (v : List Char) : ℕ :=
  if signed && !("0x".toList.isPrefixOf v || "0X".toList.isPrefixOf v) then bits - 1 else bits

/-- The texts of numbers of a type: a decimal number in range or a hexadecimal bit pattern
that fits. -/
def IsNumber (bits : ℕ) (signed : Bool) (v : List Char) : Prop :=
  (signed = true ∧ ∃ l n, v = '-' :: l ∧ digits 10 l = some n ∧ n ≤ 2 ^ (bits - 1)) ∨
    ∃ n, parseInt v = some n ∧ n < 2 ^ limitBits bits signed v

theorem parseInt_minus (l : List Char) : parseInt ('-' :: l) = none := by
  cases h : parseInt ('-' :: l) with
  | none => rfl
  | some n =>
    exfalso
    unfold parseInt at h
    -- white space is removed behind the sign only
    have hhead : (trim ('-' :: l)).head? = some '-' := by
      have hkeep : ('-' :: l).dropWhile isWhite = '-' :: l :=
        List.dropWhile_cons_of_neg (by decide)
      have hlast : (('-' :: l).reverse.dropWhile isWhite).getLast? = some '-' := by
        obtain ⟨t, ht⟩ := ('-' :: l).reverse.dropWhile_suffix isWhite
        have hmem : ('-' :: l).reverse.dropWhile isWhite ≠ [] := by
          intro hnil
          have hall : ∀ c ∈ ('-' :: l).reverse, isWhite c = true := List.dropWhile_eq_nil_iff.mp hnil
          exact absurd (hall '-' (by simp)) (by decide)
        have hwhole : ('-' :: l).reverse.getLast? = some '-' := by
          rw [List.getLast?_reverse]
          rfl
        rw [← ht, List.getLast?_append_of_ne_nil _ hmem] at hwhole
        exact hwhole
      rw [trim, trimMatches, hkeep, List.head?_reverse]
      exact hlast
    generalize htrim : trim ('-' :: l) = s at h hhead
    cases s with
    | nil => cases hhead
    | cons c s =>
      cases hhead
      dsimp only at h
      cases hstrip : stripHex ('-' :: s) with
      | some digits =>
        obtain ⟨⟨x, -, hx⟩, -⟩ := stripHex_eq_some hstrip
        cases hx
      | none =>
        rw [hstrip] at h
        dsimp only at h
        rw [fromStrRadix_of_head (by simp)] at h
        have hdigits := (Option.filter_eq_some_iff.mp h).1
        have hminus := charValue_of_digits hdigits '-' (by simp)
        exact absurd hminus (by decide)

theorem parseInt_lt {v : List Char} {n : ℕ} (h : parseInt v = some n) : n < 2 ^ 64 := by
  unfold parseInt at h
  dsimp only at h
  split at h <;> exact of_decide_eq_true (Option.filter_eq_some_iff.mp h).2

theorem serializeInteger_minus {bits : ℕ} (hbits : bits ≤ 64) (l : List Char) :
    serializeInteger ('-' :: l) bits true = ((digits 10 l).filter (· ≤ 2 ^ (bits - 1))).map
      fun n : ℕ => wireBytes ((-(n : ℤ)) % 2 ^ 64).toNat bits := by
  have hhalf : (2 : ℕ) ^ (bits - 1) ≤ 2 ^ 63 := Nat.pow_le_pow_right (by omega) (by omega)
  have hcast : ((2 ^ (bits - 1) : ℕ) : ℤ) = 2 ^ (bits - 1) := by push_cast; rfl
  unfold serializeInteger
  rw [if_pos (by simp), fromStrSigned_minus]
  cases digits 10 l with
  | none => rfl
  | some n =>
    by_cases hle : n ≤ 2 ^ (bits - 1)
    · have hnot : ¬-(n : ℤ) < -2 ^ (bits - 1) := by
        have : (n : ℤ) ≤ ((2 ^ (bits - 1) : ℕ) : ℤ) := by exact_mod_cast hle
        omega
      rw [filter_le (hle.trans hhalf), filter_le hle]
      exact if_neg hnot
    · have hlt : -(n : ℤ) < -2 ^ (bits - 1) := by
        have : ((2 ^ (bits - 1) : ℕ) : ℤ) < n := by exact_mod_cast Nat.not_le.mp hle
        omega
      rw [filter_not_le hle]
      by_cases h63 : n ≤ 2 ^ 63
      · rw [filter_le h63]
        exact if_pos hlt
      · rw [filter_not_le h63]
        rfl

theorem serializeInteger_plain (bits : ℕ) {signed : Bool} {v : List Char}
    (h : ¬(signed = true ∧ v.head? = some '-')) :
    serializeInteger v bits signed =
      ((parseInt v).filter (· < 2 ^ limitBits bits signed v)).map (wireBytes · bits) := by
  unfold serializeInteger
  rw [if_neg (by simpa using h)]
  cases hparse : parseInt v with
  | none => rfl
  | some n =>
    have hlt := parseInt_lt hparse
    change (if limitBits bits signed v < 64 ∧ 2 ^ limitBits bits signed v ≤ n then none
      else some (wireBytes n bits)) = _
    by_cases hn : n < 2 ^ limitBits bits signed v
    · rw [if_neg (fun hguard => Nat.not_le.mpr hn hguard.2), filter_lt hn]
      rfl
    · have hsmall : limitBits bits signed v < 64 := by
        by_contra hge
        have : (2 : ℕ) ^ 64 ≤ 2 ^ limitBits bits signed v :=
          Nat.pow_le_pow_right (by omega) (by omega)
        omega
      rw [if_pos ⟨hsmall, Nat.not_lt.mp hn⟩, filter_not_lt hn]
      rfl

theorem serializeInteger_isSome {bits : ℕ} (hbits : bits ≤ 64) (signed : Bool) (v : List Char) :
    (serializeInteger v bits signed).isSome = true ↔ IsNumber bits signed v := by
  unfold IsNumber
  by_cases hminus : signed = true ∧ v.head? = some '-'
  · obtain ⟨rfl, hhead⟩ := hminus
    obtain ⟨l, rfl⟩ := List.head?_eq_some_iff.mp hhead
    rw [serializeInteger_minus hbits, parseInt_minus]
    cases hdigits : digits 10 l <;> simp [hdigits, Option.filter_some]
  · have hnot : ¬(signed = true ∧ ∃ l n, v = '-' :: l ∧ digits 10 l = some n ∧ n ≤ 2 ^ (bits - 1)) := by
      rintro ⟨hsigned, l, n, rfl, -⟩
      exact hminus ⟨hsigned, rfl⟩
    rw [or_iff_right hnot, serializeInteger_plain bits hminus]
    cases parseInt v <;> simp [Option.filter_some]

/-! ### Bytes -/

/-- The wire bytes depend on the value modulo the width of the type. -/
theorem wireBytes_congr {bits n : ℕ} {z : ℤ} (hbytes : 8 ∣ bits) (hbits : bits ≤ 64)
    (h : (n : ℤ) % 2 ^ bits = z % 2 ^ bits) :
    wireBytes n bits = wireBytes (z % 2 ^ 64).toNat bits := by
  obtain ⟨k, rfl⟩ := hbytes
  have hk : 8 * k / 8 = k := Nat.mul_div_cancel_left k (by omega)
  have hdvd : (2 : ℤ) ^ (8 * k) ∣ 2 ^ 64 := pow_dvd_pow 2 hbits
  have hnonneg : 0 ≤ z % 2 ^ 64 := Int.emod_nonneg _ (by norm_num)
  have hmod : (((z % 2 ^ 64).toNat : ℕ) : ℤ) % 2 ^ (8 * k) = (n : ℤ) % 2 ^ (8 * k) := by
    rw [Int.toNat_of_nonneg hnonneg, Int.emod_emod_of_dvd _ hdvd, h]
  have hnat : n % 2 ^ (8 * k) = (z % 2 ^ 64).toNat % 2 ^ (8 * k) := by
    exact_mod_cast hmod.symm
  have hpow : (256 : ℕ) ^ k = 2 ^ (8 * k) := by
    rw [pow_mul]
    norm_num
  unfold wireBytes
  rw [hk, take_leBytes (by omega), take_leBytes (by omega)]
  exact leBytes_congr (by rw [hpow]; exact hnat)

theorem two_pow_succ_pred {bits : ℕ} (hbits : 1 ≤ bits) : (2 : ℕ) ^ bits = 2 * 2 ^ (bits - 1) := by
  rw [← pow_succ']
  congr 1
  omega

theorem inRange_fromPattern {bits raw : ℕ} (hbits : 1 ≤ bits) (signed : Bool) (h : raw < 2 ^ bits) :
    inRange bits signed (fromPattern bits signed raw) = true ∧
      fromPattern bits signed raw % 2 ^ bits = (raw : ℤ) % 2 ^ bits := by
  have hdouble := two_pow_succ_pred hbits
  have hcast : (2 : ℤ) ^ bits = ((2 ^ bits : ℕ) : ℤ) := by push_cast; rfl
  have hcast' : (2 : ℤ) ^ (bits - 1) = ((2 ^ (bits - 1) : ℕ) : ℤ) := by push_cast; rfl
  unfold inRange fromPattern
  rw [hcast, hcast']
  generalize (2 : ℕ) ^ bits = whole at h hdouble ⊢
  generalize (2 : ℕ) ^ (bits - 1) = half at hdouble ⊢
  have hpos : 0 < half := by omega
  cases signed with
  | false => simp; omega
  | true =>
    have hdiv : raw / half % 2 = 1 ↔ half ≤ raw := by
      rcases Nat.lt_or_ge raw half with hlt | hge
      · rw [Nat.div_eq_of_lt hlt]
        omega
      · have hone : raw / half = 1 := by
          rw [Nat.div_eq_iff hpos]
          omega
        rw [hone]
        omega
    by_cases hge : half ≤ raw
    · have hbit : (true && raw / half % 2 == 1) = true := by simpa using hdiv.mpr hge
      rw [if_pos hbit]
      refine ⟨by simp; omega, ?_⟩
      exact Int.sub_emod_right _ _
    · have hbit : ¬(true && raw / half % 2 == 1) = true := by simpa using mt hdiv.mp hge
      rw [if_neg hbit]
      exact ⟨by simp; omega, rfl⟩

/-! ### Unquoted texts -/

variable {bits : ℕ} {signed : Bool} {v : List Char}

theorem head_of_stripHex {digits : List Char} (h : stripHex v = some digits) : v.head? = some '0' := by
  obtain ⟨⟨x, -, rfl⟩, -⟩ := stripHex_eq_some h
  rfl

theorem serializeInteger_hex (hbits : 1 ≤ bits ∧ bits ≤ 64) (hbytes : 8 ∣ bits) (hv : trim v = v)
    {digits : List Char} (hstrip : stripHex v = some digits) :
    serializeInteger v bits signed =
      (readInteger bits signed v).map fun z => wireBytes (z % 2 ^ 64).toNat bits := by
  have hhead := head_of_stripHex hstrip
  have hplain : ¬(signed = true ∧ v.head? = some '-') := by
    rw [hhead]
    simp
  have hlimit : limitBits bits signed v = bits := by
    unfold limitBits
    rw [(stripHex_eq_some hstrip).2]
    simp
  rw [serializeInteger_plain bits hplain, hlimit]
  simp only [parseInt, readInteger, hv, hstrip]
  cases hraw : fromStrRadix 16 (2 ^ 64) digits with
  | none => rfl
  | some raw =>
    have hlt : raw < 2 ^ 64 := of_decide_eq_true (Option.filter_eq_some_iff.mp hraw).2
    have hfits : (decide (bits ≥ 64) || raw / 2 ^ bits == 0) = true ↔ raw < 2 ^ bits := by
      rw [Bool.or_eq_true, decide_eq_true_eq, beq_iff_eq, Nat.div_eq_zero_iff]
      have hpos : (2 : ℕ) ^ bits ≠ 0 := by positivity
      constructor
      · rintro (h64 | hzero | hfit)
        · have hbits64 : bits = 64 := by omega
          rw [hbits64]
          exact hlt
        · exact (hpos hzero).elim
        · exact hfit
      · exact fun hfit => .inr (.inr hfit)
    by_cases hfit : raw < 2 ^ bits
    · obtain ⟨hrange, hmod⟩ := inRange_fromPattern hbits.1 signed hfit
      rw [filter_lt hfit, Option.filter_some, if_pos (hfits.mpr hfit), Option.map_some,
        Option.map_some, Option.filter_some, if_pos hrange, Option.map_some]
      congr 1
      exact wireBytes_congr hbytes hbits.2 hmod.symm
    · rw [filter_not_lt hfit, Option.filter_some, if_neg (mt hfits.mp hfit)]
      rfl

theorem serializeInteger_negative (hbits : 1 ≤ bits ∧ bits ≤ 64) (l : List Char) :
    serializeInteger ('-' :: l) bits true =
      (readInteger bits true ('-' :: l)).map fun z => wireBytes (z % 2 ^ 64).toNat bits := by
  have hstrip : stripHex ('-' :: l) = none := by
    cases h : stripHex ('-' :: l) with
    | none => rfl
    | some digits =>
      have hhead := head_of_stripHex h
      cases hhead
  have hhalf : (2 : ℕ) ^ (bits - 1) ≤ 2 ^ 127 := Nat.pow_le_pow_right (by omega) (by omega)
  have hrange : ∀ n : ℕ, inRange bits true (-(n : ℤ)) = true ↔ n ≤ 2 ^ (bits - 1) := by
    intro n
    have hcast : (2 : ℤ) ^ (bits - 1) = ((2 ^ (bits - 1) : ℕ) : ℤ) := by push_cast; rfl
    have hpos : 0 < (2 : ℕ) ^ (bits - 1) := by positivity
    simp only [inRange, hcast, if_true, Bool.and_eq_true, decide_eq_true_eq]
    omega
  rw [serializeInteger_minus hbits.2]
  simp only [readInteger, hstrip, fromStrSigned_minus]
  cases digits 10 l with
  | none => rfl
  | some n =>
    by_cases hle : n ≤ 2 ^ (bits - 1)
    · rw [filter_le hle, filter_le (hle.trans hhalf), Option.map_some, Option.map_some,
        Option.filter_some, if_pos ((hrange n).mpr hle)]
      rfl
    · rw [filter_not_le hle]
      by_cases h127 : n ≤ 2 ^ 127
      · rw [filter_le h127, Option.map_some, Option.filter_some, if_neg (mt (hrange n).mp hle)]
        rfl
      · rw [filter_not_le h127]
        rfl

theorem serializeInteger_decimal (hbits : 1 ≤ bits ∧ bits ≤ 64) (hbytes : 8 ∣ bits) (hv : trim v = v)
    (hstrip : stripHex v = none) (hhead : v.head? ≠ some '-') :
    serializeInteger v bits signed =
      (readInteger bits signed v).map fun z => wireBytes (z % 2 ^ 64).toNat bits := by
  have hplain : ¬(signed = true ∧ v.head? = some '-') := fun h => hhead h.2
  have hlimit : limitBits bits signed v = if signed then bits - 1 else bits := by
    unfold limitBits
    rw [stripHex_eq_none hstrip]
    simp
  have hle : (2 : ℕ) ^ (if signed then bits - 1 else bits) ≤ 2 ^ 64 :=
    Nat.pow_le_pow_right (by omega) (by split_ifs <;> omega)
  have hle' : (2 : ℕ) ^ 64 ≤ 2 ^ 127 := Nat.pow_le_pow_right (by omega) (by omega)
  have hrange : ∀ n : ℕ, inRange bits signed (n : ℤ) = true ↔
      n < 2 ^ (if signed then bits - 1 else bits) := by
    intro n
    have hcast : ∀ k : ℕ, (2 : ℤ) ^ k = ((2 ^ k : ℕ) : ℤ) := fun k => by push_cast; rfl
    cases signed with
    | false =>
      simp only [inRange, hcast, Bool.false_eq_true, if_false, Bool.and_eq_true, decide_eq_true_eq]
      omega
    | true =>
      simp only [inRange, hcast, if_true, Bool.and_eq_true, decide_eq_true_eq]
      omega
  rw [serializeInteger_plain bits hplain, hlimit]
  simp only [parseInt, readInteger, hv, hstrip, fromStrSigned_of_head hhead]
  -- both readers test the same digits against their own bound first
  obtain ⟨o, ho⟩ : ∃ o : Option ℕ, ∀ bound, fromStrRadix 10 bound v = o.filter (· < bound) :=
    ⟨_, fun _ => rfl⟩
  rw [ho, ho]
  cases o with
  | none => rfl
  | some n =>
    by_cases hn : n < 2 ^ (if signed then bits - 1 else bits)
    · have h64 : n < 2 ^ 64 := hn.trans_le hle
      rw [filter_lt h64, filter_lt (h64.trans_le hle'), filter_lt hn, Option.map_some,
        Option.map_some, Option.filter_some, if_pos ((hrange n).mpr hn), Option.map_some]
      congr 1
      exact wireBytes_congr hbytes hbits.2 rfl
    · have hnone : ((((some n).filter (· < 2 ^ 127)).map fun n : ℕ => (n : ℤ)).filter
          (inRange bits signed)) = none := by
        by_cases h127 : n < 2 ^ 127
        · rw [filter_lt h127, Option.map_some, Option.filter_some, if_neg (mt (hrange n).mp hn)]
        · rw [filter_not_lt h127]
          rfl
      rw [hnone]
      by_cases h64 : n < 2 ^ 64
      · rw [filter_lt h64, filter_not_lt hn]
        rfl
      · rw [filter_not_lt h64]
        rfl

/-- Only a negative zero of an unsigned type is read differently. -/
theorem serializeInteger_eq_read (hbits : 1 ≤ bits ∧ bits ≤ 64) (hbytes : 8 ∣ bits) (hv : trim v = v)
    (hzero : signed = false → ¬minusZero v) :
    serializeInteger v bits signed =
      (readInteger bits signed v).map fun z => wireBytes (z % 2 ^ 64).toNat bits := by
  cases hstrip : stripHex v with
  | some digits => exact serializeInteger_hex hbits hbytes hv hstrip
  | none =>
    by_cases hhead : v.head? = some '-'
    swap
    · exact serializeInteger_decimal hbits hbytes hv hstrip hhead
    obtain ⟨l, rfl⟩ := List.head?_eq_some_iff.mp hhead
    cases signed with
    | true => exact serializeInteger_negative hbits l
    | false =>
      rw [serializeInteger_plain bits (by simp), parseInt_minus]
      cases hread : readInteger bits false ('-' :: l) with
      | none => rfl
      | some z =>
        exfalso
        simp only [readInteger, hstrip, fromStrSigned_minus] at hread
        obtain ⟨hmap, hrange⟩ := Option.filter_eq_some_iff.mp hread
        obtain ⟨n, hn, rfl⟩ := Option.map_eq_some_iff.mp hmap
        have hdigits := (Option.filter_eq_some_iff.mp hn).1
        simp only [inRange, Bool.false_eq_true, if_false, Bool.and_eq_true, decide_eq_true_eq] at hrange
        have hn0 : n = 0 := by omega
        rw [hn0] at hdigits
        exact hzero rfl ⟨l, rfl, hdigits⟩

theorem minusZero_refused (h : minusZero v) (bits : ℕ) :
    serializeInteger v bits false = none ∧ readInteger bits false v = some 0 := by
  obtain ⟨l, rfl, hdigits⟩ := h
  refine ⟨?_, ?_⟩
  · rw [serializeInteger_plain bits (by simp), parseInt_minus]
    rfl
  · have hstrip : stripHex ('-' :: l) = none := by
      cases h : stripHex ('-' :: l) with
      | none => rfl
      | some digits =>
        have hhead := head_of_stripHex h
        cases hhead
    have hone : (1 : ℤ) ≤ 2 ^ bits := one_le_pow₀ (by norm_num)
    have hrange : inRange bits false 0 = true := by
      simp only [inRange, Bool.false_eq_true, if_false, Bool.and_eq_true, decide_eq_true_eq]
      omega
    simp only [readInteger, hstrip, fromStrSigned_minus, hdigits]
    rw [filter_le (Nat.zero_le _)]
    exact (Option.filter_some).trans (if_pos hrange)

/-! ### Quotes -/

/-- Quotes surround the text, on one side at least. -/
def quoted (v : List Char) : Prop := trimMatches (· == '"') v ≠ v

theorem mem_of_quoted (h : quoted v) : '"' ∈ v := by
  by_contra hnot
  exact h (trimMatches_of_not_mem hnot)

theorem readInteger_quote (h : '"' ∈ v) : readInteger bits signed v = none := by
  have hquote : ¬('"' = '+' ∨ (charValue '"').isSome = true) := by decide
  cases hread : readInteger bits signed v with
  | none => rfl
  | some z =>
    exfalso
    simp only [readInteger] at hread
    have hvalue := (Option.filter_eq_some_iff.mp hread).1
    cases hstrip : stripHex v with
    | some digits =>
      rw [hstrip] at hvalue
      obtain ⟨raw, hraw, -⟩ := Option.map_eq_some_iff.mp hvalue
      obtain ⟨⟨x, hx, rfl⟩, -⟩ := stripHex_eq_some hstrip
      have hmem : '"' ∈ digits := by
        rcases List.mem_cons.mp h with h0 | h
        · exact absurd h0 (by decide)
        · rcases List.mem_cons.mp h with hx' | hmem
          · rcases hx with rfl | rfl <;> exact absurd hx' (by decide)
          · exact hmem
      exact hquote (charValue_of_fromStrRadix (Option.filter_eq_some_iff.mp hraw).1 hmem)
    | none =>
      rw [hstrip] at hvalue
      by_cases hhead : v.head? = some '-'
      · obtain ⟨l, rfl⟩ := List.head?_eq_some_iff.mp hhead
        dsimp only at hvalue
        rw [fromStrSigned_minus] at hvalue
        obtain ⟨n, hn, -⟩ := Option.map_eq_some_iff.mp hvalue
        have hmem : '"' ∈ l := by
          rcases List.mem_cons.mp h with h0 | hmem
          · exact absurd h0 (by decide)
          · exact hmem
        exact hquote (.inr (charValue_of_digits (Option.filter_eq_some_iff.mp hn).1 '"' hmem))
      · dsimp only at hvalue
        rw [fromStrSigned_of_head hhead] at hvalue
        obtain ⟨n, hn, -⟩ := Option.map_eq_some_iff.mp hvalue
        exact hquote (charValue_of_fromStrRadix hn h)

/-- The condition under which both readers take an integer text for the same number. -/
def IntegerSpelling (bits : ℕ) (signed : Bool) (v : List Char) : Prop :=
  (signed = false → ¬minusZero v) ∧ (quoted v → ¬IsNumber bits signed (trimMatches (· == '"') v))

/-- Both readers refuse the text, or take it for the same bytes. -/
def Agree {α : Type} (data : Option (List UInt8)) (lit : Option α) (bytes : α → Option (List UInt8)) :
    Prop :=
  (data.isSome = true ↔ lit.isSome = true) ∧
    ∀ d l, data = some d → lit = some l → bytes l = some d

theorem agree_map {α : Type} (o : Option α) (f : α → List UInt8) :
    Agree (o.map f) o (fun a => some (f a)) := by
  refine ⟨by cases o <;> simp, ?_⟩
  rintro d l hd rfl
  exact hd

theorem agree_integer_iff (hbits : 1 ≤ bits ∧ bits ≤ 64) (hbytes : 8 ∣ bits) (hv : trim v = v) :
    Agree (serializeInteger (trimMatches (· == '"') v) bits signed) (readInteger bits signed v)
      (fun z => some (wireBytes (z % 2 ^ 64).toNat bits)) ↔ IntegerSpelling bits signed v := by
  unfold IntegerSpelling
  by_cases hquoted : quoted v
  · have hmem := mem_of_quoted hquoted
    have hnot : ¬minusZero v := by
      rintro ⟨l, rfl, hdigits⟩
      rcases List.mem_cons.mp hmem with h0 | hmem
      · exact absurd h0 (by decide)
      · exact absurd (charValue_of_digits hdigits _ hmem) (by decide)
    rw [readInteger_quote hmem, ← serializeInteger_isSome hbits.2]
    constructor
    · rintro ⟨hiff, -⟩
      exact ⟨fun _ => hnot, fun _ hsome => by cases hiff.mp hsome⟩
    · rintro ⟨-, hnone⟩
      have hno := hnone hquoted
      exact ⟨⟨fun h => (hno h).elim, fun h => by cases h⟩, fun _ _ _ h => by cases h⟩
  · have hsame : trimMatches (· == '"') v = v := by
      by_contra hne
      exact hquoted hne
    rw [hsame]
    constructor
    · rintro ⟨hiff, -⟩
      refine ⟨?_, fun h => (hquoted h).elim⟩
      rintro rfl hzero
      obtain ⟨hnone, hsome⟩ := minusZero_refused hzero bits
      rw [hnone, hsome] at hiff
      exact absurd (hiff.mpr rfl) (by decide)
    · rintro ⟨hzero, -⟩
      rw [serializeInteger_eq_read hbits hbytes hv hzero]
      exact agree_map _ _

/-! ## Booleans -/

/-- `true` or `false` in any letter case, or the number 0 or 1 in any spelling, with or
without quotes. -/
def SpellsBoolean (v : List Char) : Prop :=
  (lowercase v = "false".toList ∨ lowercase v = "true".toList) ∨
    let w := trimMatches (· == '"') v
    w = "false".toList ∨ w = "true".toList ∨ parseInt w = some 0 ∨ parseInt w = some 1

/-- The condition under which both readers take a text for the same boolean. -/
def BooleanSpelling (v : List Char) : Prop :=
  SpellsBoolean v → v ∈ ["0".toList, "1".toList, "false".toList, "true".toList]

def dcfBoolean (w : List Char) : Option (List UInt8) :=
  if w = "false".toList then some [0]
  else if w = "true".toList then some [1]
  else match parseInt w with
    | some 0 => some [0]
    | some 1 => some [1]
    | _ => none

def edsBoolean (v : List Char) : Option Bool :=
  if lowercase v = "0".toList ∨ lowercase v = "false".toList then some false
  else if lowercase v = "1".toList ∨ lowercase v = "true".toList then some true
  else none

theorem dcfBoolean_isSome (w : List Char) : (dcfBoolean w).isSome = true ↔
    w = "false".toList ∨ w = "true".toList ∨ parseInt w = some 0 ∨ parseInt w = some 1 := by
  unfold dcfBoolean
  split_ifs with hfalse htrue
  · simp [hfalse]
  · simp [htrue]
  · simp only [hfalse, htrue, false_or]
    split <;> simp_all

theorem edsBoolean_isSome (v : List Char) : (edsBoolean v).isSome = true ↔
    lowercase v = "0".toList ∨ lowercase v = "1".toList ∨ lowercase v = "false".toList ∨
      lowercase v = "true".toList := by
  unfold edsBoolean
  split_ifs with hfalse htrue <;> simp <;> tauto

theorem eq_of_lowercase_digit {v : List Char} {d : Char} (hd : d = '0' ∨ d = '1')
    (h : lowercase v = [d]) : v = [d] := by
  obtain ⟨c, rfl⟩ : ∃ c, v = [c] := by
    have hlen := congrArg List.length h
    rw [lowercase, List.length_map] at hlen
    exact List.length_eq_one_iff.mp hlen
  rcases toNat_toLower c with hsame | ⟨hlow, -, hnat⟩
  · have heq : c.toLower = d := List.singleton_inj.mp h
    rw [← heq, hsame]
  · have heq : c.toLower = d := List.singleton_inj.mp h
    rw [heq] at hnat
    have hle : d.toNat ≤ 49 := by rcases hd with rfl | rfl <;> decide
    omega

theorem parseInt_of_letter {c : Char} {l : List Char} (hv : trim (c :: l) = c :: l)
    (hletter : c = 'f' ∨ c = 'F' ∨ c = 't' ∨ c = 'T') : parseInt (c :: l) = none := by
  have hdigit : digitValue 10 c = none := by rcases hletter with rfl | rfl | rfl | rfl <;> decide
  have hhead : c ≠ '+' ∧ c ≠ '0' := by rcases hletter with rfl | rfl | rfl | rfl <;> decide
  have hstrip : stripHex (c :: l) = none := by
    cases h : stripHex (c :: l) with
    | none => rfl
    | some digits =>
      have hzero := head_of_stripHex h
      exact (hhead.2 (Option.some.inj hzero)).elim
  simp only [parseInt, hv, hstrip]
  rw [fromStrRadix_of_head (by simpa using hhead.1)]
  simp [digits, continueDigits, hdigit]

/-- The DCF reader takes the words in lower case only. -/
theorem dcfBoolean_of_word {v : List Char} (hv : trim v = v)
    (hword : lowercase v = "false".toList ∨ lowercase v = "true".toList)
    (hnot : v ∉ ["0".toList, "1".toList, "false".toList, "true".toList]) :
    dcfBoolean (trimMatches (· == '"') v) = none := by
  have hquote : '"' ∉ v := by
    intro hmem
    have hlower : '"'.toLower ∈ lowercase v := List.mem_map_of_mem hmem
    rcases hword with h | h <;> rw [h] at hlower <;> exact absurd hlower (by decide)
  rw [trimMatches_of_not_mem hquote]
  simp only [List.mem_cons, List.not_mem_nil, or_false, not_or] at hnot
  obtain ⟨-, -, hfalse, htrue⟩ := hnot
  cases v with
  | nil => rcases hword with h | h <;> exact absurd h (by decide)
  | cons c l =>
    have hletter : c = 'f' ∨ c = 'F' ∨ c = 't' ∨ c = 'T' := by
      rcases hword with h | h
      · have hc : c.toLower = 'f' := (List.cons.inj h).1
        rcases eq_of_toLower hc with h | h
        · exact .inl h
        · exact .inr (.inl h)
      · have hc : c.toLower = 't' := (List.cons.inj h).1
        rcases eq_of_toLower hc with h | h
        · exact .inr (.inr (.inl h))
        · exact .inr (.inr (.inr h))
    rw [dcfBoolean, if_neg hfalse, if_neg htrue, parseInt_of_letter hv hletter]

theorem agree_boolean_iff {v : List Char} (hv : trim v = v) :
    Agree (dcfBoolean (trimMatches (· == '"') v)) (edsBoolean v)
      (fun b => some [if b then 1 else 0]) ↔ BooleanSpelling v := by
  unfold BooleanSpelling
  by_cases hplain : v ∈ ["0".toList, "1".toList, "false".toList, "true".toList]
  · refine ⟨fun _ _ => hplain, fun _ => ?_⟩
    simp only [List.mem_cons, List.not_mem_nil, or_false] at hplain
    rcases hplain with rfl | rfl | rfl | rfl
    · exact agree_map (some false) (fun b => [if b then 1 else 0])
    · exact agree_map (some true) (fun b => [if b then 1 else 0])
    · exact agree_map (some false) (fun b => [if b then 1 else 0])
    · exact agree_map (some true) (fun b => [if b then 1 else 0])
  · have hnumber : lowercase v ≠ "0".toList ∧ lowercase v ≠ "1".toList := by
      refine ⟨fun h => hplain ?_, fun h => hplain ?_⟩
      · rw [eq_of_lowercase_digit (.inl rfl) h]
        decide
      · rw [eq_of_lowercase_digit (.inr rfl) h]
        decide
    constructor
    · rintro ⟨hiff, -⟩ hspells
      exfalso
      rw [dcfBoolean_isSome, edsBoolean_isSome] at hiff
      rcases hspells with hword | hdcf
      · have hnone := dcfBoolean_of_word hv hword hplain
        have hsome := (dcfBoolean_isSome _).mpr (hiff.mpr (.inr (.inr hword)))
        rw [hnone] at hsome
        cases hsome
      · rcases hiff.mp hdcf with h | h | h
        · exact hnumber.1 h
        · exact hnumber.2 h
        · have hnone := dcfBoolean_of_word hv h hplain
          have hsome := (dcfBoolean_isSome _).mpr hdcf
          rw [hnone] at hsome
          cases hsome
    · intro hcond
      have hnot : ¬SpellsBoolean v := fun h => hplain (hcond h)
      have hdcf : dcfBoolean (trimMatches (· == '"') v) = none := by
        rw [← Option.not_isSome_iff_eq_none, dcfBoolean_isSome]
        exact fun h => hnot (.inr h)
      have heds : edsBoolean v = none := by
        rw [← Option.not_isSome_iff_eq_none, edsBoolean_isSome]
        rintro (h | h | h)
        · exact hnumber.1 h
        · exact hnumber.2 h
        · exact hnot (.inl h)
      rw [hdcf, heds]
      exact agree_map none _

/-! ## Values -/

/-- The integer and boolean types. The integers of 40, 48 and 56 bits are supported by
neither reader. -/
def integerCodes : List UInt16 :=
  [0x0001, 0x0002, 0x0003, 0x0004, 0x0005, 0x0006, 0x0007, 0x0010, 0x0012, 0x0013, 0x0014, 0x0015,
    0x0016, 0x0018, 0x0019, 0x001A, 0x001B]

/-- The values the importer does not read. -/
def edsSkips (value : List Char) : Bool :=
  let v := trim value
  v.isEmpty || namesNodeId v

/-- Both readers pass over the same values, and treat the others alike. -/
def ReadersAgree (realBits : ℕ → List Char → Option ℕ) (value : List Char) (dataType : UInt16) :
    Prop :=
  (dcfSkips value = true ↔ edsSkips value = true) ∧
    (edsSkips value = false → Agree (serializeValue realBits value dataType)
      (importDefault value dataType) (fun lit => (datatypeToRust dataType).bind (lit.bytes ·)))

/-- The condition under which the readers agree on a value. -/
def ValueSpelling (value : List Char) (dataType : UInt16) : Prop :=
  let v := trim value
  if namesNodeId v then
    contains "$NODEID".toList v = true ∨ contains "$nodeid".toList v = true
  else if dataType = 0x0001 then BooleanSpelling v
  else match integerType dataType with
    | some (bits, signed) => IntegerSpelling bits signed v
    | none => True

theorem integerType_readers {dataType : UInt16} {bits : ℕ} {signed : Bool}
    (h : integerType dataType = some (bits, signed)) :
    dataType ∉ [0x0001, 0x0008, 0x0011] ∧ (1 ≤ bits ∧ bits ≤ 64) ∧ 8 ∣ bits ∧
      (∀ realBits value, serializeValue realBits value dataType =
        serializeInteger (trimMatches (· == '"') (trim value)) bits signed) ∧
      ∃ t, datatypeToRust dataType = some t ∧ t.size = some (bits / 8) := by
  unfold integerType at h
  split at h <;> cases h <;>
    exact ⟨by decide, by decide, by decide, fun _ _ => rfl, _, rfl, rfl⟩

theorem importDefault_integer {dataType : UInt16} {bits : ℕ} {signed : Bool}
    (h : integerType dataType = some (bits, signed)) {value : List Char}
    (hread : edsSkips value = false) :
    importDefault value dataType = (readInteger bits signed (trim value)).map .int := by
  obtain ⟨hother, -, -, -, t, ht, -⟩ := integerType_readers h
  simp only [List.mem_cons, List.not_mem_nil, or_false, not_or] at hother
  have hskip : ((trim value).isEmpty || namesNodeId (trim value)) = false := hread
  simp [importDefault, ht, normalizeDefault, hskip, hother, h]

theorem importDefault_boolean {value : List Char} (hread : edsSkips value = false) :
    importDefault value 0x0001 = (edsBoolean (trim value)).map .bool := by
  have hskip : ((trim value).isEmpty || namesNodeId (trim value)) = false := hread
  simp only [importDefault, datatypeToRust, Option.bind_some, normalizeDefault, hskip, edsBoolean,
    Bool.false_eq_true, if_false, if_true]
  split_ifs <;> rfl

theorem agree_map_iff {α β : Type} {data : Option (List UInt8)} {o : Option α} {f : α → β}
    {bytes : β → Option (List UInt8)} :
    Agree data (o.map f) bytes ↔ Agree data o (fun a => bytes (f a)) := by
  unfold Agree
  cases o <;> simp

theorem wireBytes_eq {bits : ℕ} (hbits : bits ≤ 64) (n : ℕ) : wireBytes n bits = leBytes (bits / 8) n :=
  take_leBytes (by omega) n

theorem agree_integerType_iff {dataType : UInt16} {bits : ℕ} {signed : Bool}
    (h : integerType dataType = some (bits, signed)) (realBits : ℕ → List Char → Option ℕ)
    {value : List Char} (hread : edsSkips value = false) :
    Agree (serializeValue realBits value dataType) (importDefault value dataType)
      (fun lit => (datatypeToRust dataType).bind (lit.bytes ·)) ↔
      IntegerSpelling bits signed (trim value) := by
  obtain ⟨-, hbits, hbytes, hserialize, t, ht, hsize⟩ := integerType_readers h
  rw [hserialize, importDefault_integer h hread, agree_map_iff]
  simp only [ht, Option.bind_some, Literal.bytes, hsize, Option.map_some, ← wireBytes_eq hbits.2]
  exact agree_integer_iff hbits hbytes (trim_idem value)

theorem agree_boolean_code_iff (realBits : ℕ → List Char → Option ℕ) {value : List Char}
    (hread : edsSkips value = false) :
    Agree (serializeValue realBits value 0x0001) (importDefault value 0x0001)
      (fun lit => (datatypeToRust 0x0001).bind (lit.bytes ·)) ↔ BooleanSpelling (trim value) := by
  rw [importDefault_boolean hread, agree_map_iff]
  exact agree_boolean_iff (trim_idem value)

theorem agree_unsupported {dataType : UInt16}
    (h : dataType ∈ [0x0012, 0x0013, 0x0014, 0x0018, 0x0019, 0x001A])
    (realBits : ℕ → List Char → Option ℕ) (value : List Char) :
    integerType dataType = none ∧ Agree (serializeValue realBits value dataType)
      (importDefault value dataType) (fun lit => (datatypeToRust dataType).bind (lit.bytes ·)) := by
  have hnone : integerType dataType = none ∧ serializeValue realBits value dataType = none ∧
      importDefault value dataType = none := by
    simp only [List.mem_cons, List.not_mem_nil, or_false] at h
    rcases h with rfl | rfl | rfl | rfl | rfl | rfl <;> exact ⟨rfl, rfl, rfl⟩
  obtain ⟨htype, hdata, hlit⟩ := hnone
  rw [hdata, hlit]
  exact ⟨htype, Iff.rfl, fun _ _ h => by cases h⟩

theorem namesNodeId_of_contains {v : List Char}
    (h : contains "$NODEID".toList v = true ∨ contains "$nodeid".toList v = true) :
    namesNodeId v = true := by
  rcases h with h | h
  · exact contains_map Char.toUpper h
  · exact contains_map Char.toUpper h

theorem spelling_nil (bits : ℕ) (signed : Bool) :
    BooleanSpelling [] ∧ IntegerSpelling bits signed [] := by
  refine ⟨fun h => absurd h (by unfold SpellsBoolean; decide), ?_, fun h => (h rfl).elim⟩
  rintro - ⟨l, hl, -⟩
  cases hl

theorem dcfSkips_iff (value : List Char) : dcfSkips value = true ↔ trim value = [] ∨
    contains "$NODEID".toList (trim value) = true ∨ contains "$nodeid".toList (trim value) = true := by
  simp only [dcfSkips, Bool.or_eq_true, List.isEmpty_iff]
  exact or_assoc

theorem edsSkips_iff (value : List Char) :
    edsSkips value = true ↔ trim value = [] ∨ namesNodeId (trim value) = true := by
  simp only [edsSkips, Bool.or_eq_true, List.isEmpty_iff]

/-- What the readers make of a value they both read. -/
theorem agree_iff (realBits : ℕ → List Char → Option ℕ) {value : List Char} {dataType : UInt16}
    (hcode : dataType ∈ integerCodes) (hread : edsSkips value = false) :
    Agree (serializeValue realBits value dataType) (importDefault value dataType)
      (fun lit => (datatypeToRust dataType).bind (lit.bytes ·)) ↔ ValueSpelling value dataType := by
  have hnames : namesNodeId (trim value) = false := by
    by_contra h
    rw [Bool.not_eq_false] at h
    rw [(edsSkips_iff value).mpr (.inr h)] at hread
    cases hread
  unfold ValueSpelling
  dsimp only
  rw [if_neg (by rw [hnames]; exact Bool.false_ne_true)]
  by_cases hbool : dataType = 0x0001
  · rw [if_pos hbool, hbool]
    exact agree_boolean_code_iff realBits hread
  · rw [if_neg hbool]
    cases htype : integerType dataType with
    | some width => exact agree_integerType_iff htype realBits hread
    | none =>
      have hother : dataType ∈ [0x0012, 0x0013, 0x0014, 0x0018, 0x0019, 0x001A] := by
        revert htype hbool
        simp only [integerCodes, List.mem_cons, List.not_mem_nil, or_false] at hcode
        rcases hcode with rfl | rfl | rfl | rfl | rfl | rfl | rfl | rfl | rfl | rfl | rfl | rfl | rfl |
          rfl | rfl | rfl | rfl <;> decide
      exact iff_of_true (agree_unsupported hother realBits value).2 trivial

/-- The readers agree on an integer or boolean value exactly when it is spelled so. -/
theorem readers_agree_iff (realBits : ℕ → List Char → Option ℕ) (value : List Char) {dataType : UInt16}
    (hcode : dataType ∈ integerCodes) :
    ReadersAgree realBits value dataType ↔ ValueSpelling value dataType := by
  unfold ReadersAgree
  cases hread : edsSkips value with
  | false =>
    rw [agree_iff realBits hcode hread]
    have hdcf : dcfSkips value ≠ true := by
      intro hskip
      have hempty := mt (edsSkips_iff value).mpr (by rw [hread]; exact Bool.false_ne_true)
      rcases (dcfSkips_iff value).mp hskip with h | h
      · exact hempty (.inl h)
      · exact hempty (.inr (namesNodeId_of_contains h))
    simp [hdcf]
  | true =>
    rw [dcfSkips_iff]
    unfold ValueSpelling
    dsimp only
    rcases (edsSkips_iff value).mp hread with hempty | hnames
    · have hplain : namesNodeId (trim value) = false := by rw [hempty]; rfl
      rw [if_neg (by rw [hplain]; exact Bool.false_ne_true), hempty]
      have hspelling : if dataType = 0x0001 then BooleanSpelling [] else
          match integerType dataType with
          | some (bits, signed) => IntegerSpelling bits signed []
          | none => True := by
        split_ifs
        · exact (spelling_nil 8 true).1
        · cases integerType dataType with
          | none => trivial
          | some width => exact (spelling_nil width.1 width.2).2
      simp [hspelling]
    · have hne : trim value ≠ [] := by
        intro hempty
        rw [hempty] at hnames
        exact absurd hnames (by decide)
      rw [if_pos hnames]
      simp [hne]

theorem readers_agree_minus_five : ValueSpelling " -5".toList 0x0002 ∧
    ReadersAgree (fun _ _ => none) " -5".toList 0x0002 := by
  have hspelling : ValueSpelling " -5".toList 0x0002 := by
    refine ⟨?_, fun h => (h rfl).elim⟩
    intro hsigned
    cases hsigned
  exact ⟨hspelling, (readers_agree_iff _ _ (by decide)).mpr hspelling⟩

/-- The importer takes any letter case of `$NODEID` for an expression, the DCF reader two. -/
theorem readers_disagree_mixed_case :
    ¬ReadersAgree (fun _ _ => none) "$NodeId+0x80".toList 0x0007 := by
  rintro ⟨hiff, -⟩
  exact absurd (hiff.mpr (by decide)) (by decide)

end Canopen.Eds
