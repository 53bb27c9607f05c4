import Canopen.Eds.Agreement

/-!
# Numerals of a DCF

Which texts stand for an integer, and for which bytes, compared with what
`serialize_integer` and the octet strings of `serialize_value` accept (`dcf.rs`). The number
parsers of the language accept more than the format has.
-/

namespace Canopen.Eds

open LittleEndian Text

/-! ## The format -/

def decimalNumber : List Char → Option ℤ
  | '-' :: l => (digits 10 l).map fun n : ℕ => -(n : ℤ)
  | '+' :: l => (digits 10 l).map fun n : ℕ => (n : ℤ)
  | l => (digits 10 l).map fun n : ℕ => (n : ℤ)

/-- The number of a text: a bit pattern of hexadecimal digits that fits the width, or decimal
digits with at most one sign that are in range. -/
def integerText (bits : ℕ) (signed : Bool) (v : List Char) : Option ℤ :=
  match stripHex v with
  | some pattern => ((digits 16 pattern).filter (· < 2 ^ bits)).map fun n : ℕ => (n : ℤ)
  | none => (decimalNumber v).filter (inRange bits signed)

/-- Two's complement, least significant byte first. -/
def integerBytes (bits : ℕ) (z : ℤ) : List UInt8 := leBytes (bits / 8) (z % 2 ^ bits).toNat

/-- The bytes of pairs of hexadecimal digits. -/
def octetText : List Char → Option (List UInt8)
  | [] => some []
  | [_] => none
  | a :: b :: l => do
    let high ← digitValue 16 a
    let low ← digitValue 16 b
    let rest ← octetText l
    return UInt8.ofNat (16 * high + low) :: rest

/-! ## What the parsers accept beside it -/

def afterPlus : List Char → List Char
  | '+' :: l => l
  | l => l

/-- A number without a minus sign, and with a plus sign anywhere the parsers skip one. -/
def plainNumber (v : List Char) : Option ℕ :=
  match stripHex v with
  | some pattern => digits 16 (afterPlus pattern)
  | none => digits 10 (afterPlus v)

/-- White space around a number. -/
def SpacedNumber (bits : ℕ) (signed : Bool) (v : List Char) : Prop :=
  trim v ≠ v ∧ ∃ n, plainNumber (trim v) = some n ∧ n < 2 ^ limitBits bits signed v

/-- A plus sign between `0x` and a bit pattern that fits. -/
def PlusPattern (bits : ℕ) (v : List Char) : Prop :=
  ∃ pattern n, stripHex v = some ('+' :: pattern) ∧ digits 16 pattern = some n ∧ n < 2 ^ bits

/-- The texts that are read differently: numbers in white space, patterns with a plus sign, and
the negative zero of an unsigned type. -/
def Misread (bits : ℕ) (signed : Bool) (v : List Char) : Prop :=
  SpacedNumber bits signed v ∨ PlusPattern bits v ∨ signed = false ∧ minusZero v

/-- Pairs of two digits, or of a plus sign and a digit. -/
def PlusPairs : List Char → Prop
  | [] => True
  | [_] => False
  | a :: b :: l => (a = '+' ∨ (digitValue 16 a).isSome = true) ∧ (digitValue 16 b).isSome = true ∧ PlusPairs l

theorem afterPlus_of_head {l : List Char} (h : l.head? ≠ some '+') : afterPlus l = l := by
  unfold afterPlus
  split
  · exact absurd rfl h
  · rfl

theorem decimalNumber_of_head {l : List Char} (h : l.head? ≠ some '-') :
    decimalNumber l = (digits 10 (afterPlus l)).map fun n : ℕ => (n : ℤ) := by
  unfold decimalNumber
  split
  · exact absurd rfl h
  · rfl
  · next hno =>
    rw [afterPlus_of_head]
    intro hplus
    obtain ⟨l, rfl⟩ := List.head?_eq_some_iff.mp hplus
    exact hno l rfl

theorem fromStrRadix_afterPlus (base bound : ℕ) (l : List Char) :
    fromStrRadix base bound l = (digits base (afterPlus l)).filter (· < bound) := rfl

theorem parseInt_plainNumber (v : List Char) :
    parseInt v = (plainNumber (trim v)).filter (· < 2 ^ 64) := by
  unfold parseInt plainNumber
  dsimp only
  cases stripHex (trim v) with
  | none => exact fromStrRadix_afterPlus 10 _ _
  | some pattern => exact fromStrRadix_afterPlus 16 _ _

/-! ## Bytes -/

variable {bits : ℕ} {signed : Bool} {v : List Char}

theorem wireBytes_integer (hbytes : 8 ∣ bits) (hbits : bits ≤ 64) (z : ℤ) :
    wireBytes (z % 2 ^ 64).toNat bits = integerBytes bits z := by
  have hnonneg : 0 ≤ z % 2 ^ bits := Int.emod_nonneg _ (by positivity)
  rw [integerBytes, ← wireBytes_eq hbits]
  refine (wireBytes_congr hbytes hbits ?_).symm
  rw [Int.toNat_of_nonneg hnonneg, Int.emod_emod]

theorem wireBytes_nat (hbytes : 8 ∣ bits) (hbits : bits ≤ 64) (n : ℕ) :
    wireBytes n bits = integerBytes bits n :=
  (wireBytes_congr hbytes hbits rfl).trans (wireBytes_integer hbytes hbits n)

theorem length_wireBytes (hbits : bits ≤ 64) (n : ℕ) : (wireBytes n bits).length = bits / 8 := by
  rw [wireBytes_eq hbits, leBytes, List.length_map, List.length_range]

theorem length_serializeInteger (hbits : bits ≤ 64) {bytes : List UInt8}
    (h : serializeInteger v bits signed = some bytes) : bytes.length = bits / 8 := by
  by_cases hminus : signed = true ∧ v.head? = some '-'
  · obtain ⟨rfl, hhead⟩ := hminus
    obtain ⟨l, rfl⟩ := List.head?_eq_some_iff.mp hhead
    rw [serializeInteger_minus hbits] at h
    obtain ⟨n, -, rfl⟩ := Option.map_eq_some_iff.mp h
    exact length_wireBytes hbits _
  · rw [serializeInteger_plain bits hminus] at h
    obtain ⟨n, -, rfl⟩ := Option.map_eq_some_iff.mp h
    exact length_wireBytes hbits n

/-! ## White space -/

theorem isWhite_of_digits {base n : ℕ} {l : List Char} (h : digits base l = some n) :
    ∀ c ∈ l, isWhite c = false :=
  fun c hc => isWhite_of_charValue (charValue_of_digits h c hc)

theorem trim_of_signed {base n : ℕ} {l : List Char} {sign : Char} (hsign : isWhite sign = false)
    (h : digits base l = some n) : trim (sign :: l) = sign :: l :=
  trim_of_forall (List.forall_mem_cons.mpr ⟨hsign, isWhite_of_digits h⟩)

theorem trim_of_pattern {pattern : List Char} (hstrip : stripHex v = some pattern)
    (h : ∀ c ∈ pattern, isWhite c = false) : trim v = v := by
  obtain ⟨⟨x, hx, rfl⟩, -⟩ := stripHex_eq_some hstrip
  refine trim_of_forall (List.forall_mem_cons.mpr ⟨by decide, List.forall_mem_cons.mpr ⟨?_, h⟩⟩)
  rcases hx with rfl | rfl <;> decide

theorem trim_of_decimalNumber {z : ℤ} (h : decimalNumber v = some z) : trim v = v := by
  unfold decimalNumber at h
  split at h <;> obtain ⟨n, hn, -⟩ := Option.map_eq_some_iff.mp h
  · exact trim_of_signed (by decide) hn
  · exact trim_of_signed (by decide) hn
  · exact trim_of_forall (isWhite_of_digits hn)

theorem trim_of_integerText {z : ℤ} (h : integerText bits signed v = some z) : trim v = v := by
  unfold integerText at h
  cases hstrip : stripHex v with
  | some pattern =>
    rw [hstrip] at h
    obtain ⟨n, hn, -⟩ := Option.map_eq_some_iff.mp h
    exact trim_of_pattern hstrip (isWhite_of_digits (Option.filter_eq_some_iff.mp hn).1)
  | none =>
    rw [hstrip] at h
    exact trim_of_decimalNumber (Option.filter_eq_some_iff.mp h).1

theorem trim_of_plusPattern (h : PlusPattern bits v) : trim v = v := by
  obtain ⟨pattern, n, hstrip, hdigits, -⟩ := h
  exact trim_of_pattern hstrip (List.forall_mem_cons.mpr ⟨by decide, isWhite_of_digits hdigits⟩)

theorem trim_of_minusZero (h : minusZero v) : trim v = v := by
  obtain ⟨l, rfl, hdigits⟩ := h
  exact trim_of_signed (by decide) hdigits

/-! ## Integers -/

/-- The text is serialised as the number it stands for, or refused. -/
def SerialisedExactly (bits : ℕ) (signed : Bool) (v : List Char) : Prop :=
  serializeInteger v bits signed = (integerText bits signed v).map (integerBytes bits)

theorem limitBits_le (hbits : bits ≤ 64) : limitBits bits signed v ≤ 64 := by
  unfold limitBits
  split <;> omega

/-- A text that does not start with the minus sign of a signed type is read by `parseInt`. -/
theorem serializeInteger_plainNumber (hbytes : 8 ∣ bits) (hbits : bits ≤ 64)
    (h : ¬(signed = true ∧ v.head? = some '-')) :
    serializeInteger v bits signed =
      ((plainNumber (trim v)).filter (· < 2 ^ limitBits bits signed v)).map
        fun n : ℕ => integerBytes bits n := by
  rw [serializeInteger_plain bits h, parseInt_plainNumber, funext (wireBytes_nat hbytes hbits)]
  cases plainNumber (trim v) with
  | none => rfl
  | some n =>
    by_cases hn : n < 2 ^ limitBits bits signed v
    · rw [filter_lt hn, filter_lt (hn.trans_le (Nat.pow_le_pow_right (by decide) (limitBits_le hbits))),
        filter_lt hn]
    · rw [filter_not_lt hn]
      by_cases h64 : n < 2 ^ 64
      · rw [filter_lt h64, filter_not_lt hn]
      · rw [filter_not_lt h64]
        rfl

/-- Negative numbers of signed types. -/
theorem exact_negative (hbytes : 8 ∣ bits) (hbits : 1 ≤ bits ∧ bits ≤ 64) (l : List Char) :
    SerialisedExactly bits true ('-' :: l) := by
  rw [SerialisedExactly, serializeInteger_minus hbits.2]
  have hstrip : stripHex ('-' :: l) = none := by
    cases h : stripHex ('-' :: l) with
    | none => rfl
    | some pattern => cases head_of_stripHex h
  have hrange (n : ℕ) : inRange bits true (-(n : ℤ)) = true ↔ n ≤ 2 ^ (bits - 1) := by
    have hcast : (2 : ℤ) ^ (bits - 1) = ((2 ^ (bits - 1) : ℕ) : ℤ) := by push_cast; rfl
    have hpos : 0 < (2 : ℕ) ^ (bits - 1) := by positivity
    simp only [inRange, hcast, if_true, Bool.and_eq_true, decide_eq_true_eq]
    omega
  simp only [integerText, hstrip, decimalNumber, wireBytes_integer hbytes hbits.2]
  cases digits 10 l with
  | none => rfl
  | some n =>
    by_cases hle : n ≤ 2 ^ (bits - 1)
    · rw [filter_le hle, Option.map_some, Option.map_some, Option.filter_some, if_pos ((hrange n).mpr hle),
        Option.map_some]
    · rw [filter_not_le hle, Option.map_some, Option.filter_some, if_neg (mt (hrange n).mp hle)]
      rfl

theorem exact_pattern_iff (hbytes : 8 ∣ bits) (hbits : bits ≤ 64) (hv : trim v = v)
    {pattern : List Char} (hstrip : stripHex v = some pattern) :
    SerialisedExactly bits signed v ↔ ¬PlusPattern bits v := by
  have hplain : ¬(signed = true ∧ v.head? = some '-') := by
    rw [head_of_stripHex hstrip]
    simp
  have hlimit : limitBits bits signed v = bits := by
    unfold limitBits
    rw [(stripHex_eq_some hstrip).2]
    simp
  rw [SerialisedExactly, serializeInteger_plainNumber hbytes hbits hplain, hv, hlimit]
  simp only [plainNumber, integerText, hstrip, Option.map_map]
  by_cases hplus : pattern.head? = some '+'
  · obtain ⟨l, rfl⟩ := List.head?_eq_some_iff.mp hplus
    have hrefused : digits 16 ('+' :: l) = none := rfl
    have hpattern : PlusPattern bits v ↔ ∃ n, digits 16 l = some n ∧ n < 2 ^ bits := by
      refine ⟨?_, fun ⟨n, hn, hlt⟩ => ⟨l, n, hstrip, hn, hlt⟩⟩
      rintro ⟨l', n, hstrip', hn, hlt⟩
      cases hstrip.symm.trans hstrip'
      exact ⟨n, hn, hlt⟩
    rw [hrefused, hpattern, afterPlus]
    cases digits 16 l with
    | none => simp
    | some n => simp [Option.filter_some]
  · have hpattern : ¬PlusPattern bits v := by
      rintro ⟨l, n, hstrip', -⟩
      cases hstrip.symm.trans hstrip'
      exact hplus rfl
    rw [afterPlus_of_head hplus]
    exact iff_of_true rfl hpattern

/-- Decimal numbers that start with a minus sign, of an unsigned type. -/
theorem exact_unsigned_minus_iff (hbytes : 8 ∣ bits) (hbits : bits ≤ 64) {l : List Char}
    (hv : trim ('-' :: l) = '-' :: l) (hstrip : stripHex ('-' :: l) = none) :
    SerialisedExactly bits false ('-' :: l) ↔ ¬minusZero ('-' :: l) := by
  have hplain : ¬(false = true ∧ ('-' :: l).head? = some '-') := fun h => Bool.false_ne_true h.1
  have hrefused : digits 10 (afterPlus ('-' :: l)) = none := rfl
  have hzero : minusZero ('-' :: l) ↔ digits 10 l = some 0 := by
    refine ⟨?_, fun h => ⟨l, rfl, h⟩⟩
    rintro ⟨l', hl, hdigits⟩
    cases hl
    exact hdigits
  rw [SerialisedExactly, serializeInteger_plainNumber hbytes hbits hplain, hv]
  simp only [plainNumber, integerText, hstrip]
  rw [hrefused, hzero, decimalNumber]
  have hone : (1 : ℤ) ≤ 2 ^ bits := one_le_pow₀ (by norm_num)
  cases digits 10 l with
  | none => simp
  | some n =>
    rcases Nat.eq_zero_or_pos n with rfl | hpos
    · simp [Option.filter_some, inRange]
      omega
    · have hnot : inRange bits false (-(n : ℤ)) = false := by
        simp only [inRange, Bool.false_eq_true, if_false, Bool.and_eq_false_iff, decide_eq_false_iff_not]
        omega
      simp [Option.filter_some, hnot, hpos.ne']

/-- Decimal numbers without a minus sign. -/
theorem exact_decimal (hbytes : 8 ∣ bits) (hbits : 1 ≤ bits ∧ bits ≤ 64) (hv : trim v = v)
    (hstrip : stripHex v = none) (hminus : v.head? ≠ some '-') : SerialisedExactly bits signed v := by
  have hlimit : limitBits bits signed v = if signed then bits - 1 else bits := by
    unfold limitBits
    rw [stripHex_eq_none hstrip]
    simp
  have hcast (k : ℕ) : (2 : ℤ) ^ k = ((2 ^ k : ℕ) : ℤ) := by push_cast; rfl
  have hrange (n : ℕ) : inRange bits signed (n : ℤ) = true ↔ n < 2 ^ limitBits bits signed v := by
    rw [hlimit]
    cases signed <;> simp only [inRange, hcast, Bool.false_eq_true, if_false, if_true, Bool.and_eq_true,
      decide_eq_true_eq] <;> omega
  rw [SerialisedExactly, serializeInteger_plainNumber hbytes hbits.2 fun h => hminus h.2, hv]
  simp only [plainNumber, integerText, hstrip, decimalNumber_of_head hminus]
  cases digits 10 (afterPlus v) with
  | none => rfl
  | some n =>
    by_cases hn : n < 2 ^ limitBits bits signed v
    · rw [filter_lt hn, Option.map_some, Option.map_some, Option.filter_some, if_pos ((hrange n).mpr hn),
        Option.map_some]
    · rw [filter_not_lt hn, Option.map_some, Option.filter_some, if_neg (mt (hrange n).mp hn)]
      rfl

theorem exact_decimal_iff (hbytes : 8 ∣ bits) (hbits : 1 ≤ bits ∧ bits ≤ 64) (hv : trim v = v)
    (hstrip : stripHex v = none) (hplain : ¬(signed = true ∧ v.head? = some '-')) :
    SerialisedExactly bits signed v ↔ ¬(signed = false ∧ minusZero v) := by
  by_cases hminus : v.head? = some '-'
  · obtain ⟨l, rfl⟩ := List.head?_eq_some_iff.mp hminus
    have hsigned : signed = false := by
      rw [← Bool.not_eq_true]
      exact fun h => hplain ⟨h, rfl⟩
    subst hsigned
    rw [exact_unsigned_minus_iff hbytes hbits.2 hv hstrip, eq_self, true_and]
  · refine iff_of_true (exact_decimal hbytes hbits hv hstrip hminus) ?_
    rintro ⟨-, l, rfl, -⟩
    exact hminus rfl

theorem exact_spaced_iff (hbytes : 8 ∣ bits) (hbits : bits ≤ 64) (hv : trim v ≠ v)
    (hplain : ¬(signed = true ∧ v.head? = some '-')) :
    SerialisedExactly bits signed v ↔ ¬SpacedNumber bits signed v := by
  have hnone : integerText bits signed v = none := by
    cases h : integerText bits signed v with
    | none => rfl
    | some z => exact absurd (trim_of_integerText h) hv
  rw [SerialisedExactly, serializeInteger_plainNumber hbytes hbits hplain, hnone, SpacedNumber,
    and_iff_right hv]
  cases plainNumber (trim v) with
  | none => simp
  | some n => simp [Option.filter_some]

theorem exact_iff (hbytes : 8 ∣ bits) (hbits : 1 ≤ bits ∧ bits ≤ 64) (signed : Bool) (v : List Char) :
    SerialisedExactly bits signed v ↔ ¬Misread bits signed v := by
  by_cases hminus : signed = true ∧ v.head? = some '-'
  · obtain ⟨rfl, hhead⟩ := hminus
    obtain ⟨l, rfl⟩ := List.head?_eq_some_iff.mp hhead
    refine iff_of_true (exact_negative hbytes hbits l) ?_
    rintro (⟨-, n, hn, hlt⟩ | ⟨pattern, -, hstrip, -⟩ | ⟨hsigned, -⟩)
    · have hparse := parseInt_plainNumber ('-' :: l)
      rw [parseInt_minus, hn, filter_lt (hlt.trans_le (Nat.pow_le_pow_right (by decide)
        (limitBits_le hbits.2)))] at hparse
      cases hparse
    · cases head_of_stripHex hstrip
    · cases hsigned
  by_cases hv : trim v = v
  · have hspaced : ¬SpacedNumber bits signed v := fun h => h.1 hv
    rw [Misread, or_iff_right hspaced]
    cases hstrip : stripHex v with
    | some pattern =>
      have hzero : ¬(signed = false ∧ minusZero v) := by
        rintro ⟨-, l, rfl, -⟩
        cases head_of_stripHex hstrip
      rw [or_iff_left hzero]
      exact exact_pattern_iff hbytes hbits.2 hv hstrip
    | none =>
      have hpattern : ¬PlusPattern bits v := by
        rintro ⟨pattern, n, hstrip', -⟩
        cases hstrip.symm.trans hstrip'
      rw [or_iff_right hpattern]
      exact exact_decimal_iff hbytes hbits hv hstrip hminus
  · have hothers : ¬(PlusPattern bits v ∨ signed = false ∧ minusZero v) := by
      rintro (h | ⟨-, h⟩)
      · exact hv (trim_of_plusPattern h)
      · exact hv (trim_of_minusZero h)
    rw [Misread, or_iff_left hothers]
    exact exact_spaced_iff hbytes hbits.2 hv hminus

/-! ## Octet strings -/

theorem toNat_lt_of_digitValue {base : ℕ} {c : Char} (h : (digitValue base c).isSome = true) :
    c.toNat < 128 := by
  obtain ⟨d, hd⟩ := Option.isSome_iff_exists.mp h
  have hvalue := (Option.filter_eq_some_iff.mp hd).1
  unfold charValue at hvalue
  dsimp only at hvalue
  split_ifs at hvalue <;> omega

theorem digitValue_lt {base d : ℕ} {c : Char} (h : digitValue base c = some d) : d < base :=
  of_decide_eq_true (Option.filter_eq_some_iff.mp h).2

/-- Two characters are read as a byte: a plus sign in front counts as nothing. -/
theorem fromStrRadix_pair (a b : Char) :
    fromStrRadix 16 256 [a, b] =
      if a = '+' then digitValue 16 b
      else (digitValue 16 a).bind fun high => (digitValue 16 b).map fun low => 16 * high + low := by
  by_cases ha : a = '+'
  · subst ha
    rw [if_pos rfl, fromStrRadix_afterPlus, afterPlus]
    cases hb : digitValue 16 b with
    | none => simp [digits, continueDigits, hb]
    | some low =>
      have hlow := digitValue_lt hb
      simp [digits, continueDigits, hb, Option.filter_some]
      omega
  · rw [if_neg ha, fromStrRadix_of_head (by simpa using ha)]
    cases hhigh : digitValue 16 a with
    | none => simp [digits, continueDigits, hhigh]
    | some high =>
      cases hb : digitValue 16 b with
      | none => simp [digits, continueDigits, hhigh, hb]
      | some low =>
        have hlow := digitValue_lt hb
        have hhigh' := digitValue_lt hhigh
        simp [digits, continueDigits, hhigh, hb, Option.filter_some]
        omega

theorem hexPairs_cons (a b : Char) (l : List Char) : hexPairs (a :: b :: l) =
    (fromStrRadix 16 256 [a, b]).bind fun byte => (hexPairs l).map (UInt8.ofNat byte :: ·) := by
  rw [hexPairs]
  cases fromStrRadix 16 256 [a, b] with
  | none => rfl
  | some byte => cases hexPairs l <;> rfl

theorem octetText_cons (a b : Char) (l : List Char) : octetText (a :: b :: l) =
    (digitValue 16 a).bind fun high => (digitValue 16 b).bind fun low =>
      (octetText l).map (UInt8.ofNat (16 * high + low) :: ·) := by
  rw [octetText]
  cases digitValue 16 a with
  | none => rfl
  | some high =>
    cases digitValue 16 b with
    | none => rfl
    | some low => cases octetText l <;> rfl

theorem hexPairs_isSome (l : List Char) : (hexPairs l).isSome = true ↔ PlusPairs l := by
  induction l using hexPairs.induct with
  | case1 => exact iff_of_true rfl trivial
  | case2 a => exact iff_of_false Bool.false_ne_true id
  | case3 a b l ih =>
    rw [hexPairs_cons, fromStrRadix_pair, PlusPairs, ← ih]
    by_cases ha : a = '+'
    · rw [if_pos ha, and_iff_right (.inl ha)]
      cases digitValue 16 b <;> cases hexPairs l <;> simp
    · rw [if_neg ha, or_iff_right ha]
      cases digitValue 16 a <;> cases digitValue 16 b <;> cases hexPairs l <;> simp

theorem hexPairs_of_not_mem {l : List Char} (h : '+' ∉ l) : hexPairs l = octetText l := by
  induction l using hexPairs.induct with
  | case1 => rfl
  | case2 a => rfl
  | case3 a b l ih =>
    obtain ⟨ha, hrest⟩ := List.ne_and_not_mem_of_not_mem_cons h
    obtain ⟨-, hl⟩ := List.ne_and_not_mem_of_not_mem_cons hrest
    rw [hexPairs_cons, octetText_cons, fromStrRadix_pair, if_neg ha.symm, ih hl]
    cases digitValue 16 a <;> cases digitValue 16 b <;> rfl

/-- A plus sign is no digit of the format. -/
theorem octetText_plus {l : List Char} (h : '+' ∈ l) : octetText l = none := by
  have hplus : digitValue 16 '+' = none := by decide
  induction l using hexPairs.induct with
  | case1 => cases h
  | case2 a => rfl
  | case3 a b l ih =>
    rw [octetText_cons]
    rcases List.mem_cons.mp h with rfl | h
    · rw [hplus]
      rfl
    rcases List.mem_cons.mp h with rfl | h
    · rw [hplus]
      cases digitValue 16 a <;> rfl
    · rw [ih h]
      cases digitValue 16 a <;> cases digitValue 16 b <;> rfl

theorem ascii_of_plusPairs {l : List Char} (h : PlusPairs l) : l.all (·.toNat < 128) = true := by
  induction l using hexPairs.induct with
  | case1 => rfl
  | case2 a => exact h.elim
  | case3 a b l ih =>
    obtain ⟨ha, hb, hl⟩ := h
    have hfirst : a.toNat < 128 := by
      rcases ha with rfl | ha
      · decide
      · exact toNat_lt_of_digitValue ha
    rw [List.all_cons, List.all_cons, ih hl, decide_eq_true hfirst,
      decide_eq_true (toNat_lt_of_digitValue hb)]
    rfl

/-- The octets of a value behind `0x`. -/
theorem octets_exact_iff (l : List Char) :
    (if l.all (·.toNat < 128) then hexPairs l else none) = octetText l ↔ ¬('+' ∈ l ∧ PlusPairs l) := by
  have hguard : (if l.all (·.toNat < 128) then hexPairs l else none) = hexPairs l := by
    split
    · rfl
    · rename_i hascii
      cases h : hexPairs l with
      | none => rfl
      | some bytes =>
        have hpairs := (hexPairs_isSome l).mp (by rw [h]; rfl)
        exact absurd (ascii_of_plusPairs hpairs) hascii
  rw [hguard]
  by_cases hplus : '+' ∈ l
  · rw [octetText_plus hplus, and_iff_right hplus, ← hexPairs_isSome]
    exact Option.not_isSome_iff_eq_none.symm
  · exact iff_of_true (hexPairs_of_not_mem hplus) fun h => hplus h.1

/-- A value without the white space and the quotes around it. -/
def bareValue (value : List Char) : List Char := trimMatches (· == '"') (trim value)

theorem serializeValue_octets (realBits : ℕ → List Char → Option ℕ) {value pattern : List Char}
    {dataType : UInt16} (htype : dataType = 0x000A ∨ dataType = 0x000F)
    (hstrip : stripHex (bareValue value) = some pattern) :
    serializeValue realBits value dataType =
      if pattern.all (·.toNat < 128) then hexPairs pattern else none := by
  unfold bareValue at hstrip
  rcases htype with rfl | rfl <;> simp only [serializeValue, hstrip]

/-- Integers are serialised as the numbers of the format, and refused otherwise, unless white space
or a misplaced plus sign is skipped or a negative zero is refused; octets unless a plus sign takes
the place of a digit. -/
theorem serialised_exactly_iff {bits : ℕ} (hbits : bits ∈ [8, 16, 24, 32, 64]) (signed : Bool)
    (v : List Char) (realBits : ℕ → List Char → Option ℕ) (value pattern : List Char)
    (dataType : UInt16) :
    (∀ bytes, serializeInteger v bits signed = some bytes → bytes.length = bits / 8) ∧
    (serializeInteger v bits signed = (integerText bits signed v).map (integerBytes bits) ↔
      ¬Misread bits signed v) ∧
    (dataType = 0x000A ∨ dataType = 0x000F → stripHex (bareValue value) = some pattern →
      (serializeValue realBits value dataType = octetText pattern ↔
        ¬('+' ∈ pattern ∧ PlusPairs pattern))) := by
  have hwidth : 8 ∣ bits ∧ 1 ≤ bits ∧ bits ≤ 64 := by
    have hall : ∀ bits ∈ [8, 16, 24, 32, 64], 8 ∣ bits ∧ 1 ≤ bits ∧ bits ≤ 64 := by decide
    exact hall bits hbits
  refine ⟨fun _ => length_serializeInteger hwidth.2.2, exact_iff hwidth.1 hwidth.2 signed v, ?_⟩
  intro htype hstrip
  rw [serializeValue_octets realBits htype hstrip]
  exact octets_exact_iff pattern

/-- A negative decimal number, and two octets. -/
theorem serialised_exactly_minus_five :
    serializeInteger "-5".toList 8 true = some [0xFB] ∧
      serializeValue (fun _ _ => none) "\"0x12aB\"".toList 0x000A = some [0x12, 0xAB] := by
  have hspaced : ¬Misread 8 true "-5".toList := by
    rintro (⟨htrim, -⟩ | ⟨pattern, -, hstrip, -⟩ | ⟨hsigned, -⟩)
    · exact htrim (by decide)
    · have hno : stripHex "-5".toList = none := by decide
      rw [hno] at hstrip
      cases hstrip
    · cases hsigned
  have hplus : ¬('+' ∈ "12aB".toList ∧ PlusPairs "12aB".toList) := fun h => absurd h.1 (by decide)
  have hwidth : 8 ∈ [8, 16, 24, 32, 64] := by decide
  obtain ⟨-, hinteger, hoctets⟩ := serialised_exactly_iff hwidth true "-5".toList (fun _ _ => none)
    "\"0x12aB\"".toList "12aB".toList 0x000A
  exact ⟨(hinteger.mpr hspaced).trans (by decide),
    ((hoctets (.inl rfl) (by decide)).mpr hplus).trans (by decide)⟩

/-- A plus sign behind `0x` is skipped, white space too, and a negative zero is refused. -/
theorem serialised_misread :
    serializeInteger "0x+5".toList 8 false = some [5] ∧ integerText 8 false "0x+5".toList = none ∧
      serializeInteger " 5".toList 8 false = some [5] ∧ integerText 8 false " 5".toList = none ∧
      serializeInteger "-0".toList 8 false = none ∧ integerText 8 false "-0".toList = some 0 ∧
      serializeValue (fun _ _ => none) "0x+5".toList 0x000A = some [5] ∧ octetText "+5".toList = none := by
  decide

end Canopen.Eds
