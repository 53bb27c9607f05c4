import Mathlib.Algebra.Order.Field.Rat
import Canopen.Eds.Numerals
import Canopen.Eds.Strings

/-!
# Initial values

What the default of an object says, read off the text of its section, and what the literal says
that the importer keeps for it (`parse_var_entry`, `normalize_default`). A real number is known
exactly, by the rational number its digits stand for, or by its bits.
-/

namespace Canopen.Eds

open Text
open StringLiteral (Plain literal literal_eq_self_iff)

inductive InitialValue
  | int (z : ℤ)
  | bool (b : Bool)
  | real (q : ℚ)
  | realBits (n : ℕ)
  | text (s : List Char)
  | octets (bytes : List UInt8)
  deriving DecidableEq

/-! ## Real numbers -/

/-- Digits with at most one point. -/
def mantissa (l : List Char) : Option ℚ :=
  match splitOnce ['.'] l with
  | none => (digits 10 l).map fun n : ℕ => (n : ℚ)
  | some (whole, fraction) =>
    (digits 10 (whole ++ fraction)).map fun n : ℕ => (n : ℚ) / 10 ^ fraction.length

/-- A mantissa and a power of ten. -/
def unsignedReal (l : List Char) : Option ℚ :=
  match l.span (fun c => c != 'e' && c != 'E') with
  | (m, []) => mantissa m
  | (m, _ :: exponent) => (mantissa m).bind fun q => (decimalNumber exponent).map fun k => q * 10 ^ k

def decimalReal : List Char → Option ℚ
  | '-' :: l => (unsignedReal l).map fun q => -q
  | '+' :: l => unsignedReal l
  | l => unsignedReal l

/-- A binary floating-point format and its name. -/
structure RealFormat where
  suffix : List Char
  bits : ℕ
  significand : ℕ
  exponent : ℕ
  deriving DecidableEq

def single : RealFormat := ⟨"f32".toList, 32, 2 ^ 25 - 1, 103⟩

def double : RealFormat := ⟨"f64".toList, 64, 2 ^ 54 - 1, 970⟩

/-- Digits on both sides of a point. -/
def isPointInside (l : List Char) : Bool :=
  match splitOnce ['.'] l with
  | none => true
  | some (whole, fraction) =>
    whole.getLast?.any (fun c => (digitValue 10 c).isSome) && fraction.head?.any (fun c => (digitValue 10 c).isSome)

/-- The decimal numbers that are literals of the language, or negated ones. -/
def isRealLiteral (v : List Char) : Bool := v.head? != some '+' && isPointInside v

namespace RealFormat

variable (f : RealFormat)

/-- From here on a number is rounded to infinity. -/
def limit : ℚ := f.significand * 2 ^ f.exponent

def number (v : List Char) : Option InitialValue :=
  ((decimalReal v).filter fun q => -f.limit < q ∧ q < f.limit).map .real

def pattern (l : List Char) : Option InitialValue :=
  ((digits 16 l).filter (· < 2 ^ f.bits)).map .realBits

/-- What a text stands for: hexadecimal digits are the bits. -/
def written (v : List Char) : Option InitialValue :=
  match stripHex v with
  | some l => f.pattern l
  | none => f.number v

def fromBits : List Char := f.suffix ++ "::from_bits(0x".toList

/-- The value of an expression, a literal or the number of a bit pattern. -/
def value (text : List Char) : Option InitialValue :=
  match stripSuffix f.suffix text with
  | some v => if isRealLiteral v then f.number v else none
  | none => ((stripPrefix f.fromBits text).bind (stripSuffix [')'])).bind f.pattern

/-- The numbers the importer keeps. -/
def Kept (v : List Char) : Prop :=
  (f.written v).isSome = true ∧ (stripHex v = none → isRealLiteral v = true)

end RealFormat

/-! ## Types -/

/-- Bits and signedness of the integer types. -/
def integerFormat : DataType → Option (ℕ × Bool)
  | .i8 => some (8, true)
  | .i16 => some (16, true)
  | .i24 => some (24, true)
  | .i32 => some (32, true)
  | .i64 => some (64, true)
  | .u8 => some (8, false)
  | .u16 => some (16, false)
  | .u24 => some (24, false)
  | .u32 => some (32, false)
  | .u64 => some (64, false)
  | _ => none

def realFormat : DataType → Option RealFormat
  | .real32 => some single
  | .real64 => some double
  | _ => none

/-- The value of an object without a default. -/
def zeroValue : DataType → InitialValue
  | .visibleString => .text []
  | .octetString | .domain => .octets []
  | .boolean => .bool false
  | .real32 | .real64 => .real 0
  | _ => .int 0

/-! ## Texts -/

/-- A sign, decimal digits, or a bit pattern of the width; a plus sign changes nothing. -/
def writtenInteger (bits : ℕ) (signed : Bool) (v : List Char) : Option ℤ :=
  match stripHex v with
  | some l => ((digits 16 (afterPlus l)).filter (· < 2 ^ bits)).map (fromPattern bits signed)
  | none => (decimalNumber v).filter (inRange bits signed)

def writtenBool (v : List Char) : Option Bool :=
  if v = ['0'] ∨ eqIgnoreAsciiCase v "false".toList then some false
  else if v = ['1'] ∨ eqIgnoreAsciiCase v "true".toList then some true
  else none

/-- Pairs of hexadecimal digits, or the bytes of a text. -/
def writtenOctets (v : List Char) : Option (List UInt8) :=
  match stripHex v with
  | some l => octetText l
  | none => some (utf8 v)

def writtenNumber (t : DataType) (v : List Char) : Option InitialValue :=
  match integerFormat t, realFormat t with
  | some (bits, signed), _ => (writtenInteger bits signed v).map .int
  | none, some f => f.written v
  | none, none => (writtenBool v).map .bool

/-- The initial value a default stands for. An expression with the node id is none. -/
def writtenValue (t : DataType) (v : List Char) : Option InitialValue :=
  match t with
  | .visibleString => some (.text (unquote v))
  | .octetString | .domain => (writtenOctets (unquote v)).map .octets
  | t =>
    if namesNodeId v then none
    else if v = [] then some (zeroValue t)
    else writtenNumber t v

/-! ## Literals -/

def Literal.value (lang : RustLang) (t : DataType) : Literal → Option InitialValue
  | .int z => some (.int z)
  | .bool b => some (.bool b)
  | .source text =>
    match realFormat t with
    | some f => f.value text
    | none => (lang.stringOf text).map .text

def initialValue (lang : RustLang) (t : DataType) (default : Option Literal) : Option InitialValue :=
  match default with
  | none => some (zeroValue t)
  | some lit => lit.value lang t


/-- What a default stands for is what the importer keeps. -/
def ValueKept (lang : RustLang) (t : DataType) (default : Option (List Char)) : Prop :=
  let v := trim (default.getD [])
  match t with
  | .visibleString => default.isSome = true ∧
      (unquote v = [] ∨ Plain (unquote v) ∨ ComputesItself lang v)
  | .octetString | .domain => unquote v = [] ∨ stripHex (unquote v) = some []
  | t => namesNodeId v = false ∧ (v = [] ∨ ∀ f, realFormat t = some f → f.Kept v)

/-- The defaults that leave an array to its zeros; `0` stands for a missing one, and is none of the
spellings of a real number. -/
def ZeroDefault (lang : Lang) (t : DataType) (default : Option (List Char)) : Prop :=
  let v := trim (default.getD ['0'])
  match t with
  | .visibleString => trimMatches (· == '"') v = [] ∨
      lang.isExpr (quotedText (trimMatches (· == '"') v)) = false
  | .octetString | .domain => True
  | .real32 | .real64 => (v = [] ∨ namesNodeId v = true) ∨ v = "0.0".toList
  | t => (v = [] ∨ namesNodeId v = true) ∨ writtenNumber t v = some (zeroValue t)

/-! ## Numbers -/

theorem readInteger_eq {bits : ℕ} (hbits : 1 ≤ bits ∧ bits ≤ 64) (signed : Bool) (v : List Char) :
    readInteger bits signed v = writtenInteger bits signed v := by
  have hpow : (2 : ℕ) ^ bits ≤ 2 ^ 64 := Nat.pow_le_pow_right (by decide) hbits.2
  unfold readInteger writtenInteger
  cases stripHex v with
  | some l =>
    dsimp only
    rw [fromStrRadix_afterPlus]
    cases digits 16 (afterPlus l) with
    | none => rfl
    | some n =>
      by_cases hfit : n < 2 ^ bits
      · have hrange := (inRange_fromPattern hbits.1 signed hfit).1
        rw [filter_lt (hfit.trans_le hpow), filter_lt hfit]
        simp [Option.filter_some, Nat.div_eq_of_lt hfit, hrange]
      · rw [filter_not_lt hfit]
        by_cases h64 : n < 2 ^ 64
        · have hsmall : ¬64 ≤ bits := by
            intro hge
            have heq : bits = 64 := Nat.le_antisymm hbits.2 hge
            rw [heq] at hfit
            exact hfit h64
          have hdiv : n / 2 ^ bits ≠ 0 := by
            rw [Nat.div_ne_zero_iff]
            exact ⟨by positivity, Nat.not_lt.mp hfit⟩
          rw [filter_lt h64]
          simp [Option.filter_some, hsmall, hdiv]
        · rw [filter_not_lt h64]
          rfl
  | none =>
    -- what 127 bits do not hold is in no range
    have hcast (k : ℕ) : (2 : ℤ) ^ k = ((2 ^ k : ℕ) : ℤ) := by push_cast; rfl
    have hhalf : (2 : ℕ) ^ (bits - 1) ≤ 2 ^ 64 := Nat.pow_le_pow_right (by decide) (by omega)
    have hlarge (n : ℕ) (hn : 2 ^ 127 ≤ n) : inRange bits signed n = false := by
      cases signed <;> simp only [inRange, hcast, Bool.false_eq_true, if_false, if_true,
        Bool.and_eq_false_iff, decide_eq_false_iff_not] <;> omega
    have hsmall (n : ℕ) (hn : 2 ^ 127 < n) : inRange bits signed (-(n : ℤ)) = false := by
      cases signed <;> simp only [inRange, hcast, Bool.false_eq_true, if_false, if_true,
        Bool.and_eq_false_iff, decide_eq_false_iff_not] <;> omega
    dsimp only
    by_cases hminus : v.head? = some '-'
    · obtain ⟨l, rfl⟩ := List.head?_eq_some_iff.mp hminus
      rw [fromStrSigned_minus, decimalNumber]
      cases digits 10 l with
      | none => rfl
      | some n =>
        by_cases hle : n ≤ 2 ^ 127
        · rw [filter_le hle]
        · rw [filter_not_le hle]
          simp [Option.filter_some, hsmall n (Nat.not_le.mp hle)]
    · rw [fromStrSigned_of_head hminus, decimalNumber_of_head hminus, fromStrRadix_afterPlus]
      cases digits 10 (afterPlus v) with
      | none => rfl
      | some n =>
        by_cases hlt : n < 2 ^ 127
        · rw [filter_lt hlt]
        · rw [filter_not_lt hlt]
          simp [Option.filter_some, hlarge n (Nat.not_lt.mp hlt)]

/-! ## Literals of the importer -/

def RealFormat.default (f : RealFormat) (v : List Char) : Option Literal :=
  match stripHex v with
  | some l => (fromStrRadix 16 (2 ^ f.bits) l).map fun _ => .source (f.fromBits ++ l ++ [')'])
  | none => if isFloat v then some (.source (v ++ f.suffix)) else none

def typeCode (t : DataType) : UInt16 := UInt16.ofNat (typeToEdsCode t)

/-- The importer's literal for a value that is there. -/
theorem normalizeDefault_number {t : DataType} {value : List Char} (ht : t.size.isSome = true)
    (hempty : trim value ≠ []) (hnode : namesNodeId (trim value) = false) :
    normalizeDefault value (typeCode t) =
      match integerFormat t, realFormat t with
      | some (bits, signed), _ => (readInteger bits signed (trim value)).map .int
      | none, some f => f.default (trim value)
      | none, none => (edsBoolean (trim value)).map .bool := by
  have hguard : ((trim value).isEmpty || namesNodeId (trim value)) = false := by
    simp [hempty, hnode]
  unfold normalizeDefault
  dsimp only
  rw [hguard, if_neg Bool.false_ne_true]
  cases t with
  | boolean =>
    change (if _ then _ else if _ then _ else none) = Option.map Literal.bool (edsBoolean (trim value))
    unfold edsBoolean
    split_ifs <;> rfl
  | visibleString => cases ht
  | octetString => cases ht
  | domain => cases ht
  | _ => rfl

theorem writtenValue_fixed {t : DataType} (ht : t.size.isSome = true) (v : List Char) :
    writtenValue t v = if namesNodeId v then none else if v = [] then some (zeroValue t)
      else writtenNumber t v := by
  cases t <;> first | rfl | cases ht

theorem format_cases {t : DataType} {f : RealFormat} (h : realFormat t = some f) :
    f = single ∨ f = double := by
  cases t <;> first | exact .inl (Option.some.inj h).symm | exact .inr (Option.some.inj h).symm | cases h

section Real

variable {f : RealFormat} (hf : f = single ∨ f = double)
include hf

theorem suffix_concat : ∃ l c, f.suffix = l ++ [c] ∧ c ≠ ')' := by
  rcases hf with rfl | rfl
  · exact ⟨"f3".toList, '2', rfl, by decide⟩
  · exact ⟨"f6".toList, '4', rfl, by decide⟩

theorem value_fromBits (l : List Char) : f.value (f.fromBits ++ l ++ [')']) = f.pattern l := by
  obtain ⟨front, c, hsuffix, hne⟩ := suffix_concat hf
  have hnone : stripSuffix f.suffix (f.fromBits ++ l ++ [')']) = none := by
    rw [hsuffix, stripSuffix_of_ne hne]
  unfold RealFormat.value
  rw [hnone, List.append_assoc, stripPrefix_append, Option.bind_some, stripSuffix_append, Option.bind_some]

omit hf in
theorem value_suffix (v : List Char) :
    f.value (v ++ f.suffix) = if isRealLiteral v then f.number v else none := by
  unfold RealFormat.value
  rw [stripSuffix_append]

theorem number_zero {v : List Char} (h : decimalReal v = some 0) : f.number v = some (.real 0) := by
  have hsignificand : 0 < f.significand := by
    rcases hf with rfl | rfl <;> decide
  have hpos : 0 < f.limit := by
    unfold RealFormat.limit
    positivity
  rw [RealFormat.number, h, Option.filter_some, if_pos, Option.map_some]
  simpa using hpos

/-- The importer keeps the bits and the literals. -/
theorem default_kept_iff {lang : RustLang} {t : DataType} (ht : realFormat t = some f) {v : List Char}
    {lit : Literal} (h : f.default v = some lit) :
    (∃ x, f.written v = some x ∧ lit.value lang t = some x) ↔ f.Kept v := by
  unfold RealFormat.default at h
  unfold RealFormat.Kept RealFormat.written
  cases hstrip : stripHex v with
  | some l =>
    rw [hstrip] at h
    obtain ⟨_, -, rfl⟩ := Option.map_eq_some_iff.mp h
    have hvalue : (Literal.source (f.fromBits ++ l ++ [')'])).value lang t = f.pattern l := by
      simp only [Literal.value, ht, value_fromBits hf]
    rw [hvalue]
    simp [Option.isSome_iff_exists]
  | none =>
    rw [hstrip] at h
    dsimp only at h
    split_ifs at h
    cases h
    have hvalue : (Literal.source (v ++ f.suffix)).value lang t =
        if isRealLiteral v then f.number v else none := by
      simp only [Literal.value, ht, value_suffix]
    rw [hvalue]
    by_cases hliteral : isRealLiteral v = true
    · simp [hliteral, Option.isSome_iff_exists]
    · simp [hliteral]

theorem default_zero_iff {v : List Char} {lit : Literal} (h : f.default v = some lit) :
    isZeroDefault (some lit) = true ↔ v = "0.0".toList := by
  unfold RealFormat.default at h
  cases hstrip : stripHex v with
  | some l =>
    rw [hstrip] at h
    obtain ⟨_, -, rfl⟩ := Option.map_eq_some_iff.mp h
    refine iff_of_false ?_ ?_
    · rcases hf with rfl | rfl <;> simp [isZeroDefault, RealFormat.fromBits, single, double]
    · rintro rfl
      cases hstrip
  | none =>
    rw [hstrip] at h
    dsimp only at h
    split_ifs at h
    cases h
    have hzero : isZeroDefault (some (.source (v ++ f.suffix))) = true ↔
        v ++ f.suffix = "0.0f32".toList ∨ v ++ f.suffix = "0.0f64".toList := by
      simp [isZeroDefault]
    rw [hzero]
    constructor
    · intro htext
      have hstrip : stripSuffix f.suffix (v ++ f.suffix) = some v := stripSuffix_append _ _
      rcases htext with htext | htext <;> rw [htext] at hstrip <;>
        rcases hf with rfl | rfl <;> cases hstrip <;> rfl
    · rintro rfl
      rcases hf with rfl | rfl
      · exact .inl rfl
      · exact .inr rfl

end Real

/-- An object without a value is initialised with zero. -/
theorem value_floatZero {lang : RustLang} {t : DataType} (ht : t.size.isSome = true) :
    (floatZero (typeCode t)).value lang t = some (zeroValue t) := by
  have hzero : decimalReal "0.0".toList = some 0 := by
    have hmantissa : mantissa "0.0".toList = some (((0 : ℕ) : ℚ) / 10 ^ 1) := rfl
    change mantissa "0.0".toList = _
    rw [hmantissa]
    norm_num
  cases t with
  | real32 =>
    change single.value ("0.0".toList ++ single.suffix) = _
    rw [value_suffix, if_pos (by decide), number_zero (.inl rfl) hzero]
    rfl
  | real64 =>
    change double.value ("0.0".toList ++ double.suffix) = _
    rw [value_suffix, if_pos (by decide), number_zero (.inr rfl) hzero]
    rfl
  | visibleString => cases ht
  | octetString => cases ht
  | domain => cases ht
  | _ => rfl

theorem edsBoolean_eq (v : List Char) : edsBoolean v = writtenBool v := by
  have hdigit (d : Char) (hd : d = '0' ∨ d = '1') : lowercase v = [d] ↔ v = [d] := by
    refine ⟨eq_of_lowercase_digit hd, ?_⟩
    rintro rfl
    rcases hd with rfl | rfl <;> rfl
  have hword (word : List Char) (hw : lowercase word = word) :
      eqIgnoreAsciiCase v word = true ↔ lowercase v = word := by
    rw [eqIgnoreAsciiCase, beq_iff_eq, hw]
  unfold edsBoolean writtenBool
  simp only [hword "false".toList rfl, hword "true".toList rfl, ← hdigit '0' (.inl rfl),
    ← hdigit '1' (.inr rfl)]
  rfl

theorem eq_floatZero {value : List Char} {code : UInt16} {lit : Literal}
    (h : normalizeDefault value code = some lit)
    (hzero : trim value = [] ∨ namesNodeId (trim value) = true) : lit = floatZero code := by
  have hguard : ((trim value).isEmpty || namesNodeId (trim value)) = true := by
    rw [Bool.or_eq_true, List.isEmpty_iff]
    exact hzero
  rw [normalizeDefault] at h
  dsimp only at h
  rw [if_pos hguard] at h
  exact (Option.some.inj h).symm

section Number

variable {t : DataType} {value : List Char} {lit : Literal} (ht : t.size.isSome = true)
  (h : normalizeDefault value (typeCode t) = some lit) (hempty : trim value ≠ [])
  (hnode : namesNodeId (trim value) = false)
include ht h hempty hnode

theorem default_of_real {f : RealFormat} (hreal : realFormat t = some f) :
    f.default (trim value) = some lit ∧ writtenNumber t (trim value) = f.written (trim value) := by
  have hint : integerFormat t = none := by
    cases t <;> first | rfl | simp [realFormat] at hreal
  rw [normalizeDefault_number ht hempty hnode, hint, hreal] at h
  refine ⟨h, ?_⟩
  unfold writtenNumber
  rw [hint, hreal]

/-- Integers and booleans are read as they are written. -/
theorem literal_of_exact (hreal : realFormat t = none) :
    (∃ z, lit = .int z ∧ zeroValue t = .int 0 ∧ writtenNumber t (trim value) = some (.int z)) ∨
      ∃ b, lit = .bool b ∧ zeroValue t = .bool false ∧ writtenNumber t (trim value) = some (.bool b) := by
  rw [normalizeDefault_number ht hempty hnode, hreal] at h
  unfold writtenNumber
  rw [hreal]
  cases hint : integerFormat t with
  | some format =>
    obtain ⟨bits, signed⟩ := format
    have hbits : 1 ≤ bits ∧ bits ≤ 64 := by
      cases t <;> cases hint <;> decide
    have hzero : zeroValue t = .int 0 := by
      cases t <;> first | rfl | cases hint
    rw [hint] at h
    dsimp only at h ⊢
    rw [readInteger_eq hbits] at h
    obtain ⟨z, hz, rfl⟩ := Option.map_eq_some_iff.mp h
    rw [hz]
    exact .inl ⟨z, rfl, hzero, rfl⟩
  | none =>
    have hzero : zeroValue t = .bool false := by
      cases t <;> first
        | rfl
        | exact absurd ht (by decide)
        | exact absurd hint (by decide)
        | exact absurd hreal (by decide)
    rw [hint] at h
    dsimp only at h ⊢
    rw [edsBoolean_eq] at h
    obtain ⟨b, hb, rfl⟩ := Option.map_eq_some_iff.mp h
    rw [hb]
    exact .inr ⟨b, rfl, hzero, rfl⟩

theorem number_zero_iff : isZeroDefault (some lit) = true ↔
    match realFormat t with
    | some _ => trim value = "0.0".toList
    | none => writtenNumber t (trim value) = some (zeroValue t) := by
  cases hreal : realFormat t with
  | some f => exact default_zero_iff (format_cases hreal) (default_of_real ht h hempty hnode hreal).1
  | none =>
    rcases literal_of_exact ht h hempty hnode hreal with ⟨z, rfl, hzero, hwritten⟩ | ⟨b, rfl, hzero, hwritten⟩
    · rw [hwritten, hzero]
      simp [isZeroDefault]
    · rw [hwritten, hzero]
      simp [isZeroDefault]

end Number

theorem number_kept_iff {lang : RustLang} {t : DataType} {value : List Char} {lit : Literal}
    (ht : t.size.isSome = true) (h : normalizeDefault value (typeCode t) = some lit) :
    (∃ x, writtenValue t (trim value) = some x ∧ lit.value lang t = some x) ↔
      namesNodeId (trim value) = false ∧
        (trim value = [] ∨ ∀ f, realFormat t = some f → f.Kept (trim value)) := by
  rw [writtenValue_fixed ht]
  by_cases hnode : namesNodeId (trim value) = true
  · simp [hnode]
  rw [if_neg hnode, Bool.not_eq_true] at *
  rw [and_iff_right hnode]
  by_cases hempty : trim value = []
  · rw [if_pos hempty, eq_floatZero h (.inl hempty), value_floatZero ht]
    simp [hempty]
  rw [if_neg hempty, or_iff_right hempty]
  cases hreal : realFormat t with
  | some f =>
    obtain ⟨hdefault, hwritten⟩ := default_of_real ht h hempty hnode hreal
    rw [hwritten, default_kept_iff (format_cases hreal) hreal hdefault]
    simp
  | none =>
    rcases literal_of_exact ht h hempty hnode hreal with ⟨z, rfl, -, hwritten⟩ | ⟨b, rfl, -, hwritten⟩
    · simp [hwritten, Literal.value]
    · simp [hwritten, Literal.value]

/-- The digit that stands for a missing number. -/
theorem value_missing {lang : RustLang} {t : DataType} {lit : Literal} (ht : t.size.isSome = true)
    (h : normalizeDefault ['0'] (typeCode t) = some lit) : lit.value lang t = some (zeroValue t) := by
  have hzero : decimalReal ['0'] = some 0 := by
    have hmantissa : mantissa ['0'] = some ((0 : ℕ) : ℚ) := rfl
    change mantissa ['0'] = _
    rw [hmantissa]
    norm_num
  cases t with
  | real32 =>
    cases h
    change single.value (['0'] ++ single.suffix) = _
    rw [value_suffix, if_pos (by decide), number_zero (.inl rfl) hzero]
    rfl
  | real64 =>
    cases h
    change double.value (['0'] ++ double.suffix) = _
    rw [value_suffix, if_pos (by decide), number_zero (.inr rfl) hzero]
    rfl
  | visibleString => cases ht
  | octetString => cases ht
  | domain => cases ht
  | _ =>
    cases h
    rfl

theorem parseLiteral_ok {lang : Lang} {lit lit' : Literal} (h : parseLiteral lang lit = .ok lit') :
    lit' = lit := by
  unfold parseLiteral at h
  split at h
  · split_ifs at h
    cases h
    rfl
  · cases h
    rfl

theorem isZeroDefault_floatZero (code : UInt16) : isZeroDefault (some (floatZero code)) = true := by
  unfold floatZero
  split_ifs <;> rfl

theorem eq_floatZero_of_zero {t : DataType} {f : RealFormat} {value : List Char} {lit : Literal}
    (hreal : realFormat t = some f) (h : normalizeDefault value (typeCode t) = some lit)
    (hzero : trim value = "0.0".toList) : lit = floatZero (typeCode t) := by
  rw [normalizeDefault, hzero] at h
  cases t with
  | real32 => exact (Option.some.inj h).symm
  | real64 => exact (Option.some.inj h).symm
  | _ => simp [realFormat] at hreal

theorem zeroDefault_sized {t : DataType} (ht : t.size.isSome = true) (lang : Lang)
    (value : Option (List Char)) : ZeroDefault lang t value ↔
      (trim (value.getD ['0']) = [] ∨ namesNodeId (trim (value.getD ['0'])) = true) ∨
        match realFormat t with
        | some _ => trim (value.getD ['0']) = "0.0".toList
        | none => writtenNumber t (trim (value.getD ['0'])) = some (zeroValue t) := by
  cases t <;> first | rfl | cases ht

theorem isZeroDefault_string {lang : Lang} {t : DataType} {value : List Char} {lit : Literal}
    (h : stringDefault lang t value = some lit) : isZeroDefault (some lit) = false := by
  unfold stringDefault at h
  dsimp only at h
  split_ifs at h
  cases h
  simp [isZeroDefault]

/-! ## Strings -/

section Strings

variable {lang : RustLang} (hlang : lang.ReadsLiterals)
include hlang

theorem value_string (value : List Char) :
    initialValue lang .visibleString (stringDefault lang.toLang .visibleString value) =
        some (.text (unquote (trim value))) ↔
      unquote (trim value) = [] ∨ Plain (unquote (trim value)) ∨ ComputesItself lang (trim value) := by
  have hvalue : initialValue lang .visibleString (stringDefault lang.toLang .visibleString value) =
      (importedText lang value).map .text := by
    rw [importedText, stringDefault, if_pos rfl]
    dsimp only
    split_ifs <;> rfl
  rw [← importedText_eq_iff hlang, hvalue]
  simp

theorem value_string_missing :
    initialValue lang .visibleString (stringDefault lang.toLang .visibleString ['0']) ≠ some (.text []) := by
  have hzero := (value_string hlang ['0']).mpr (.inr (.inl (by decide)))
  rw [hzero]
  decide

end Strings

theorem utf8_eq_nil_iff {v : List Char} : utf8 v = [] ↔ v = [] := by
  cases v with
  | nil => exact iff_of_true rfl rfl
  | cons c v =>
    refine iff_of_false ?_ (List.cons_ne_nil c v)
    intro h
    rw [utf8, List.flatMap_cons, List.append_eq_nil_iff] at h
    have hlength := String.length_utf8EncodeChar c
    rw [h.1] at hlength
    exact absurd hlength c.utf8Size_pos.ne

theorem writtenOctets_eq_nil_iff {v : List Char} :
    writtenOctets v = some [] ↔ v = [] ∨ stripHex v = some [] := by
  unfold writtenOctets
  cases hstrip : stripHex v with
  | some l =>
    have hne : v ≠ [] := by
      rintro rfl
      cases hstrip
    dsimp only
    rw [or_iff_right hne, Option.some.injEq]
    match l with
    | [] => simp [octetText]
    | [a] => simp [octetText]
    | a :: b :: l =>
      rw [octetText_cons]
      cases digitValue 16 a <;> cases digitValue 16 b <;> cases octetText l <;> simp
  | none => simp [utf8_eq_nil_iff]

theorem readDefault_unsized {lang : Lang} {t : DataType} (ht : t.size.isSome = false) {props : Props}
    {code : UInt16} {index : UInt16} {subindex : UInt8} {name : List Char} {default : Option Literal}
    (h : readDefault lang t code props index subindex name = .ok default) :
    default = stringDefault lang t ((getProp props "DefaultValue".toList).getD ['0']) := by
  have hnone : t.size.isNone = true := by
    rw [← Option.not_isSome, ht]
    rfl
  unfold readDefault at h
  dsimp only at h
  rw [if_pos hnone] at h
  exact (Except.ok.inj h).symm

theorem readDefault_sized {lang : Lang} {t : DataType} (ht : t.size.isSome = true) {props : Props}
    {code : UInt16} {index : UInt16} {subindex : UInt8} {name : List Char} {default : Option Literal}
    (h : readDefault lang t code props index subindex name = .ok default) :
    ∃ lit, normalizeDefault ((getProp props "DefaultValue".toList).getD ['0']) code = some lit ∧
      default = some lit := by
  have hsome : ¬t.size.isNone = true := by
    rw [← Option.not_isSome, ht]
    exact Bool.false_ne_true
  unfold readDefault at h
  dsimp only at h
  rw [if_neg hsome] at h
  cases hlit : normalizeDefault ((getProp props "DefaultValue".toList).getD "0".toList) code with
  | none =>
    rw [hlit] at h
    cases h
  | some lit =>
    rw [hlit] at h
    obtain ⟨lit', hparse, rfl⟩ := map_ok h
    exact ⟨lit, hlit, congrArg some (parseLiteral_ok hparse)⟩

theorem value_octets (v : List Char) :
    (∃ x, (writtenOctets (unquote v)).map InitialValue.octets = some x ∧ some (.octets []) = some x) ↔
      unquote v = [] ∨ stripHex (unquote v) = some [] := by
  rw [← writtenOctets_eq_nil_iff]
  simp

theorem isZeroDefault_iff {lang : Lang} {t : DataType} {props : Props} {index : UInt16} {subindex : UInt8}
    {name : List Char} {default : Option Literal}
    (h : readDefault lang t (typeCode t) props index subindex name = .ok default) :
    isZeroDefault default = true ↔ ZeroDefault lang t (getProp props "DefaultValue".toList) := by
  cases ht : t.size.isSome with
  | false =>
    rw [readDefault_unsized ht h]
    generalize getProp props "DefaultValue".toList = value
    cases t with
    | visibleString =>
      rw [ZeroDefault, stringDefault, if_pos rfl]
      dsimp only
      by_cases hempty : trimMatches (· == '"') (trim (value.getD ['0'])) = []
      · rw [if_pos (List.isEmpty_iff.mpr hempty)]
        exact iff_of_true rfl (.inl hempty)
      · rw [if_neg (by rwa [List.isEmpty_iff]), or_iff_right hempty, quotedText]
        cases lang.isExpr ('"' :: trimMatches (· == '"') (trim (value.getD ['0'])) ++ ['"']) with
        | false => exact iff_of_true rfl rfl
        | true => simp [isZeroDefault]
    | octetString => exact iff_of_true rfl trivial
    | domain => exact iff_of_true rfl trivial
    | _ => cases ht
  | true =>
    obtain ⟨lit, hlit, rfl⟩ := readDefault_sized ht h
    generalize getProp props "DefaultValue".toList = value at hlit ⊢
    rw [zeroDefault_sized ht]
    by_cases hfloat : trim (value.getD ['0']) = [] ∨ namesNodeId (trim (value.getD ['0'])) = true
    · rw [eq_floatZero hlit hfloat]
      exact iff_of_true (isZeroDefault_floatZero _) (.inl hfloat)
    · obtain ⟨hempty, hnode⟩ := not_or.mp hfloat
      rw [or_iff_right hfloat]
      exact number_zero_iff ht hlit hempty (Bool.not_eq_true _ ▸ hnode)

section Objects

variable {lang : RustLang} (hlang : lang.ReadsLiterals) {t : DataType} {props : Props} {index : UInt16}
  {subindex : UInt8} {name : List Char} {default : Option Literal}
  (h : readDefault lang.toLang t (typeCode t) props index subindex name = .ok default)
include hlang h

/-- What an object is initialised with. -/
theorem value_kept_iff :
    (∃ x, writtenValue t (trim ((getProp props "DefaultValue".toList).getD [])) = some x ∧
        initialValue lang t default = some x) ↔
      ValueKept lang t (getProp props "DefaultValue".toList) := by
  cases ht : t.size.isSome with
  | false =>
    rw [readDefault_unsized ht h]
    generalize getProp props "DefaultValue".toList = value
    cases t with
    | visibleString =>
      cases value with
      | none =>
        refine iff_of_false ?_ fun h => Bool.false_ne_true h.1
        rintro ⟨x, hx, hvalue⟩
        cases hx
        exact value_string_missing hlang hvalue
      | some value =>
        simp only [writtenValue, ValueKept, Option.getD_some, Option.isSome_some, true_and,
          Option.some.injEq, exists_eq_left']
        exact value_string hlang value
    | octetString => exact value_octets _
    | domain => exact value_octets _
    | _ => cases ht
  | true =>
    obtain ⟨lit, hlit, rfl⟩ := readDefault_sized ht h
    generalize getProp props "DefaultValue".toList = value at hlit ⊢
    have hkept : ValueKept lang t value ↔ namesNodeId (trim (value.getD [])) = false ∧
        (trim (value.getD []) = [] ∨ ∀ f, realFormat t = some f → f.Kept (trim (value.getD []))) := by
      cases t <;> first | rfl | cases ht
    rw [hkept]
    cases value with
    | none =>
      have hwritten : writtenValue t [] = some (zeroValue t) := by
        rw [writtenValue_fixed ht]
        rfl
      refine iff_of_true ⟨zeroValue t, hwritten, ?_⟩ ⟨rfl, .inl rfl⟩
      exact value_missing ht hlit
    | some value => exact number_kept_iff ht hlit

omit hlang in
theorem value_of_isZeroDefault (hzero : isZeroDefault default = true) :
    initialValue lang t default = some (zeroValue t) := by
  cases ht : t.size.isSome with
  | false =>
    rw [readDefault_unsized ht h] at hzero ⊢
    cases hstring : stringDefault lang.toLang t ((getProp props "DefaultValue".toList).getD ['0']) with
    | none => rfl
    | some lit =>
      rw [hstring, isZeroDefault_string hstring] at hzero
      cases hzero
  | true =>
    obtain ⟨lit, hlit, rfl⟩ := readDefault_sized ht h
    generalize (getProp props "DefaultValue".toList).getD ['0'] = value at hlit
    change lit.value lang t = _
    by_cases hfloat : trim value = [] ∨ namesNodeId (trim value) = true
    · rw [eq_floatZero hlit hfloat, value_floatZero ht]
    · obtain ⟨hempty, hnode⟩ := not_or.mp hfloat
      rw [Bool.not_eq_true] at hnode
      have hwritten := (number_zero_iff ht hlit hempty hnode).mp hzero
      cases hreal : realFormat t with
      | some f =>
        rw [hreal] at hwritten
        rw [eq_floatZero_of_zero hreal hlit hwritten, value_floatZero ht]
      | none =>
        rw [hreal] at hwritten
        dsimp only at hwritten
        rcases literal_of_exact ht hlit hempty hnode hreal with ⟨z, rfl, -, hz⟩ | ⟨b, rfl, -, hb⟩
        · exact hz.symm.trans hwritten
        · exact hb.symm.trans hwritten

end Objects

-- octets are lost, and an offset from the node id is not zero
example : writtenValue .octetString "0x0102".toList = some (.octets [1, 2]) ∧
    initialValue literalLang .octetString (stringDefault literalLang.toLang .octetString "0x0102".toList) =
      some (.octets []) := by decide

example : normalizeDefault "$NODEID+0x600".toList (typeCode .u16) = some (.int 0) := by decide

end Canopen.Eds
