import Canopen.Lib.LittleEndian
import Canopen.Lib.Text
import Canopen.Od

/-!
# Values in EDS and DCF files

The EDS importer turns a `DefaultValue` into a Rust literal (`eds_parser.rs`), the DCF
reader of a running node turns a value into the bytes to write (`dcf.rs`). Both are
given here with the text they accept; `readInteger` is what an integer text means.
-/

namespace Canopen.Eds

open LittleEndian Text

/-! ## Numbers -/

def stripHex (v : List Char) : Option (List Char) :=
  (stripPrefix "0x".toList v).or (stripPrefix "0X".toList v)

/-- A hexadecimal or decimal number of 64 bits, `parse_int` of the importer and
`parse_int_val` of the DCF reader. -/
def parseInt (s : List Char) : Option ℕ :=
  let s := trim s
  match stripHex s with
  | some digits => fromStrRadix 16 (2 ^ 64) digits
  | none => fromStrRadix 10 (2 ^ 64) s

theorem isWhite_prefixed {l : List Char} {n : ℕ} (h : digits 16 l = some n) :
    ∀ c ∈ "0x".toList ++ l, isWhite c = false := by
  intro c hc
  rcases List.mem_append.mp hc with hfront | hdigit
  · have hall : "0x".toList.all (!isWhite ·) = true := by decide
    simpa using List.all_eq_true.mp hall c hfront
  · exact isWhite_of_charValue (charValue_of_digits h c hdigit)

theorem parseInt_prefixed {l : List Char} {n : ℕ} (h : digits 16 l = some n) (hn : n < 2 ^ 64) :
    parseInt ("0x".toList ++ l) = some n := by
  have hstrip : stripHex ("0x".toList ++ l) = some l := by simp [stripHex, stripPrefix]
  simp only [parseInt, trim_of_forall (isWhite_prefixed h), hstrip]
  exact fromStrRadix_of_digits h hn

/-- Bits and signedness of the integer types. -/
def integerType : UInt16 → Option (ℕ × Bool)
  | 0x0002 => some (8, true)
  | 0x0003 => some (16, true)
  | 0x0010 => some (24, true)
  | 0x0004 => some (32, true)
  | 0x0015 => some (64, true)
  | 0x0005 => some (8, false)
  | 0x0006 => some (16, false)
  | 0x0016 => some (24, false)
  | 0x0007 => some (32, false)
  | 0x001B => some (64, false)
  | _ => none

/-! ## The EDS importer -/

/-- The data types the importer supports. -/
def datatypeToRust : UInt16 → Option DataType
  | 0x0001 => some .boolean
  | 0x0002 => some .i8
  | 0x0003 => some .i16
  | 0x0004 => some .i32
  | 0x0005 => some .u8
  | 0x0006 => some .u16
  | 0x0007 => some .u32
  | 0x0008 => some .real32
  | 0x0010 => some .i24
  | 0x0016 => some .u24
  | 0x0009 => some .visibleString
  | 0x000A => some .octetString
  | 0x000F => some .domain
  | 0x0011 => some .real64
  | 0x0015 => some .i64
  | 0x001B => some .u64
  | _ => none

/-- The Rust literal a default value becomes: the decimal digits of a number, a boolean,
or other source text. -/
inductive Literal
  | int (z : ℤ)
  | bool (b : Bool)
  | source (text : List Char)
  deriving DecidableEq, Repr

def isDigits (l : List Char) : Bool := l.all (fun c => (digitValue 10 c).isSome)

/-- An unsigned decimal float: digits with at most one point and at least one digit, and
an optional exponent. -/
def isFloatNumber (l : List Char) : Bool :=
  let (mantissa, exponent) := match l.span (fun c => c != 'e' && c != 'E') with
    | (mantissa, []) => (mantissa, none)
    | (mantissa, _ :: exponent) => (mantissa, some exponent)
  let mantissaOk := match splitOnce ['.'] mantissa with
    | none => isDigits mantissa && !mantissa.isEmpty
    | some (whole, fraction) =>
      isDigits whole && isDigits fraction && !(whole.isEmpty && fraction.isEmpty)
  let exponentOk := match exponent with
    | none => true
    | some exponent =>
      let digits := match exponent with
        | '+' :: l => l
        | '-' :: l => l
        | l => l
      isDigits digits && !digits.isEmpty
  mantissaOk && exponentOk

/-- The texts Rust reads as a float. -/
def isFloat (l : List Char) : Bool :=
  let body := match l with
    | '+' :: l => l
    | '-' :: l => l
    | l => l
  ["inf".toList, "infinity".toList, "nan".toList].contains (lowercase body) || isFloatNumber body

def fromPattern (bits : ℕ) (signed : Bool) (raw : ℕ) : ℤ :=
  if signed && raw / 2 ^ (bits - 1) % 2 == 1 then (raw : ℤ) - 2 ^ bits else raw

def inRange (bits : ℕ) (signed : Bool) (z : ℤ) : Bool :=
  if signed then -2 ^ (bits - 1) ≤ z && z ≤ 2 ^ (bits - 1) - 1 else 0 ≤ z && z ≤ 2 ^ bits - 1

/-- The integer a text denotes: hexadecimal digits are the bit pattern, decimal digits
with an optional sign the value. -/
def readInteger (bits : ℕ) (signed : Bool) (v : List Char) : Option ℤ :=
  let value := match stripHex v with
    | some digits =>
      ((fromStrRadix 16 (2 ^ 64) digits).filter fun raw => bits ≥ 64 || raw / 2 ^ bits == 0).map
        (fromPattern bits signed)
    | none => fromStrSigned (2 ^ 127) v
  value.filter (inRange bits signed)

def floatZero (dataType : UInt16) : Literal :=
  if dataType = 0x0008 then .source "0.0f32".toList
  else if dataType = 0x0011 then .source "0.0f64".toList
  else if dataType = 0x0001 then .bool false
  else .int 0

/-- An expression that names the node id, in any letter case. -/
def namesNodeId (v : List Char) : Bool := contains "$NODEID".toList (uppercase v)

/-- `normalize_default`: the literal for a `DefaultValue`, or `none` if it is not a value
of the type. -/
def normalizeDefault (value : List Char) (dataType : UInt16) : Option Literal :=
  let v := trim value
  if v.isEmpty || namesNodeId v then some (floatZero dataType)
  else if dataType = 0x0001 then
    let lower := lowercase v
    if lower = "0".toList ∨ lower = "false".toList then some (.bool false)
    else if lower = "1".toList ∨ lower = "true".toList then some (.bool true)
    else none
  else if dataType = 0x0008 then
    match stripHex v with
    | some digits => (fromStrRadix 16 (2 ^ 32) digits).map fun _ =>
        .source ("f32::from_bits(0x".toList ++ digits ++ ")".toList)
    | none => if isFloat v then some (.source (v ++ "f32".toList)) else none
  else if dataType = 0x0011 then
    match stripHex v with
    | some digits => (fromStrRadix 16 (2 ^ 64) digits).map fun _ =>
        .source ("f64::from_bits(0x".toList ++ digits ++ ")".toList)
    | none => if isFloat v then some (.source (v ++ "f64".toList)) else none
  else
    match integerType dataType with
    | none => some (.source v)
    | some (bits, signed) => (readInteger bits signed v).map .int

/-! ## The DCF reader -/

/-- The first `bits` of a number, little-endian. -/
def wireBytes (raw bits : ℕ) : List UInt8 := (leBytes 8 raw).take (bits / 8)

/-- `serialize_integer`: signed decimal values use their numeric range, hexadecimal
values may express the full bit pattern of a signed type. -/
def serializeInteger (value : List Char) (bits : ℕ) (signed : Bool) : Option (List UInt8) :=
  if signed && value.head? == some '-' then
    match fromStrSigned (2 ^ 63) value with
    | none => none
    | some n => if n < -2 ^ (bits - 1) then none else some (wireBytes (n % 2 ^ 64).toNat bits)
  else
    match parseInt value with
    | none => none
    | some n =>
      let hex := "0x".toList.isPrefixOf value || "0X".toList.isPrefixOf value
      let limitBits := if signed && !hex then bits - 1 else bits
      if limitBits < 64 ∧ 2 ^ limitBits ≤ n then none else some (wireBytes n bits)

/-- The bytes of pairs of hexadecimal digits. -/
def hexPairs : List Char → Option (List UInt8)
  | [] => some []
  | [_] => none
  | a :: b :: l => do
    let byte ← fromStrRadix 16 256 [a, b]
    let rest ← hexPairs l
    return UInt8.ofNat byte :: rest

def utf8 (v : List Char) : List UInt8 := v.flatMap String.utf8EncodeChar

/-- `serialize_value`: the bytes of a value of a type. The quotes around the value are
removed first. `realBits` is the float parser of the language: the bit pattern of a
decimal text at a width. -/
def serializeValue (realBits : ℕ → List Char → Option ℕ) (value : List Char) (dataType : UInt16) :
    Option (List UInt8) :=
  let v := trimMatches (· == '"') (trim value)
  match dataType with
  | 0x0001 =>
    if v = "false".toList then some [0]
    else if v = "true".toList then some [1]
    else match parseInt v with
      | some 0 => some [0]
      | some 1 => some [1]
      | _ => none
  | 0x0002 => serializeInteger v 8 true
  | 0x0005 => serializeInteger v 8 false
  | 0x0003 => serializeInteger v 16 true
  | 0x0006 => serializeInteger v 16 false
  | 0x0010 => serializeInteger v 24 true
  | 0x0016 => serializeInteger v 24 false
  | 0x0004 => serializeInteger v 32 true
  | 0x0007 => serializeInteger v 32 false
  | 0x0008 =>
    match stripHex v with
    | some digits => (fromStrRadix 16 (2 ^ 32) digits).map (leBytes 4)
    | none => (realBits 32 v).map (leBytes 4)
  | 0x0009 => some (utf8 v)
  | 0x000A | 0x000F =>
    match stripHex v with
    | some digits => if digits.all (·.toNat < 128) then hexPairs digits else none
    | none => some (utf8 v)
  | 0x0011 =>
    match stripHex v with
    | some digits => (fromStrRadix 16 (2 ^ 64) digits).map (leBytes 8)
    | none => (realBits 64 v).map (leBytes 8)
  | 0x0015 => serializeInteger v 64 true
  | 0x001B => serializeInteger v 64 false
  | _ => none

/-- The values `Dcf::parse` passes over: empty ones and `$NODEID` expressions. -/
def dcfSkips (value : List Char) : Bool :=
  let v := trim value
  v.isEmpty || contains "$NODEID".toList v || contains "$nodeid".toList v

end Canopen.Eds
