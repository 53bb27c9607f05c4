import Canopen.Lib.ByteBits
import Canopen.Slcan

/-!
# SLCAN lines

The lines that `encode_slcan_frame` writes and those that `parse_slcan_frame` accepts
(`slcan/logic.rs`). A line is taken apart into its parts: three identifier digits, the length
digit, the payload digits and an optional timestamp.
-/

namespace Canopen.Slcan

/-! ## Encoding -/

def hexDigit (val : UInt8) : UInt8 :=
  if val &&& 0x0F ≤ 9 then 0x30 + val else 0x41 + (val - 10)

/-- The line of a frame, without its terminator. -/
def frameLine (frame : CanFrame) : List UInt8 :=
  [0x74, hexDigit ((frame.id >>> 8).toUInt8 &&& 0x0F), hexDigit ((frame.id >>> 4).toUInt8 &&& 0x0F),
    hexDigit (frame.id.toUInt8 &&& 0x0F), 0x30 + UInt8.ofNat frame.rawDlc] ++
    frame.data.flatMap fun (b : UInt8) => [hexDigit (b >>> 4), hexDigit (b &&& 0x0F)]

/-- The number of bytes written and the buffer after it, `none` when the buffer is too short. -/
def encodeSlcanFrame (frame : CanFrame) (out : List UInt8) : Option (ℕ × List UInt8) :=
  let needed := 6 + frame.data.length * 2
  if out.length < needed then none
  else some (needed, frameLine frame ++ [cr] ++ out.drop needed)

/-! ## Digits -/

def isHexDigit (b : UInt8) : Bool := (parseHexDigit b).isSome

/-- The value of a digit. -/
def nibble (b : UInt8) : UInt8 := (parseHexDigit b).getD 0

def hexValue (digits : List UInt8) : ℕ := digits.foldl (fun n b => 16 * n + (nibble b).toNat) 0

def upperHex (b : UInt8) : UInt8 := if 0x61 ≤ b ∧ b ≤ 0x66 then b - 0x20 else b

theorem parseHexDigit_eq {b : UInt8} (h : isHexDigit b = true) : parseHexDigit b = some (nibble b) := by
  obtain ⟨n, hn⟩ := Option.isSome_iff_exists.mp h
  rw [nibble, hn, Option.getD_some]

theorem nibble_lt {b : UInt8} (h : isHexDigit b = true) : (nibble b).toNat < 16 := by
  have hall : ∀ b : UInt8, (!isHexDigit b || (nibble b).toNat < 16) = true :=
    ByteBits.forall_byte (by decide)
  simpa [h] using hall b

theorem ne_cr_of_isHexDigit {b : UInt8} (h : isHexDigit b = true) : b ≠ cr := by
  rintro rfl
  revert h
  decide

theorem hexDigit_nibble {b : UInt8} (h : isHexDigit b = true) : hexDigit (nibble b) = upperHex b := by
  have hall : ∀ b : UInt8, (!isHexDigit b || hexDigit (nibble b) == upperHex b) = true :=
    ByteBits.forall_byte (by decide)
  simpa [h] using hall b

theorem parseHexDigit_hexDigit (b : UInt8) : parseHexDigit (hexDigit (b &&& 0x0F)) = some (b &&& 0x0F) := by
  have hall : ∀ b : UInt8, (parseHexDigit (hexDigit (b &&& 0x0F)) == some (b &&& 0x0F)) = true :=
    ByteBits.forall_byte (by decide)
  simpa using hall b

theorem isHexDigit_hexDigit (b : UInt8) : isHexDigit (hexDigit (b &&& 0x0F)) = true := by
  rw [isHexDigit, parseHexDigit_hexDigit]
  rfl

theorem nibble_hexDigit (b : UInt8) : nibble (hexDigit (b &&& 0x0F)) = b &&& 0x0F := by
  rw [nibble, parseHexDigit_hexDigit]
  rfl

theorem shiftRight_and (b : UInt8) : (b >>> 4) &&& (0x0F : UInt8) = b >>> 4 := by
  have hall : ∀ b : UInt8, ((b >>> 4) &&& (0x0F : UInt8) == b >>> 4) = true :=
    ByteBits.forall_byte (by decide)
  simpa using hall b

theorem byte_of_digits (b : UInt8) : ((b >>> 4) <<< 4) ||| (b &&& 0x0F) = b := by
  have hall : ∀ b : UInt8, (((b >>> 4) <<< 4) ||| (b &&& 0x0F) == b) = true :=
    ByteBits.forall_byte (by decide)
  simpa using hall b

theorem digits_of_byte {high low : UInt8} (hhigh : high.toNat < 16) (hlow : low.toNat < 16) :
    (high <<< 4 ||| low) >>> 4 = high ∧ (high <<< 4 ||| low) &&& 0x0F = low := by
  have hall : ∀ h l : Fin 16, ((UInt8.ofNat h.1 <<< 4 ||| UInt8.ofNat l.1) >>> 4 = UInt8.ofNat h.1) ∧
      ((UInt8.ofNat h.1 <<< 4 ||| UInt8.ofNat l.1) &&& 0x0F = UInt8.ofNat l.1) := by
    decide
  have h := hall ⟨high.toNat, hhigh⟩ ⟨low.toNat, hlow⟩
  simpa only [UInt8.ofNat_toNat] using h

/-! ## Identifiers -/

/-- The identifier of three digits. -/
theorem toNat_identifier {high mid low : UInt8} (hhigh : high.toNat < 16) (hmid : mid.toNat < 16)
    (hlow : low.toNat < 16) :
    (high.toUInt16 <<< 8 ||| mid.toUInt16 <<< 4 ||| low.toUInt16).toNat =
      256 * high.toNat + 16 * mid.toNat + low.toNat := by
  have hfront : high.toNat <<< 8 ||| mid.toNat <<< 4 = 2 ^ 4 * (16 * high.toNat + mid.toNat) := by
    have hor := Nat.two_pow_add_eq_or_of_lt (i := 8) (b := 16 * mid.toNat) (by omega) high.toNat
    rw [Nat.shiftLeft_eq, Nat.shiftLeft_eq, Nat.mul_comm, Nat.mul_comm mid.toNat]
    change 2 ^ 8 * high.toNat ||| 16 * mid.toNat = _
    rw [← hor]
    omega
  have hor := Nat.two_pow_add_eq_or_of_lt (i := 4) hlow (16 * high.toNat + mid.toNat)
  simp only [UInt16.toNat_or, UInt16.toNat_shiftLeft, UInt8.toNat_toUInt16]
  change high.toNat <<< 8 % 2 ^ 16 ||| mid.toNat <<< 4 % 2 ^ 16 ||| low.toNat = _
  rw [Nat.mod_eq_of_lt (by rw [Nat.shiftLeft_eq]; omega), Nat.mod_eq_of_lt (by rw [Nat.shiftLeft_eq]; omega),
    hfront, ← hor]
  omega

theorem identifier_digits {id : UInt16} {high mid low : UInt8} (hhigh : high.toNat < 16)
    (hmid : mid.toNat < 16) (hlow : low.toNat < 16)
    (hid : id.toNat = 256 * high.toNat + 16 * mid.toNat + low.toNat) :
    (id >>> 8).toUInt8 &&& 0x0F = high ∧ (id >>> 4).toUInt8 &&& 0x0F = mid ∧
      id.toUInt8 &&& 0x0F = low := by
  have hmask (n : ℕ) : n &&& 0x0F = n % 16 := Nat.and_two_pow_sub_one_eq_mod n 4
  refine ⟨?_, ?_, ?_⟩ <;> apply UInt8.toNat_inj.mp <;>
    simp only [UInt8.toNat_and, UInt16.toNat_toUInt8, UInt16.toNat_shiftRight, UInt8.reduceToNat, hmask,
      Nat.shiftRight_eq_div_pow, hid] <;>
    simp <;> omega

/-! ## The grammar -/

def bytesOf : List UInt8 → List UInt8
  | high :: low :: digits => (nibble high <<< 4 ||| nibble low) :: bytesOf digits
  | _ => []

theorem bytesOf_concat (high low : UInt8) (n : ℕ) (digits : List UInt8) (h : digits.length = 2 * n) :
    bytesOf (digits ++ [high, low]) = bytesOf digits ++ [nibble high <<< 4 ||| nibble low] := by
  induction n generalizing digits with
  | zero =>
    rw [List.eq_nil_of_length_eq_zero h]
    rfl
  | succ n ih =>
    obtain _ | ⟨a, _ | ⟨b, digits⟩⟩ := digits
    · cases h
    · cases h
    · simp only [List.length_cons] at h
      rw [List.cons_append, List.cons_append, bytesOf, bytesOf, ih digits (by omega), List.cons_append]

theorem length_bytesOf (n : ℕ) (digits : List UInt8) (h : digits.length = 2 * n) :
    (bytesOf digits).length = n := by
  induction n generalizing digits with
  | zero =>
    rw [List.eq_nil_of_length_eq_zero h]
    rfl
  | succ n ih =>
    obtain _ | ⟨a, _ | ⟨b, digits⟩⟩ := digits
    · cases h
    · cases h
    · simp only [List.length_cons] at h
      rw [bytesOf, List.length_cons, ih digits (by omega)]

theorem bytesOf_written (data : List UInt8) :
    bytesOf (data.flatMap fun (b : UInt8) => [hexDigit (b >>> 4), hexDigit (b &&& 0x0F)]) = data := by
  induction data with
  | nil => rfl
  | cons b data ih =>
    rw [List.flatMap_cons, List.cons_append, List.cons_append, List.nil_append, bytesOf, ih,
      ← shiftRight_and, nibble_hexDigit, nibble_hexDigit, shiftRight_and, byte_of_digits]

/-- Writing the bytes of digits gives the digits in upper case. -/
theorem written_bytesOf (n : ℕ) (digits : List UInt8) (h : digits.length = 2 * n)
    (hdigits : ∀ b ∈ digits, isHexDigit b = true) :
    ((bytesOf digits).flatMap fun (b : UInt8) => [hexDigit (b >>> 4), hexDigit (b &&& 0x0F)]) =
      digits.map upperHex := by
  induction n generalizing digits with
  | zero =>
    rw [List.eq_nil_of_length_eq_zero h]
    rfl
  | succ n ih =>
    obtain _ | ⟨a, _ | ⟨b, digits⟩⟩ := digits
    · cases h
    · cases h
    · simp only [List.length_cons] at h
      have ha := hdigits a (by simp)
      have hb := hdigits b (by simp)
      obtain ⟨hhigh, hlow⟩ := digits_of_byte (nibble_lt ha) (nibble_lt hb)
      rw [bytesOf, List.flatMap_cons, ih digits (by omega) fun c hc => hdigits c (by simp [hc]), hhigh, hlow,
        hexDigit_nibble ha, hexDigit_nibble hb]
      rfl

/-- The data is read when all its characters are digits. -/
theorem parseData_append (n : ℕ) (front digits rest : List UInt8) (hfront : front.length = 5)
    (h : digits.length = 2 * n) :
    parseData (front ++ digits ++ rest) n =
      if digits.all isHexDigit then some (bytesOf digits) else none := by
  induction n generalizing digits rest with
  | zero =>
    rw [List.eq_nil_of_length_eq_zero h]
    rfl
  | succ n ih =>
    obtain ⟨digits, tail, rfl, htail⟩ : ∃ d t, digits = d ++ t ∧ d.length = 2 * n :=
      ⟨digits.take (2 * n), digits.drop (2 * n), (List.take_append_drop _ _).symm,
        by rw [List.length_take]; omega⟩
    obtain ⟨high, low, rfl⟩ : ∃ high low, tail = [high, low] := by
      rw [List.length_append] at h
      exact List.length_eq_two.mp (by omega)
    have hline : front ++ (digits ++ [high, low]) ++ rest = front ++ digits ++ ([high, low] ++ rest) := by
      simp only [List.append_assoc]
    have hhigh : (front ++ digits ++ ([high, low] ++ rest)).getD (5 + n * 2) 0 = high := by
      rw [List.getD_eq_getElem?_getD, List.getElem?_append_right (by rw [List.length_append]; omega),
        List.length_append, show 5 + n * 2 - (front.length + digits.length) = 0 by omega]
      rfl
    have hlow : (front ++ digits ++ ([high, low] ++ rest)).getD (6 + n * 2) 0 = low := by
      rw [List.getD_eq_getElem?_getD, List.getElem?_append_right (by rw [List.length_append]; omega),
        List.length_append, show 6 + n * 2 - (front.length + digits.length) = 1 by omega]
      rfl
    rw [hline, parseData, ih digits _ htail, hhigh, hlow]
    by_cases hall : ∀ b ∈ digits ++ [high, low], isHexDigit b = true
    · have hh := parseHexDigit_eq (hall high (by simp))
      have hl := parseHexDigit_eq (hall low (by simp))
      rw [if_pos (List.all_eq_true.mpr hall),
        if_pos (List.all_eq_true.mpr fun b hb => hall b (by simp [hb])), hh, hl,
        bytesOf_concat high low n digits htail]
      rfl
    · rw [if_neg (mt List.all_eq_true.mp hall)]
      by_cases hfirst : ∀ b ∈ digits, isHexDigit b = true
      · rw [if_pos (List.all_eq_true.mpr hfirst)]
        have hbad : isHexDigit high = false ∨ isHexDigit low = false := by
          by_contra hno
          rw [not_or, Bool.not_eq_false, Bool.not_eq_false] at hno
          refine hall fun b hb => ?_
          rcases List.mem_append.mp hb with hb | hb
          · exact hfirst b hb
          · rcases List.mem_pair.mp hb with rfl | rfl
            · exact hno.1
            · exact hno.2
        simp only [isHexDigit, Option.isSome_eq_false_iff, Option.isNone_iff_eq_none] at hbad
        rcases hbad with hbad | hbad
        · simp [hbad]
        · cases parseHexDigit high <;> simp [hbad]
      · rw [if_neg (mt List.all_eq_true.mp hfirst)]
        rfl

/-- A line without its terminator: three identifier digits, the length digit, two digits for
each data byte, and nothing or a timestamp of four digits. -/
structure SlcanLine where
  high : UInt8
  mid : UInt8
  low : UInt8
  dlc : UInt8
  payload : List UInt8
  timestamp : List UInt8
  digits : ∀ b ∈ [high, mid, low] ++ payload ++ timestamp, isHexDigit b = true
  id_le : hexValue [high, mid, low] ≤ 0x7FF
  dlc_ge : 0x30 ≤ dlc
  dlc_le : dlc ≤ 0x38
  payload_length : payload.length = 2 * (dlc - 0x30).toNat
  timestamp_length : timestamp = [] ∨ timestamp.length = 4

namespace SlcanLine

def body (l : SlcanLine) : List UInt8 := [0x74, l.high, l.mid, l.low, l.dlc] ++ l.payload

def text (l : SlcanLine) : List UInt8 := l.body ++ l.timestamp

variable (l : SlcanLine)

def id : UInt16 :=
  (nibble l.high).toUInt16 <<< 8 ||| (nibble l.mid).toUInt16 <<< 4 ||| (nibble l.low).toUInt16

theorem id_digits : (nibble l.high).toNat < 16 ∧ (nibble l.mid).toNat < 16 ∧ (nibble l.low).toNat < 16 :=
  ⟨nibble_lt (l.digits _ (by simp)), nibble_lt (l.digits _ (by simp)), nibble_lt (l.digits _ (by simp))⟩

theorem toNat_id :
    l.id.toNat = 256 * (nibble l.high).toNat + 16 * (nibble l.mid).toNat + (nibble l.low).toNat :=
  toNat_identifier l.id_digits.1 l.id_digits.2.1 l.id_digits.2.2

def frame : CanFrame where
  id := l.id
  data := bytesOf l.payload
  id_le := by
    have hle := l.id_le
    rw [UInt16.le_iff_toNat_le, toNat_id]
    simp only [hexValue, List.foldl_cons, List.foldl_nil] at hle
    simp only [UInt16.reduceToNat]
    omega
  length_le := by
    have hle := UInt8.le_iff_toNat_le.mp l.dlc_le
    have hge := UInt8.le_iff_toNat_le.mp l.dlc_ge
    rw [length_bytesOf _ _ l.payload_length, UInt8.toNat_sub_of_le _ _ l.dlc_ge]
    simp only [UInt8.reduceToNat] at hle hge ⊢
    omega

theorem not_mem_text : cr ∉ l.text := by
  intro hmem
  have hdlc : cr ≠ l.dlc := by
    rintro hcr
    have hge := l.dlc_ge
    rw [← hcr] at hge
    exact absurd hge (by decide)
  simp only [text, body, List.cons_append, List.nil_append, List.mem_cons, List.mem_append] at hmem
  have hdigit (b : UInt8) (hb : b ∈ [l.high, l.mid, l.low] ++ l.payload ++ l.timestamp) : cr ≠ b :=
    (ne_cr_of_isHexDigit (l.digits b hb)).symm
  rcases hmem with h | h | h | h | h | h | h
  · exact absurd h (by decide)
  · exact hdigit _ (by simp) h
  · exact hdigit _ (by simp) h
  · exact hdigit _ (by simp) h
  · exact hdlc h
  · exact hdigit cr (by simp [h]) rfl
  · exact hdigit cr (by simp [h]) rfl

end SlcanLine

/-! ## Parsing -/

def stripCr (line : List UInt8) : List UInt8 :=
  if line.getLast? = some cr then line.dropLast else line

theorem stripCr_of_not_mem {line : List UInt8} (h : cr ∉ line) : stripCr line = line :=
  if_neg fun hlast => h (List.mem_of_getLast? hlast)

theorem stripCr_concat (line : List UInt8) : stripCr (line ++ [cr]) = line := by
  rw [stripCr, if_pos List.getLast?_concat, List.dropLast_concat]

theorem eq_or_eq_concat_of_stripCr {line text : List UInt8} (h : stripCr line = text) :
    line = text ∨ line = text ++ [cr] := by
  rw [stripCr] at h
  split_ifs at h with hlast
  · right
    rw [← h]
    exact (List.dropLast_append_getLast? cr hlast).symm
  · exact .inl h

theorem parse_of_text (l : SlcanLine) {line : List UInt8} (h : stripCr line = l.text) :
    parseSlcanFrame line = some l.frame := by
  have hge := l.dlc_ge
  have hlen := l.payload_length
  have hdlc : ¬8 < (l.dlc - 0x30).toNat := by
    have hle := UInt8.le_iff_toNat_le.mp l.dlc_le
    rw [UInt8.toNat_sub_of_le _ _ l.dlc_ge]
    simp only [UInt8.reduceToNat] at hle ⊢
    omega
  have hsuffix : l.text.drop (5 + (l.dlc - 0x30).toNat * 2) = l.timestamp := by
    rw [SlcanLine.text, List.drop_left']
    rw [SlcanLine.body, List.length_append, hlen, Nat.mul_comm]
    rfl
  have htimestamp : ¬(l.timestamp ≠ [] ∧
      (l.timestamp.length ≠ 4 ∨ ¬l.timestamp.all fun b => (parseHexDigit b).isSome)) := by
    rintro ⟨hne, hbad⟩
    rcases hbad with hbad | hbad
    · exact hbad (l.timestamp_length.resolve_left hne)
    · exact hbad (List.all_eq_true.mpr fun b hb => l.digits b (by simp [hb]))
  have hdata : parseData l.text (l.dlc - 0x30).toNat = some (bytesOf l.payload) := by
    have hparse := parseData_append _ [0x74, l.high, l.mid, l.low, l.dlc] l.payload l.timestamp rfl hlen
    rw [if_pos (List.all_eq_true.mpr fun b hb => l.digits b (by simp [hb]))] at hparse
    exact hparse
  have hlong : ¬l.text.length < 5 + (l.dlc - 0x30).toNat * 2 := by
    rw [SlcanLine.text, SlcanLine.body, List.length_append, List.length_append, hlen]
    simp only [List.length_cons, List.length_nil]
    omega
  have hhigh := parseHexDigit_eq (l.digits l.high (by simp))
  have hmid := parseHexDigit_eq (l.digits l.mid (by simp))
  have hlow := parseHexDigit_eq (l.digits l.low (by simp))
  have hchars : l.text.head? = some 0x74 ∧ ¬l.text.length < 5 ∧ l.text.getD 1 0 = l.high ∧
      l.text.getD 2 0 = l.mid ∧ l.text.getD 3 0 = l.low ∧ l.text.getD 4 0 = l.dlc :=
    ⟨rfl, by omega, rfl, rfl, rfl, rfl⟩
  obtain ⟨hhead, hfive, h1, h2, h3, h4⟩ := hchars
  unfold parseSlcanFrame
  rw [← stripCr, h]
  dsimp only
  rw [if_neg (not_not.mpr hhead), if_neg hfive, h1, h2, h3, h4, hhigh, hmid, hlow, hsuffix, hdata]
  simp only [Option.bind_eq_bind, Option.bind_some]
  rw [if_neg (UInt8.not_lt.mpr hge), if_neg hdlc, if_neg hlong, if_neg htimestamp]
  exact CanFrame.new_eq_some l.frame.id_le l.frame.length_le

theorem nibble_of_parse {b n : UInt8} (h : parseHexDigit b = some n) : isHexDigit b = true ∧ nibble b = n := by
  rw [isHexDigit, nibble, h]
  exact ⟨rfl, rfl⟩

theorem timestamp_of_suffix {suffix : List UInt8}
    (h : ¬(suffix ≠ [] ∧ (suffix.length ≠ 4 ∨ ¬suffix.all fun b => (parseHexDigit b).isSome))) :
    (suffix = [] ∨ suffix.length = 4) ∧ ∀ b ∈ suffix, isHexDigit b = true := by
  by_cases hnil : suffix = []
  · rw [hnil]
    exact ⟨.inl rfl, by simp⟩
  · have hgood := not_and.mp h hnil
    rw [not_or, not_not, not_not] at hgood
    exact ⟨.inr hgood.1, List.all_eq_true.mp hgood.2⟩

theorem exists_chars {text : List UInt8} (hhead : text.head? = some 0x74) (hfive : ¬text.length < 5) :
    ∃ high mid low dlc tail, text = 0x74 :: high :: mid :: low :: dlc :: tail := by
  obtain _ | ⟨t, _ | ⟨high, _ | ⟨mid, _ | ⟨low, _ | ⟨dlc, tail⟩⟩⟩⟩⟩ := text
  all_goals simp only [List.length_nil, List.length_cons] at hfive
  all_goals first
    | exact absurd (by omega) hfive
    | cases hhead
  exact ⟨high, mid, low, dlc, tail, rfl⟩

/-- The payload that is read, and what stands behind it. -/
theorem payload_of_parseData {high mid low dlc : UInt8} {tail data : List UInt8} {n : ℕ}
    (hlong : ¬(0x74 :: high :: mid :: low :: dlc :: tail).length < 5 + n * 2)
    (hdata : parseData (0x74 :: high :: mid :: low :: dlc :: tail) n = some data) :
    ∃ payload rest, tail = payload ++ rest ∧ payload.length = 2 * n ∧
      (∀ b ∈ payload, isHexDigit b = true) ∧ bytesOf payload = data ∧
      (0x74 :: high :: mid :: low :: dlc :: tail).drop (5 + n * 2) = rest := by
  obtain ⟨payload, rest, rfl, hpayload⟩ : ∃ payload rest, tail = payload ++ rest ∧
      payload.length = 2 * n := by
    simp only [List.length_cons] at hlong
    exact ⟨tail.take (2 * n), tail.drop (2 * n), (List.take_append_drop _ _).symm,
      by rw [List.length_take]; omega⟩
  have hsplit : 0x74 :: high :: mid :: low :: dlc :: (payload ++ rest) =
      [0x74, high, mid, low, dlc] ++ payload ++ rest := rfl
  have hfront : ([0x74, high, mid, low, dlc] ++ payload).length = 5 + n * 2 := by
    rw [List.length_append, hpayload, Nat.mul_comm]
    rfl
  rw [hsplit, parseData_append n _ payload rest rfl hpayload] at hdata
  by_cases hpairs : ∀ b ∈ payload, isHexDigit b = true
  · rw [if_pos (List.all_eq_true.mpr hpairs)] at hdata
    refine ⟨payload, rest, rfl, hpayload, hpairs, Option.some.inj hdata, ?_⟩
    rw [hsplit]
    exact List.drop_left' hfront
  · rw [if_neg (mt List.all_eq_true.mp hpairs)] at hdata
    cases hdata

theorem hexValue_le_of_id {frame : CanFrame} {high mid low : UInt8} (hhigh : isHexDigit high = true)
    (hmid : isHexDigit mid = true) (hlow : isHexDigit low = true)
    (hid : frame.id = (nibble high).toUInt16 <<< 8 ||| (nibble mid).toUInt16 <<< 4 |||
      (nibble low).toUInt16) :
    hexValue [high, mid, low] ≤ 0x7FF := by
  have hle := UInt16.le_iff_toNat_le.mp frame.id_le
  rw [hid, toNat_identifier (nibble_lt hhigh) (nibble_lt hmid) (nibble_lt hlow)] at hle
  simp only [UInt16.reduceToNat] at hle
  simp only [hexValue, List.foldl_cons, List.foldl_nil]
  omega

/-- A line that parses is one of the grammar. -/
theorem text_of_parse {line : List UInt8} {frame : CanFrame} (h : parseSlcanFrame line = some frame) :
    ∃ l : SlcanLine, stripCr line = l.text ∧ l.frame = frame := by
  unfold parseSlcanFrame at h
  rw [← stripCr] at h
  dsimp only at h
  split at h
  · cases h
  rename_i hhead
  split at h
  · cases h
  rename_i hfive
  obtain ⟨high, mid, low, dlc, tail, htext⟩ := exists_chars (not_not.mp hhead) hfive
  rw [htext] at h ⊢
  simp only [List.getD_cons_succ, List.getD_cons_zero] at h
  obtain ⟨hv, hhigh, h⟩ := Option.bind_eq_some_iff.mp h
  obtain ⟨mv, hmid, h⟩ := Option.bind_eq_some_iff.mp h
  obtain ⟨lv, hlow, h⟩ := Option.bind_eq_some_iff.mp h
  split at h
  · cases h
  rename_i hge
  split at h
  · cases h
  rename_i hdlc
  split at h
  · cases h
  rename_i hlong
  split at h
  · cases h
  rename_i hsuffix
  obtain ⟨data, hdata, hnew⟩ := Option.bind_eq_some_iff.mp h
  obtain ⟨payload, rest, rfl, hpayload, hpairs, rfl, hrest⟩ := payload_of_parseData hlong hdata
  rw [hrest] at hsuffix
  obtain ⟨hlength, htimestamp⟩ := timestamp_of_suffix hsuffix
  obtain ⟨hidle, hdataid⟩ := CanFrame.id_of_new hnew
  have hhigh' := nibble_of_parse hhigh
  have hmid' := nibble_of_parse hmid
  have hlow' := nibble_of_parse hlow
  rw [← hhigh'.2, ← hmid'.2, ← hlow'.2] at hidle
  have hdigits : ∀ b ∈ [high, mid, low] ++ payload ++ rest, isHexDigit b = true := by
    intro b hb
    simp only [List.mem_append, List.mem_cons, List.not_mem_nil, or_false] at hb
    rcases hb with ((rfl | rfl | rfl) | hb) | hb
    · exact hhigh'.1
    · exact hmid'.1
    · exact hlow'.1
    · exact hpairs b hb
    · exact htimestamp b hb
  have hid := hexValue_le_of_id hhigh'.1 hmid'.1 hlow'.1 hidle
  have hle : dlc ≤ 0x38 := by
    rw [UInt8.toNat_sub_of_le _ _ (UInt8.not_lt.mp hge)] at hdlc
    rw [UInt8.le_iff_toNat_le]
    simp only [UInt8.reduceToNat] at hdlc ⊢
    omega
  refine ⟨⟨high, mid, low, dlc, payload, rest, hdigits, hid, UInt8.not_lt.mp hge, hle, hpayload, hlength⟩,
    rfl, ?_⟩
  rw [CanFrame.mk.injEq, hidle, hdataid]
  exact ⟨rfl, rfl⟩

/-! ## Round trip -/

theorem toNat_written_id (frame : CanFrame) :
    256 * ((frame.id >>> 8).toUInt8 &&& 0x0F).toNat + 16 * ((frame.id >>> 4).toUInt8 &&& 0x0F).toNat +
      (frame.id.toUInt8 &&& 0x0F).toNat = frame.id.toNat := by
  have hmask (n : ℕ) : n &&& 0x0F = n % 16 := Nat.and_two_pow_sub_one_eq_mod n 4
  have hle := UInt16.le_iff_toNat_le.mp frame.id_le
  simp only [UInt8.toNat_and, UInt16.toNat_toUInt8, UInt16.toNat_shiftRight, UInt8.reduceToNat, hmask,
    Nat.shiftRight_eq_div_pow, UInt16.reduceToNat] at hle ⊢
  simp
  omega

theorem toNat_written_dlc (frame : CanFrame) : (0x30 + UInt8.ofNat frame.rawDlc).toNat = 48 + frame.rawDlc := by
  have hle := frame.length_le
  rw [UInt8.toNat_add, UInt8.toNat_ofNat', CanFrame.rawDlc]
  simp only [UInt8.reduceToNat]
  omega

def SlcanLine.ofFrame (frame : CanFrame) (timestamp : List UInt8)
    (hdigits : ∀ b ∈ timestamp, isHexDigit b = true) (hlength : timestamp = [] ∨ timestamp.length = 4) :
    SlcanLine where
  high := hexDigit ((frame.id >>> 8).toUInt8 &&& 0x0F)
  mid := hexDigit ((frame.id >>> 4).toUInt8 &&& 0x0F)
  low := hexDigit (frame.id.toUInt8 &&& 0x0F)
  dlc := 0x30 + UInt8.ofNat frame.rawDlc
  payload := frame.data.flatMap fun (b : UInt8) => [hexDigit (b >>> 4), hexDigit (b &&& 0x0F)]
  timestamp := timestamp
  digits := by
    intro b hb
    simp only [List.mem_append, List.mem_cons, List.not_mem_nil, or_false, List.mem_flatMap] at hb
    rcases hb with ((rfl | rfl | rfl) | ⟨c, -, rfl | rfl⟩) | hb
    · exact isHexDigit_hexDigit _
    · exact isHexDigit_hexDigit _
    · exact isHexDigit_hexDigit _
    · rw [← shiftRight_and]
      exact isHexDigit_hexDigit _
    · exact isHexDigit_hexDigit _
    · exact hdigits b hb
  id_le := by
    have hle := UInt16.le_iff_toNat_le.mp frame.id_le
    rw [← toNat_written_id frame] at hle
    simp only [UInt16.reduceToNat] at hle
    simp only [hexValue, List.foldl_cons, List.foldl_nil, nibble_hexDigit]
    omega
  dlc_ge := by
    rw [UInt8.le_iff_toNat_le, toNat_written_dlc]
    simp only [UInt8.reduceToNat]
    omega
  dlc_le := by
    have hle := frame.length_le
    rw [UInt8.le_iff_toNat_le, toNat_written_dlc, CanFrame.rawDlc]
    simp only [UInt8.reduceToNat]
    omega
  payload_length := by
    have hle : (0x30 : UInt8) ≤ 0x30 + UInt8.ofNat frame.rawDlc := by
      rw [UInt8.le_iff_toNat_le, toNat_written_dlc]
      simp only [UInt8.reduceToNat]
      omega
    rw [UInt8.toNat_sub_of_le _ _ hle, toNat_written_dlc, List.length_flatMap, CanFrame.rawDlc]
    simp only [List.length_cons, List.length_nil, List.map_const', List.sum_replicate, smul_eq_mul,
      UInt8.reduceToNat]
    omega
  timestamp_length := hlength

theorem SlcanLine.frame_ofFrame (frame : CanFrame) (timestamp : List UInt8)
    (hdigits : ∀ b ∈ timestamp, isHexDigit b = true) (hlength : timestamp = [] ∨ timestamp.length = 4) :
    (SlcanLine.ofFrame frame timestamp hdigits hlength).frame = frame := by
  have hid : (SlcanLine.ofFrame frame timestamp hdigits hlength).id = frame.id := by
    rw [← UInt16.toNat_inj, SlcanLine.toNat_id]
    simp only [SlcanLine.ofFrame, nibble_hexDigit]
    exact toNat_written_id frame
  have hdata : (SlcanLine.ofFrame frame timestamp hdigits hlength).frame.data = frame.data :=
    bytesOf_written frame.data
  cases frame
  rw [CanFrame.mk.injEq]
  exact ⟨hid, hdata⟩

/-- A frame read from a line is written as the line without its timestamp, in upper case. -/
theorem SlcanLine.frameLine_frame (l : SlcanLine) : frameLine l.frame = l.body.map upperHex := by
  obtain ⟨hhigh, hmid, hlow⟩ :=
    identifier_digits l.id_digits.1 l.id_digits.2.1 l.id_digits.2.2 l.toNat_id
  have hdlc : 0x30 + UInt8.ofNat l.frame.rawDlc = upperHex l.dlc := by
    have hlen : l.frame.rawDlc = (l.dlc - 0x30).toNat := length_bytesOf _ _ l.payload_length
    have hle := UInt8.le_iff_toNat_le.mp l.dlc_le
    have hge := UInt8.le_iff_toNat_le.mp l.dlc_ge
    have hdigit : ¬(0x61 ≤ l.dlc ∧ l.dlc ≤ 0x66) := by
      rw [UInt8.le_iff_toNat_le]
      simp only [UInt8.reduceToNat] at hle ⊢
      omega
    rw [upperHex, if_neg hdigit, ← UInt8.toNat_inj, toNat_written_dlc, hlen,
      UInt8.toNat_sub_of_le _ _ l.dlc_ge]
    simp only [UInt8.reduceToNat] at hge ⊢
    omega
  have hpayload : (l.frame.data.flatMap fun (b : UInt8) => [hexDigit (b >>> 4), hexDigit (b &&& 0x0F)]) =
      l.payload.map upperHex :=
    written_bytesOf _ _ l.payload_length fun b hb => l.digits b (by simp [hb])
  rw [frameLine, body, List.map_append, hpayload, hdlc]
  simp only [frame, hhigh, hmid, hlow, hexDigit_nibble (l.digits l.high (by simp)),
    hexDigit_nibble (l.digits l.mid (by simp)), hexDigit_nibble (l.digits l.low (by simp))]
  rfl

theorem parse_eq_some_iff {line : List UInt8} {frame : CanFrame} :
    parseSlcanFrame line = some frame ↔
      ∃ l : SlcanLine, (line = l.text ∨ line = l.text ++ [cr]) ∧ l.frame = frame := by
  constructor
  · intro h
    obtain ⟨l, hstrip, hframe⟩ := text_of_parse h
    exact ⟨l, eq_or_eq_concat_of_stripCr hstrip, hframe⟩
  · rintro ⟨l, rfl | rfl, rfl⟩
    · exact parse_of_text l (stripCr_of_not_mem l.not_mem_text)
    · exact parse_of_text l (stripCr_concat _)

theorem length_frameLine (frame : CanFrame) : (frameLine frame).length = 5 + frame.data.length * 2 := by
  simp only [frameLine, List.length_append, List.length_cons, List.length_nil, List.length_flatMap,
    List.map_const', List.sum_replicate, smul_eq_mul]

theorem encodeSlcanFrame_eq (frame : CanFrame) {out : List UInt8}
    (h : 6 + frame.data.length * 2 ≤ out.length) :
    ∃ rest, encodeSlcanFrame frame out =
      some ((frameLine frame).length + 1, frameLine frame ++ [cr] ++ rest) := by
  refine ⟨out.drop (6 + frame.data.length * 2), ?_⟩
  rw [encodeSlcanFrame, if_neg (Nat.not_lt.mpr h), length_frameLine]
  congr 2
  omega

/-- What is written for a frame reads back as the frame, with or without terminator and timestamp;
the lines that are read are those of the grammar; and reading and writing a line gives it in upper
case. -/
theorem encode_parse (frame : CanFrame) (line : List UInt8) :
    (∀ out : List UInt8, 6 + frame.data.length * 2 ≤ out.length → ∃ rest,
      encodeSlcanFrame frame out =
        some ((frameLine frame).length + 1, frameLine frame ++ [cr] ++ rest)) ∧
    (∀ timestamp : List UInt8, (timestamp = [] ∨ timestamp.length = 4) →
      (∀ b ∈ timestamp, isHexDigit b = true) →
        parseSlcanFrame (frameLine frame ++ timestamp) = some frame ∧
          parseSlcanFrame (frameLine frame ++ timestamp ++ [cr]) = some frame) ∧
    (parseSlcanFrame line = some frame ↔
      ∃ l : SlcanLine, (line = l.text ∨ line = l.text ++ [cr]) ∧ l.frame = frame) ∧
    ∀ l : SlcanLine, (line = l.text ∨ line = l.text ++ [cr]) → l.frame = frame →
      frameLine frame = l.body.map upperHex := by
  refine ⟨fun out => encodeSlcanFrame_eq frame, fun timestamp hlength hdigits => ⟨?_, ?_⟩,
    parse_eq_some_iff, ?_⟩
  · exact parse_eq_some_iff.mpr ⟨.ofFrame frame timestamp hdigits hlength, .inl rfl,
      SlcanLine.frame_ofFrame frame timestamp hdigits hlength⟩
  · exact parse_eq_some_iff.mpr ⟨.ofFrame frame timestamp hdigits hlength, .inr rfl,
      SlcanLine.frame_ofFrame frame timestamp hdigits hlength⟩
  · rintro l - rfl
    exact l.frameLine_frame

def sampleFrame : CanFrame := .literal 0x201 [0x2A]

/-- A timestamp in either case is skipped, and the line written for the frame has none. -/
theorem encode_parse_timestamp :
    parseSlcanFrame (frameLine sampleFrame ++ [0x34, 0x64, 0x36, 0x37] ++ [cr]) = some sampleFrame ∧
      ∃ rest, encodeSlcanFrame sampleFrame (List.replicate 32 0) =
        some (8, [0x74, 0x32, 0x30, 0x31, 0x31, 0x32, 0x41, cr] ++ rest) := by
  obtain ⟨hencode, hparse, -, -⟩ := encode_parse sampleFrame []
  have hdigits : [0x34, 0x64, 0x36, 0x37].all isHexDigit = true := by decide
  exact ⟨(hparse _ (.inr rfl) (List.all_eq_true.mp hdigits)).2,
    hencode (List.replicate 32 0) (by decide)⟩

end Canopen.Slcan
