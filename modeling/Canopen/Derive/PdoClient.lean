import Mathlib.Data.Nat.Bitwise
import Canopen.Derive.GeneratedOd
import Canopen.Pdo.Codec

/-!
# Generated remote codecs

The typed PDO codecs that `pdo_client_codegen.rs` generates for the peer of a device: a
decoder for every mapped transmit PDO and an encoder for every mapped receive PDO. A field
of the payload struct is named after the object it maps, so here it is known by the address,
and its value is kept as its little-endian bytes. A 24-bit object has a 32-bit field.
-/

namespace Canopen.Derive

open Pdo ByteBits

/-! ## Generation -/

/-- Declared variables and record entries with their addresses. Arrays are not listed. -/
structure FlatEntry where
  index : UInt16
  subindex : UInt8
  var : VarDef
  deriving DecidableEq, Repr

def OdDefinition.flatten (d : OdDefinition) : List FlatEntry :=
  d.entries.flatMap fun e =>
    match e.kind with
    | .var v => [⟨e.index, 0, v⟩]
    | .record subs => subs.map fun s => ⟨e.index, s.1, s.2⟩
    | .array _ => []

/-- What the expansion of the macro reports. -/
inductive PdoCodecError
  | unknownAddress (index : UInt16) (subindex : UInt8)
  | unsupportedType (dataType : DataType)
  | tooWide (bitLength : ℕ) (index : UInt16) (subindex : UInt8) (dataType : DataType) (objectBits : ℕ)
  | mappedTwice (index : UInt16) (subindex : UInt8)
  | noCobId
  | extendedCobId
  | invalidCobId
  deriving DecidableEq, Repr

structure MappedField where
  index : UInt16
  subindex : UInt8
  dataType : DataType
  bitOffset : ℕ
  bitLength : ℕ
  deriving DecidableEq, Repr

def wireBits : DataType → Except PdoCodecError ℕ
  | .boolean | .u8 | .i8 => .ok 8
  | .u16 | .i16 => .ok 16
  | .u24 | .i24 => .ok 24
  | .u32 | .i32 | .real32 => .ok 32
  | .real64 => .ok 64
  | t => .error (.unsupportedType t)

/-- The payload fields with their places in the frame, collected in `fields`. -/
def mappedFields (flat : List FlatEntry) :
    List PdoMapping → ℕ → List MappedField → Except PdoCodecError (List MappedField)
  | [], _, fields => .ok fields
  | m :: ms, bitOffset, fields =>
    let bitLength := m.bitLength.toNat
    if isDummyMappingIndex m.index then mappedFields flat ms (bitOffset + bitLength) fields
    else
      match flat.find? fun e => e.index == m.index && e.subindex == m.subindex with
      | none => .error (.unknownAddress m.index m.subindex)
      | some e =>
        match wireBits e.var.dataType with
        | .error error => .error error
        | .ok objectBits =>
          if objectBits < bitLength then
            .error (.tooWide bitLength m.index m.subindex e.var.dataType objectBits)
          else if fields.any fun f => f.index == m.index && f.subindex == m.subindex then
            .error (.mappedTwice m.index m.subindex)
          else
            mappedFields flat ms (bitOffset + bitLength)
              (fields ++ [⟨m.index, m.subindex, e.var.dataType, bitOffset, bitLength⟩])

/-- The two flag bits of a COB-ID are not part of the identifier. -/
def maskCobIdFlags : CobIdSpec → CobIdSpec
  | .absolute raw => .absolute (raw &&& 0x3FFFFFFF)
  | .nodeRelative base => .nodeRelative (base &&& 0x3FFFFFFF)

/-- The declared COB-ID, or the one of the predefined connection set. -/
def PdoDef.effectiveCobIdSpec (p : PdoDef) : Option CobIdSpec :=
  match p.cobId with
  | some spec => some (maskCobIdFlags spec)
  | none =>
    if 1 ≤ p.number ∧ p.number ≤ 4 then
      some (.nodeRelative ((match p.direction with | .tpdo => 0x180 | .rpdo => 0x200) +
        (p.number.toUInt32 - 1) * 0x100))
    else none

/-- The COB-ID the codec of a node uses. -/
def PdoDef.cobIdExpr (p : PdoDef) (node : NodeId) : Except PdoCodecError UInt16 :=
  match p.effectiveCobIdSpec with
  | none => .error .noCobId
  | some (.absolute raw) =>
    if raw &&& 0x20000000 ≠ 0 then .error .extendedCobId
    else if raw ≤ 0x7FF then .ok raw.toUInt16
    else .error .invalidCobId
  | some (.nodeRelative base) =>
    if base &&& 0x20000000 ≠ 0 then .error .extendedCobId
    else if base + 127 ≤ 0x7FF then .ok (base.toUInt16 + node.raw.toUInt16)
    else .error .invalidCobId

/-- A codec: `decode_tpdoN` or `rpdoN`, by the direction of its PDO. -/
structure PdoCodec where
  cobId : UInt16
  fields : List MappedField
  payloadBytes : ℕ
  deriving DecidableEq, Repr

def generatePdo (d : OdDefinition) (p : PdoDef) (node : NodeId) : Except PdoCodecError PdoCodec :=
  let mappings := p.mappings.map PdoMapping.fromMappingValue
  match mappedFields d.flatten mappings 0 [] with
  | .error error => .error error
  | .ok fields =>
    match p.cobIdExpr node with
    | .error error => .error error
    | .ok cobId => .ok ⟨cobId, fields, bytesForBits (mappings.map (·.bitLength.toNat)).sum⟩

/-- Bit 31 of the declared value. -/
def PdoDef.isDisabled (p : PdoDef) : Bool :=
  match p.cobId with
  | some (.absolute raw) | some (.nodeRelative raw) => raw &&& 0x80000000 != 0
  | none => false

/-- The PDOs with a payload. A disabled one may be enabled later and keeps its codec. -/
def OdDefinition.mappedPdos (d : OdDefinition) : List PdoDef :=
  d.pdos.filter fun p => !p.mappings.isEmpty

/-- The PDOs that are active at power-up: only their frames are dispatched. -/
def OdDefinition.dispatchPdos (d : OdDefinition) : List PdoDef :=
  d.mappedPdos.filter fun p => !p.isDisabled

inductive ClientError
  | sameCobId
  | codec (error : PdoCodecError)
  deriving DecidableEq, Repr

def generateCodecs (d : OdDefinition) (node : NodeId) :
    List PdoDef → Except ClientError (List (PdoDef × PdoCodec))
  | [] => .ok []
  | p :: ps =>
    match generatePdo d p node with
    | .error error => .error (.codec error)
    | .ok c => (generateCodecs d node ps).map ((p, c) :: ·)

/-- The codecs of a definition, each with its PDO. No two dispatched PDOs may have the same
COB-ID. -/
def generateParts (d : OdDefinition) (node : NodeId) :
    Except ClientError (List (PdoDef × PdoCodec)) :=
  if (d.dispatchPdos.map (·.effectiveCobIdSpec)).Nodup then generateCodecs d node d.mappedPdos
  else .error .sameCobId

/-! ## Payloads -/

def rustSize : DataType → ℕ
  | .boolean | .u8 | .i8 => 1
  | .u16 | .i16 => 2
  | .u24 | .i24 | .u32 | .i32 | .real32 => 4
  | .real64 => 8
  | _ => 0

/-- The bytes are those of a value of the field's type. -/
def MappedField.Holds (f : MappedField) (value : List UInt8) : Prop :=
  value.length = rustSize f.dataType ∧ (f.dataType = .boolean → value = [0] ∨ value = [1])

/-- A payload struct: the value of every field. -/
abbrev Payload := MappedField → List UInt8

/-- Read a field out of a frame. -/
def decodeField (data : List UInt8) (f : MappedField) : List UInt8 :=
  let objectData :=
    copyPdoBits data f.bitOffset (List.replicate (rustSize f.dataType) 0) 0 f.bitLength
  match f.dataType with
  | .boolean => [if objectData.getD 0 0 != 0 then 1 else 0]
  | .i8 | .i16 | .i32 => signExtendPdoBits objectData f.bitLength
  | .i24 =>
    let extended := signExtendPdoBits objectData (min f.bitLength 24)
    if extended.getD 2 0 &&& 0x80 != 0 then extended.set 3 0xFF else extended
  | _ => objectData

def encodeField (data : List UInt8) (f : MappedField) (value : List UInt8) : List UInt8 :=
  copyPdoBits value 0 data f.bitOffset f.bitLength

inductive PdoDecodeError
  | wrongCobId (expected actual : UInt16)
  | payloadTooShort (expected actual : ℕ)
  | ambiguousCobId (cobId : UInt16)
  deriving DecidableEq, Repr

def PdoCodec.decodeTpdo (c : PdoCodec) (frame : CanFrame) : Except PdoDecodeError Payload :=
  if frame.id ≠ c.cobId then .error (.wrongCobId c.cobId frame.id)
  else if frame.data.length < c.payloadBytes then
    .error (.payloadTooShort c.payloadBytes frame.data.length)
  else .ok (decodeField frame.data)

/-- `none` is the panic on a definition that yields no valid frame. -/
def PdoCodec.encodeRpdo (c : PdoCodec) (payload : Payload) : Option CanFrame :=
  let data := c.fields.foldl (fun data f => encodeField data f (payload f)) (List.replicate 8 0)
  CanFrame.new c.cobId (data.take c.payloadBytes)

/-- The number in the field named after the object an entry maps. -/
def PdoCodec.number (c : PdoCodec) (payload : Payload) (m : PdoMapping) : Option ℤ :=
  (c.fields.find? fun f => f.index == m.index && f.subindex == m.subindex).map fun f =>
    intValue f.dataType (payload f)

/-! ## Fields and their places -/

/-- The fields a mapping list yields from a bit offset on. -/
inductive Placed (flat : List FlatEntry) : List PdoMapping → ℕ → List MappedField → Prop
  | nil (off : ℕ) : Placed flat [] off []
  | dummy {m : PdoMapping} {ms : List PdoMapping} {off : ℕ} {fields : List MappedField}
      (hdummy : isDummyMappingIndex m.index = true)
      (hrest : Placed flat ms (off + m.bitLength.toNat) fields) : Placed flat (m :: ms) off fields
  | field {m : PdoMapping} {ms : List PdoMapping} {off : ℕ} {fields : List MappedField}
      {e : FlatEntry} {bits : ℕ} (hdummy : isDummyMappingIndex m.index = false)
      (he : flat.find? (fun e => e.index == m.index && e.subindex == m.subindex) = some e)
      (hbits : wireBits e.var.dataType = .ok bits) (hle : m.bitLength.toNat ≤ bits)
      (hrest : Placed flat ms (off + m.bitLength.toNat) fields) :
      Placed flat (m :: ms) off
        (⟨m.index, m.subindex, e.var.dataType, off, m.bitLength.toNat⟩ :: fields)

/-- A successful collection places the fields, each name once. -/
theorem mappedFields_placed {flat : List FlatEntry} {ms : List PdoMapping} {off : ℕ}
    {fields fields' : List MappedField} (h : mappedFields flat ms off fields = .ok fields') :
    ∃ new, fields' = fields ++ new ∧ Placed flat ms off new ∧
      ((fields.map fun f => (f.index, f.subindex)).Nodup →
        (fields'.map fun f => (f.index, f.subindex)).Nodup) := by
  induction ms generalizing off fields with
  | nil =>
    cases h
    exact ⟨[], (List.append_nil _).symm, .nil off, id⟩
  | cons m ms ih =>
    unfold mappedFields at h
    dsimp only at h
    by_cases hdummy : isDummyMappingIndex m.index = true
    · rw [if_pos hdummy] at h
      obtain ⟨new, hnew, hplaced, hnodup⟩ := ih h
      exact ⟨new, hnew, .dummy hdummy hplaced, hnodup⟩
    rw [if_neg hdummy] at h
    split at h
    · cases h
    rename_i e he
    split at h
    · cases h
    rename_i bits hbits
    split at h
    · cases h
    rename_i hle
    split at h
    · cases h
    rename_i hfresh
    obtain ⟨new, hnew, hplaced, hnodup⟩ := ih h
    refine ⟨_ :: new, ?_, .field (Bool.eq_false_iff.mpr hdummy) he hbits (by omega) hplaced, ?_⟩
    · rw [hnew, List.append_assoc, List.singleton_append]
    · intro hold
      apply hnodup
      rw [List.map_append, List.nodup_append]
      refine ⟨hold, by simp, ?_⟩
      intro a ha b hb hab
      obtain ⟨f, hf, rfl⟩ := List.mem_map.mp ha
      simp only [List.map_cons, List.map_nil, List.mem_singleton] at hb
      rw [hb] at hab
      apply hfresh
      rw [List.any_eq_true]
      refine ⟨f, hf, ?_⟩
      simp only [Bool.and_eq_true, beq_iff_eq]
      exact ⟨(Prod.mk.inj hab).1, (Prod.mk.inj hab).2⟩

/-- What the codec relies on: its fields are placed by the mapping list, each name once, and
its COB-ID is a valid one. -/
theorem generatePdo_ok {d : OdDefinition} {p : PdoDef} {node : NodeId} {c : PdoCodec}
    (h : generatePdo d p node = .ok c) :
    Placed d.flatten (p.mappings.map PdoMapping.fromMappingValue) 0 c.fields ∧
      (c.fields.map fun f => (f.index, f.subindex)).Nodup ∧
      p.cobIdExpr node = .ok c.cobId ∧
      c.payloadBytes = bytesForBits
        ((p.mappings.map PdoMapping.fromMappingValue).map (·.bitLength.toNat)).sum := by
  unfold generatePdo at h
  dsimp only at h
  split at h
  · cases h
  rename_i fields hfields
  split at h
  · cases h
  rename_i cobId hcob
  cases h
  obtain ⟨new, hnew, hplaced, hnodup⟩ := mappedFields_placed hfields
  rw [List.nil_append] at hnew
  subst hnew
  exact ⟨hplaced, hnodup List.nodup_nil, hcob, rfl⟩

theorem generateCodecs_ok {d : OdDefinition} {node : NodeId} {ps : List PdoDef}
    {codecs : List (PdoDef × PdoCodec)} (h : generateCodecs d node ps = .ok codecs) {p : PdoDef}
    {c : PdoCodec} (hc : (p, c) ∈ codecs) : generatePdo d p node = .ok c := by
  induction ps generalizing codecs with
  | nil =>
    cases h
    cases hc
  | cons q ps ih =>
    unfold generateCodecs at h
    split at h
    · cases h
    · rename_i c' hgen
      cases hrest : generateCodecs d node ps with
      | error error =>
        rw [hrest] at h
        cases h
      | ok rest =>
        rw [hrest] at h
        cases h
        rcases List.mem_cons.mp hc with heq | hmem
        · cases heq
          exact hgen
        · exact ih hrest hmem

theorem generateParts_cobId {d : OdDefinition} {node : NodeId} {codecs : List (PdoDef × PdoCodec)}
    (h : generateParts d node = .ok codecs) {p : PdoDef} {c : PdoCodec} (hc : (p, c) ∈ codecs) :
    p.cobIdExpr node = .ok c.cobId := by
  unfold generateParts at h
  split_ifs at h
  exact (generatePdo_ok (generateCodecs_ok h hc)).2.2.1

/-- An identifier has at most 30 bits, so adding a node id does not overflow. -/
theorem effectiveCobIdSpec_lt {p : PdoDef} {base : UInt32}
    (h : p.effectiveCobIdSpec = some (.nodeRelative base)) : base.toNat < 2 ^ 30 := by
  unfold PdoDef.effectiveCobIdSpec at h
  split at h
  · rename_i spec _
    cases spec with
    | absolute raw => cases h
    | nodeRelative raw =>
      cases h
      rw [UInt32.toNat_and]
      exact Nat.and_le_right.trans_lt (by decide)
  · split_ifs at h with hnumber
    cases h
    have hle := UInt16.le_iff_toNat_le.mp hnumber.2
    have hpos := UInt16.le_iff_toNat_le.mp hnumber.1
    obtain hn | hn | hn | hn : p.number = 1 ∨ p.number = 2 ∨ p.number = 3 ∨ p.number = 4 := by
      simp only [← UInt16.toNat_inj]
      simp at hle hpos ⊢
      omega
    all_goals
      rw [hn]
      cases p.direction <;> decide

theorem cobIdExpr_le {p : PdoDef} {node : NodeId} {cobId : UInt16}
    (h : p.cobIdExpr node = .ok cobId) : cobId ≤ 0x7FF := by
  have hnode := CobId.toNat_raw node
  unfold PdoDef.cobIdExpr at h
  split at h
  · cases h
  · split_ifs at h with hext hle
    cases h
    rw [UInt32.le_iff_toNat_le] at hle
    rw [UInt16.le_iff_toNat_le, UInt32.toNat_toUInt16]
    exact (Nat.mod_le _ _).trans hle
  · rename_i base hspec
    split_ifs at h with hext hle
    cases h
    have hlt := effectiveCobIdSpec_lt hspec
    rw [UInt32.le_iff_toNat_le, UInt32.toNat_add] at hle
    rw [UInt16.le_iff_toNat_le, UInt16.toNat_add, UInt32.toNat_toUInt16, UInt8.toNat_toUInt16]
    simp at hle ⊢
    omega

/-! ## Decoding -/

/-- The supported types other than the floating-point ones are as wide as their object, or
have a wider field. -/
theorem wireBits_le {t : DataType} {bits : ℕ} (h : wireBits t = .ok bits) :
    bits ≤ 8 * rustSize t ∧ ∃ size, t.size = some size ∧ bits = 8 * size := by
  cases t <;> cases h <;> exact ⟨by decide, _, rfl, rfl⟩

theorem bitAt_set_top {v : List UInt8} (hlen : v.length = 4) (htop : ∀ i, 24 ≤ i → i < 32 → bitAt v i = true)
    (i : ℕ) : bitAt (v.set 3 0xFF) i = bitAt v i := by
  by_cases hi : 24 ≤ i ∧ i < 32
  · rw [htop i hi.1 hi.2]
    have hdiv : i / 8 = 3 := by omega
    have hbit : ∀ k < 8, (0xFF : UInt8).toNat.testBit k = true := by decide
    unfold bitAt
    rw [hdiv, List.getD_eq_getElem?_getD, List.getElem?_set_self (by omega)]
    exact hbit _ (Nat.mod_lt _ (by decide))
  · have hdiv : 3 ≠ i / 8 := by omega
    unfold bitAt
    rw [List.getD_eq_getElem?_getD, List.getD_eq_getElem?_getD, List.getElem?_set_ne hdiv]

theorem testBit_seven {b : UInt8} (h : (b &&& 0x80 != 0) = true) : b.toNat.testBit 7 = true := by
  rw [bne_iff_ne, ne_eq, ← UInt8.toNat_inj, UInt8.toNat_and] at h
  have hand : b.toNat &&& 2 ^ 7 = (b.toNat.testBit 7).toNat * 2 ^ 7 := Nat.and_two_pow b.toNat 7
  cases hb : b.toNat.testBit 7 with
  | true => rfl
  | false =>
    rw [hb] at hand
    exact absurd hand h

/-- The 24-bit special case: after the sign extension the top byte is right already. -/
theorem intValue_i24 {v : List UInt8} {n : ℕ} (hlen : v.length = 4) (hn : n + 1 ≤ 24)
    (hzero : ∀ i, n + 1 ≤ i → bitAt v i = false) :
    let extended := signExtendPdoBits v (n + 1)
    let forced := if extended.getD 2 0 &&& 0x80 != 0 then extended.set 3 0xFF else extended
    forced.length = 4 ∧ intValue .i24 forced = intValue .i24 extended := by
  obtain ⟨hsize, hbits⟩ := signExtendPdoBits_spec (by omega) hzero
  dsimp only
  by_cases htop : (signExtendPdoBits v (n + 1)).getD 2 0 &&& 0x80 != 0
  · rw [if_pos htop]
    have hsign : bitAt (signExtendPdoBits v (n + 1)) 23 = true := testBit_seven htop
    have hset : ∀ i, bitAt ((signExtendPdoBits v (n + 1)).set 3 0xFF) i =
        bitAt (signExtendPdoBits v (n + 1)) i := by
      refine bitAt_set_top (hsize.trans hlen) fun i hle hlt => ?_
      have hlast : bitAt v n = true := by
        rw [hbits 23 (by omega)] at hsign
        split_ifs at hsign with hin
        · have : n = 23 := by omega
          rw [this]
          exact hsign
        · exact hsign
      rw [hbits i (by omega), if_neg (by omega), hlast]
    refine ⟨by rw [List.length_set, hsize, hlen], ?_⟩
    unfold intValue
    rw [List.length_set, leNat_eq_of_bitAt hset]
  · rw [if_neg htop]
    exact ⟨hsize.trans hlen, rfl⟩

/-- A decoded field is the number received. -/
theorem decodeField_spec {data : List UInt8} {f : MappedField} {bits : ℕ}
    (hbits : wireBits f.dataType = .ok bits) (hle : f.bitLength ≤ bits) (hpos : 1 ≤ f.bitLength)
    (hfit : f.bitOffset + f.bitLength ≤ 8 * data.length)
    (hbool : f.dataType = .boolean → field data f.bitOffset f.bitLength ≤ 1) :
    f.Holds (decodeField data f) ∧ intValue f.dataType (decodeField data f) =
      narrow f.dataType f.bitLength (field data f.bitOffset f.bitLength) := by
  have hwire := (wireBits_le hbits).1
  have hcopied := @bitAt_copy_cleared data f.bitOffset f.bitLength (rustSize f.dataType) (by omega) hfit
  obtain ⟨hlen, -⟩ := @copyPdoBits_spec data (List.replicate (rustSize f.dataType) 0) f.bitOffset 0
    f.bitLength hfit (by rw [List.length_replicate]; omega)
  rw [List.length_replicate] at hlen
  unfold decodeField MappedField.Holds
  dsimp only
  generalize copyPdoBits data f.bitOffset (List.replicate (rustSize f.dataType) 0) 0 f.bitLength = v
    at hcopied hlen
  have hwide := intValue_widened f.dataType hpos (by rw [hlen]; omega) hcopied
  obtain ⟨n, hn⟩ : ∃ n, f.bitLength = n + 1 := ⟨f.bitLength - 1, by omega⟩
  have hzero : ∀ i, n + 1 ≤ i → bitAt v i = false := by
    intro i hi
    rw [hcopied i, decide_eq_false (by omega), Bool.false_and]
  have hextended : (signExtendPdoBits v f.bitLength).length = v.length := by
    rw [hn]
    exact (signExtendPdoBits_spec (by rw [hlen]; omega) hzero).1
  by_cases hb : f.dataType = .boolean
  · -- one byte, and the number in it is 0 or 1
    rw [hb] at hlen hwide
    obtain ⟨b, rfl⟩ := List.length_eq_one_iff.mp hlen
    have hvalue : leNat [b] = field data f.bitOffset f.bitLength :=
      leNat_of_bits (field_lt _ _ _) fun i => by
        rw [hcopied i, testBit_field, ← Bool.and_assoc, Bool.and_self]
    have hone := hbool hb
    rw [← hvalue] at hone
    have hcases : b = 0 ∨ b = 1 := by
      simp only [leNat, Nat.mul_zero, Nat.add_zero] at hone
      rw [← UInt8.toNat_inj, ← UInt8.toNat_inj]
      simp only [UInt8.toNat_zero, UInt8.toNat_one]
      omega
    simp only [hb]
    rcases hcases with rfl | rfl
    · exact ⟨⟨rfl, fun _ => .inl rfl⟩, hwide⟩
    · exact ⟨⟨rfl, fun _ => .inr rfl⟩, hwide⟩
  by_cases hi : f.dataType = .i24
  · rw [hi] at hlen hwide hbits
    cases hbits
    obtain ⟨hsize, hvalue⟩ := intValue_i24 hlen (by omega) hzero
    rw [← hn] at hvalue hsize
    simp only [hi, Nat.min_eq_left hle]
    exact ⟨⟨hsize, by simp⟩, hvalue.trans hwide⟩
  · have hplain : (match f.dataType with
        | .boolean => [if v.getD 0 0 != 0 then 1 else 0]
        | .i8 | .i16 | .i32 => signExtendPdoBits v f.bitLength
        | .i24 =>
          let extended := signExtendPdoBits v (min f.bitLength 24)
          if extended.getD 2 0 &&& 0x80 != 0 then extended.set 3 0xFF else extended
        | _ => v) = if isSignedInteger f.dataType then signExtendPdoBits v f.bitLength else v := by
      cases ht : f.dataType <;> simp_all [isSignedInteger, wireBits]
    rw [hplain]
    refine ⟨⟨?_, fun h => absurd h hb⟩, hwide⟩
    split_ifs
    · rw [hextended, hlen]
    · exact hlen

/-- The entry is padding, or names a declared object of the item's type. A boolean item is
0 or 1. -/
def Declared (flat : List FlatEntry) (item : PdoItem) (m : PdoMapping) : Prop :=
  item.bits = m.bitLength.toNat ∧
    match item.value with
    | none => isDummyMappingIndex m.index = true
    | some (t, x) => isDummyMappingIndex m.index = false ∧ 1 ≤ item.bits ∧ (t = .boolean → x ≤ 1) ∧
        ∃ e, flat.find? (fun e => e.index == m.index && e.subindex == m.subindex) = some e ∧
          e.var.dataType = t

def NamedAfter (fields : List MappedField) (m : PdoMapping) (f : MappedField) : Prop :=
  f ∈ fields ∧ f.index = m.index ∧ f.subindex = m.subindex

theorem NamedAfter.cons {fields : List MappedField} {m : PdoMapping} {f g : MappedField}
    (h : NamedAfter fields m f) : NamedAfter (g :: fields) m f :=
  ⟨List.mem_cons_of_mem g h.1, h.2⟩

/-- The decoder yields the numbers the frame carries. -/
theorem decode_spec {flat : List FlatEntry} {ms : List PdoMapping} {off : ℕ}
    {fields : List MappedField} (h : Placed flat ms off fields) {items : List PdoItem}
    (hitems : List.Forall₂ (Declared flat) items ms) {data : List UInt8}
    (hcarries : Carries data items off) (hfit : off + itemBits items ≤ 8 * data.length) :
    (∀ f ∈ fields, f.Holds (decodeField data f)) ∧
      List.Forall₂ (fun item m => ∀ t x, item.value = some (t, x) →
        ∃ f, NamedAfter fields m f ∧ intValue f.dataType (decodeField data f) =
          narrow t item.bits (x % 2 ^ item.bits : ℕ)) items ms := by
  induction h generalizing items with
  | nil off =>
    cases hitems
    exact ⟨by simp, .nil⟩
  | @dummy m ms off fields hdummy hrest ih =>
    obtain ⟨⟩ | ⟨hm, hms⟩ := hitems
    rename_i item items
    rw [itemBits_cons] at hfit
    have hnone : item.value = none := by
      cases hvalue : item.value with
      | none => rfl
      | some value =>
        have hm := hm.2
        rw [hvalue] at hm
        rw [hdummy] at hm
        cases hm.1
    rw [← hm.1] at ih
    obtain ⟨hholds, hrest'⟩ := ih hms hcarries.2 (by omega)
    refine ⟨hholds, .cons ?_ hrest'⟩
    intro t x hx
    cases hnone.symm.trans hx
  | @field m ms off fields e bits hdummy he hbits hle hrest ih =>
    obtain ⟨⟩ | ⟨hm, hms⟩ := hitems
    rename_i item items
    rw [itemBits_cons] at hfit
    obtain ⟨hn, hm⟩ := hm
    cases hvalue : item.value with
    | none =>
      rw [hvalue, hdummy] at hm
      cases hm
    | some value =>
      obtain ⟨t, x⟩ := value
      rw [hvalue] at hm
      obtain ⟨-, hpos, hbool, e', he', ht⟩ := hm
      cases he.symm.trans he'
      obtain ⟨hfields, htail⟩ := hcarries
      have hfield := hfields t x hvalue
      rw [hn] at hfield hpos hfit htail
      obtain ⟨hhead, hnumber⟩ :=
        @decodeField_spec data ⟨m.index, m.subindex, e.var.dataType, off, m.bitLength.toNat⟩ bits
          hbits hle hpos (by dsimp only; omega) (by
            intro hb
            rw [hfield]
            exact (Nat.mod_le _ _).trans (hbool (ht.symm.trans hb)))
      obtain ⟨hholds, hrest'⟩ := ih hms htail (by omega)
      refine ⟨?_, .cons ?_ (hrest'.imp fun item m hm t x hx => ?_)⟩
      · intro f hf
        rcases List.mem_cons.mp hf with rfl | hf
        · exact hhead
        · exact hholds f hf
      · intro t' x' hx
        cases hvalue.symm.trans hx
        refine ⟨_, ⟨List.mem_cons_self, rfl, rfl⟩, ?_⟩
        rw [hnumber, hfield, hn, ht]
      · obtain ⟨f, hf, hvalue⟩ := hm t x hx
        exact ⟨f, hf.cons, hvalue⟩

/-! ## Encoding -/

/-- The item an entry contributes to an encoded frame. -/
def Filled (flat : List FlatEntry) (fields : List MappedField) (payload : Payload) (item : PdoItem)
    (m : PdoMapping) : Prop :=
  item.bits = m.bitLength.toNat ∧
    match item.value with
    | none => isDummyMappingIndex m.index = true
    | some (t, x) => isDummyMappingIndex m.index = false ∧
        (∃ e, flat.find? (fun e => e.index == m.index && e.subindex == m.subindex) = some e ∧
          e.var.dataType = t) ∧
        ∃ f, NamedAfter fields m f ∧ f.dataType = t ∧ item.bits ≤ 8 * rustSize t ∧
          x = leNat (payload f)

theorem Filled.cons {flat : List FlatEntry} {fields : List MappedField} {payload : Payload}
    {item : PdoItem} {m : PdoMapping} {g : MappedField} (h : Filled flat fields payload item m) :
    Filled flat (g :: fields) payload item m := by
  refine ⟨h.1, ?_⟩
  have hvalue := h.2
  cases hv : item.value with
  | none =>
    rw [hv] at hvalue
    exact hvalue
  | some value =>
    rw [hv] at hvalue
    obtain ⟨hdummy, he, f, hf, hrest⟩ := hvalue
    exact ⟨hdummy, he, f, hf.cons, hrest⟩

theorem encode_spec {flat : List FlatEntry} {ms : List PdoMapping} {off : ℕ}
    {fields : List MappedField} (h : Placed flat ms off fields) {payload : Payload}
    (hholds : ∀ f ∈ fields, f.Holds (payload f)) {data : List UInt8} (hlen : data.length = 8)
    (hfit : off + (ms.map (·.bitLength.toNat)).sum ≤ 64) :
    let data' := fields.foldl (fun data f => encodeField data f (payload f)) data
    ∃ items, List.Forall₂ (Filled flat fields payload) items ms ∧
      itemBits items = (ms.map (·.bitLength.toNat)).sum ∧
      data'.length = 8 ∧ Carries data' items off ∧ ∀ i < off, bitAt data' i = bitAt data i := by
  induction h generalizing data with
  | nil off => exact ⟨[], .nil, rfl, hlen, trivial, fun _ _ => rfl⟩
  | @dummy m ms off fields hdummy hrest ih =>
    rw [List.map_cons, List.sum_cons] at hfit ⊢
    obtain ⟨items, hitems, hsum, hlen', hcarries, hbits⟩ := ih hholds hlen (by omega)
    refine ⟨⟨m.bitLength.toNat, none⟩ :: items, .cons ⟨rfl, hdummy⟩ hitems, ?_, hlen', ⟨?_, hcarries⟩, ?_⟩
    · rw [itemBits_cons, hsum]
    · intro t x hx
      cases hx
    · exact fun i hi => hbits i (by omega)
  | @field m ms off fields e bits hdummy he hbits hle hrest ih =>
    rw [List.map_cons, List.sum_cons] at hfit ⊢
    have hwire := (wireBits_le hbits).1
    let f : MappedField := ⟨m.index, m.subindex, e.var.dataType, off, m.bitLength.toNat⟩
    have hf : f.Holds (payload f) := hholds f List.mem_cons_self
    have hsize : (payload f).length = rustSize e.var.dataType := hf.1
    let item : PdoItem := ⟨m.bitLength.toNat, some (e.var.dataType, leNat (payload f))⟩
    have hsrc : item.bits ≤ 8 * (payload f).length := by
      rw [hsize]
      exact hle.trans hwire
    have hdst : off + item.bits ≤ 8 * data.length := by
      change off + m.bitLength.toNat ≤ 8 * data.length
      omega
    obtain ⟨hcopy, -⟩ := @copyPdoBits_spec (payload f) data 0 off item.bits (by omega) hdst
    obtain ⟨items, hitems, hsum, hlen', hcarries, hkept⟩ :=
      ih (fun g hg => hholds g (List.mem_cons_of_mem _ hg)) (hcopy.trans hlen) (by omega)
    have hcarried := @carries_copy (payload f) data _ item items off e.var.dataType
      (leNat (payload f)) rfl hsrc hdst (field_zero _ _) hcarries hkept
    refine ⟨item :: items, .cons ⟨rfl, hdummy, ⟨e, he, rfl⟩, f, ⟨List.mem_cons_self, rfl, rfl⟩, rfl,
      hle.trans hwire, rfl⟩ (hitems.imp fun _ _ h => h.cons), ?_, hlen', hcarried⟩
    rw [itemBits_cons, hsum]

/-- A name picks out one field. -/
theorem number_of_named {c : PdoCodec} {payload : Payload} {m : PdoMapping} {f : MappedField}
    (hnodup : (c.fields.map fun f => (f.index, f.subindex)).Nodup) (hf : NamedAfter c.fields m f) :
    c.number payload m = some (intValue f.dataType (payload f)) := by
  obtain ⟨hmem, hindex, hsub⟩ := hf
  unfold PdoCodec.number
  cases hfind : c.fields.find? fun f => f.index == m.index && f.subindex == m.subindex with
  | none =>
    have hno := List.find?_eq_none.mp hfind f hmem
    simp [hindex, hsub] at hno
  | some g =>
    have hg := List.find?_some hfind
    simp only [Bool.and_eq_true, beq_iff_eq] at hg
    have hsame : g = f := List.inj_on_of_nodup_map hnodup (List.mem_of_find?_eq_some hfind) hmem
      (Prod.ext (hg.1.trans hindex.symm) (hg.2.trans hsub.symm))
    rw [hsame]
    rfl

end Canopen.Derive
