import Canopen.Eds.Import

/-!
# EDS export

The writer of the generated EDS (`eds_export.rs`). A default is a Rust expression; the text
of a default is the text of a literal or the value of a constant expression. The file is a
list of sections, each a header, its properties and an empty line.
-/

namespace Canopen.Eds

open Derive (CobIdSpec PdoDirection SdoServerDef)
open Pdo Text

/-! ## Expressions -/

inductive Radix
  | decimal
  | hexadecimal
  | octal
  | binary
  deriving DecidableEq, Repr

def Radix.base : Radix → ℕ
  | .decimal => 10
  | .hexadecimal => 16
  | .octal => 8
  | .binary => 2

/-- How a literal of the radix begins. -/
def Radix.mark : Radix → List Char
  | .decimal => []
  | .hexadecimal => "0x".toList
  | .octal => "0o".toList
  | .binary => "0b".toList

def removeUnderscores (l : List Char) : List Char := l.filter (· != '_')

/-- An integer literal: digits, which underscores may separate, and a type suffix. -/
structure LitInt where
  radix : Radix
  digitsText : List Char
  suffix : List Char
  value : ℕ
  valid : digits radix.base (removeUnderscores digitsText) = some value
  deriving DecidableEq

/-- The spelling of a literal. -/
def LitInt.text (l : LitInt) : List Char := l.radix.mark ++ l.digitsText ++ l.suffix

theorem removeUnderscores_digits {base n : ℕ} {l : List Char} (h : digits base l = some n) :
    removeUnderscores l = l := by
  apply List.filter_eq_self.mpr
  intro c hc
  rw [bne_iff_ne]
  rintro rfl
  have hvalue := charValue_of_digits h '_' hc
  revert hvalue
  decide

def decimalLit (n : ℕ) : LitInt where
  radix := .decimal
  digitsText := decimal n
  suffix := []
  value := n
  valid := by
    rw [removeUnderscores_digits (digits_decimal n)]
    exact digits_decimal n

inductive Lit
  | str (value : List Char)
  | bool (b : Bool)
  /-- The digits of a float, without its suffix. -/
  | float (digits : List Char)
  | int (l : LitInt)
  | byte (b : UInt8)
  | other
  deriving DecidableEq

inductive UnOp
  | neg
  | not
  | other
  deriving DecidableEq, Repr

inductive BinOp
  | add
  | sub
  | mul
  | div
  | rem
  | bitOr
  | bitAnd
  | bitXor
  | shl
  | shr
  | other
  deriving DecidableEq, Repr

/-- A Rust expression, as far as the writer looks into it. -/
inductive Expr
  | lit (l : Lit)
  | paren (e : Expr)
  | group (e : Expr)
  | cast (e : Expr)
  | unary (op : UnOp) (e : Expr)
  | binary (left : Expr) (op : BinOp) (right : Expr)
  | other
  deriving DecidableEq

/-- What the writer uses of the language: the expression of a source text, and the text of the
64-bit float with the given sign and digits. -/
structure Syn where
  parseExpr : List Char → Expr
  floatText : Bool → List Char → Option (List Char)

/-- The expression of a default. -/
def Literal.expr (syn : Syn) : Literal → Expr
  | .int z =>
    if z < 0 then .unary .neg (.lit (.int (decimalLit z.natAbs))) else .lit (.int (decimalLit z.natAbs))
  | .bool b => .lit (.bool b)
  | .source text => syn.parseExpr text

/-- A number of the evaluator has 128 bits. -/
def fits128 (z : ℤ) : Option ℤ := if -2 ^ 127 ≤ z ∧ z < 2 ^ 127 then some z else none

def bits128 (op : BitVec 128 → BitVec 128 → BitVec 128) (l r : ℤ) : ℤ :=
  (op (BitVec.ofInt 128 l) (BitVec.ofInt 128 r)).toInt

def evalBinary (l : ℤ) (op : BinOp) (r : ℤ) : Option ℤ :=
  match op with
  | .add => fits128 (l + r)
  | .sub => fits128 (l - r)
  | .mul => fits128 (l * r)
  | .div => if r = 0 then none else fits128 (l.tdiv r)
  | .rem => if r = 0 then none else (fits128 (l.tdiv r)).map fun _ => l.tmod r
  | .bitOr => some (bits128 (· ||| ·) l r)
  | .bitAnd => some (bits128 (· &&& ·) l r)
  | .bitXor => some (bits128 (· ^^^ ·) l r)
  | .shl => if 0 ≤ r ∧ r < 128 then some (bits128 (fun a _ => a <<< r.toNat) l r) else none
  | .shr => if 0 ≤ r ∧ r < 128 then some (bits128 (fun a _ => a.sshiftRight r.toNat) l r) else none
  | .other => none

/-- `eval_int`: the value of a constant integer expression. Overflow gives none, but for the
negation, which is unchecked: it wraps, and a macro built with overflow checks stops. -/
def evalInt : Expr → Option ℤ
  | .lit (.int l) => fits128 l.value
  | .lit (.bool b) => some (if b then 1 else 0)
  | .lit (.byte b) => some b.toNat
  | .lit _ => none
  | .paren e => evalInt e
  | .group e => evalInt e
  | .cast e => evalInt e
  | .unary .neg e => (evalInt e).map fun v => (-v).bmod (2 ^ 128)
  | .unary .not e => (evalInt e).map fun v => -v - 1
  | .unary .other _ => none
  | .binary left op right => (evalInt left).bind fun l => (evalInt right).bind fun r => evalBinary l op r
  | .other => none

/-- `eval_float`: the sign and the digits of a constant float. -/
def evalFloat : Expr → Option (Bool × List Char)
  | .lit (.float digits) => some (false, digits)
  | .lit (.int l) => some (false, decimal l.value)
  | .paren e => evalFloat e
  | .unary .neg e => (evalFloat e).map fun v => (!v.1, v.2)
  | _ => none

/-! ## Defaults -/

/-- `l` without the repeated `pat` at its front. -/
def stripRepeated (pat : List Char) : ℕ → List Char → List Char
  | 0, l => l
  | n + 1, l =>
    match stripPrefix pat l with
    | some rest => stripRepeated pat n rest
    | none => l

def trimEndMatches (pat l : List Char) : List Char :=
  if pat.isEmpty then l else (stripRepeated pat.reverse l.length l.reverse).reverse

/-- Negative values in decimal, others in hexadecimal; an expression without a value has no
text. -/
def valueText : Option ℤ → List Char
  | none => []
  | some v => if v < 0 then '-' :: decimal v.natAbs else "0x".toList ++ hex v.natAbs

/-- Decimal and hexadecimal literals keep their spelling. -/
def intText (e : Expr) : List Char :=
  match e with
  | .lit (.int l) =>
    let text := removeUnderscores (trimEndMatches l.suffix l.text)
    if "0b".toList.isPrefixOf text || "0o".toList.isPrefixOf text then valueText (evalInt e) else text
  | _ => valueText (evalInt e)

/-- `eds_default`: the `DefaultValue` of a variable. -/
def edsDefault (syn : Syn) (v : VarDef) : List Char :=
  match v.defaultValue.map (Literal.expr syn) with
  | none => []
  | some (.lit (.str s)) => s
  | some (.lit (.bool b)) => if b then ['1'] else ['0']
  | some (.lit (.float digits)) => digits
  | some e =>
    if v.typeName = .real32 ∨ v.typeName = .real64 then
      ((evalFloat e).bind fun f => syn.floatText f.1 f.2).getD []
    else intText e

/-! ## Definitions -/

structure OdDefinition where
  name : List Char
  entries : List OdEntry
  pdos : List PdoDef
  sdoServers : List SdoServerDef
  useAlloc : Bool
  deriving DecidableEq, Repr

def PdoDef.resolved (p : PdoDef) (mappings : List ResolvedMapping) : Derive.PdoDef :=
  ⟨p.direction, p.number, p.cobId, p.transmissionType, p.inhibitTime, p.eventTimer, p.isMutable,
    mappings.map (·.raw)⟩

def resolvePdo (flat : List FlatEntry) (p : PdoDef) : Option Derive.PdoDef :=
  (resolvePdoMappings flat p).toOption.map p.resolved

/-- The resolved PDOs, `none` when the generator gives up on one. -/
def OdDefinition.resolvedPdos (d : OdDefinition) : Option (List Derive.PdoDef) :=
  d.pdos.mapM (resolvePdo (flatten d.entries))

/-! ## Objects -/

def typeToEdsCode : DataType → ℕ
  | .boolean => 0x0001
  | .i8 => 0x0002
  | .i16 => 0x0003
  | .i32 => 0x0004
  | .u8 => 0x0005
  | .u16 => 0x0006
  | .u32 => 0x0007
  | .i24 => 0x0010
  | .u24 => 0x0016
  | .real32 => 0x0008
  | .real64 => 0x0011
  | .visibleString => 0x0009
  | .octetString => 0x000A
  | .domain => 0x000F
  | .i64 => 0x0015
  | .u64 => 0x001B

def accessToEds : AccessType → List Char
  | .ro => "ro".toList
  | .const => "const".toList
  | .rw => "rw".toList
  | .wo => "wo".toList

structure FlatEdsEntry where
  index : UInt16
  subindex : UInt8
  name : List Char
  typeName : DataType
  defaultValue : List Char
  access : AccessType
  pdoMappable : Bool
  deriving DecidableEq, Repr

def VarDef.flatEds (syn : Syn) (index : UInt16) (subindex : UInt8) (name : List Char) (v : VarDef) :
    FlatEdsEntry :=
  ⟨index, subindex, name, v.typeName, edsDefault syn v, v.access, v.pdoMappable⟩

/-- The elements of an array are numbered from 1. -/
def ArrayDef.flatEds (index : UInt16) (name : List Char) (a : ArrayDef) : List FlatEdsEntry :=
  (List.range a.count).map fun i =>
    ⟨index, UInt8.ofNat (i + 1), name ++ '_' :: decimal (i + 1), a.elementType,
      if a.elementCapacity.isSome then [] else ['0'], a.access, a.pdoMappable⟩

def OdEntry.flatEds (syn : Syn) (e : OdEntry) : List FlatEdsEntry :=
  match e.kind with
  | .var v => [v.flatEds syn e.index 0 e.name]
  | .record subs => subs.map fun s => s.var.flatEds syn e.index s.subindex s.name
  | .array a => a.flatEds e.index e.name

def flattenForEds (syn : Syn) (entries : List OdEntry) : List FlatEdsEntry :=
  entries.flatMap (OdEntry.flatEds syn)

def objectProps (name : List Char) (code : ℕ) (access default : List Char) (pdoMappable : Bool) : Props :=
  [("ParameterName".toList, name), ("ObjectType".toList, "0x7".toList),
    ("DataType".toList, "0x".toList ++ pad 4 (hex code)), ("AccessType".toList, access),
    ("DefaultValue".toList, default), ("PDOMapping".toList, if pdoMappable then ['1'] else ['0'])]

def FlatEdsEntry.props (f : FlatEdsEntry) : Props :=
  objectProps f.name (typeToEdsCode f.typeName) (accessToEds f.access) f.defaultValue f.pdoMappable

/-- The properties of the first object with the address; the writer only looks for addresses
that are there. -/
def flatProps (flat : List FlatEdsEntry) (index : UInt16) (subindex : UInt8) : Props :=
  ((flat.find? fun f => f.index == index && f.subindex == subindex).map (·.props)).getD []

/-- The main section of a record or an array. -/
def headerProps (name objectType : List Char) (subNumber : ℕ) : Props :=
  [("ParameterName".toList, name), ("ObjectType".toList, objectType),
    ("SubNumber".toList, decimal subNumber)]

def countProps (count : ℕ) : Props :=
  objectProps "Number of Entries".toList 0x0005 "ro".toList (decimal count) false

def elementText (index : UInt16) (n : ℕ) : List Char := indexText index ++ "sub".toList ++ hex n

def OdEntry.edsSections (flat : List FlatEdsEntry) (e : OdEntry) : List Section :=
  match e.kind with
  | .var _ => [⟨indexText e.index, flatProps flat e.index 0⟩]
  | .record subs =>
    ⟨indexText e.index, headerProps e.name "0x9".toList (subs.length + 1)⟩ ::
      ⟨subText e.index 0, countProps ((subs.map SubEntry.subindex).foldl max 0).toNat⟩ ::
        subs.map fun s => ⟨subText e.index s.subindex, flatProps flat e.index s.subindex⟩
  | .array a =>
    ⟨indexText e.index, headerProps e.name "0x8".toList (a.count + 1)⟩ ::
      ⟨subText e.index 0, countProps a.count⟩ ::
        (List.range a.count).map fun i =>
          ⟨elementText e.index (i + 1), flatProps flat e.index (UInt8.ofNat (i + 1))⟩

/-! ## PDOs and SDO servers -/

/-- `write_pdo_sub`: an object of a generated record. -/
def generatedSub (index : UInt16) (sub : UInt8) (name : List Char) (code : ℕ)
    (access default : List Char) : Section :=
  ⟨subText index sub, objectProps name code access default false⟩

def hexText (n : ℕ) : List Char := "0x".toList ++ hex n

def directionName : PdoDirection → List Char
  | .tpdo => "TPDO".toList
  | .rpdo => "RPDO".toList

/-- The communication record. Receive PDOs have no inhibit time. -/
def commSections (p : Derive.PdoDef) (cobId : List Char) : List Section :=
  let name := directionName p.direction ++ decimal p.number.toNat ++ " Communication".toList
  [⟨indexText p.commIdx, headerProps name "0x9".toList (if p.direction = .tpdo then 5 else 4)⟩,
    generatedSub p.commIdx 0 "Number of Entries".toList 0x0005 "ro".toList ['5'],
    generatedSub p.commIdx 1 "COB-ID".toList 0x0007 "rw".toList cobId,
    generatedSub p.commIdx 2 "Transmission Type".toList 0x0005 "rw".toList
      (hexText p.transmissionType.toNat)] ++
  (if p.direction = .tpdo then
    [generatedSub p.commIdx 3 "Inhibit Time".toList 0x0006 "rw".toList (hexText p.inhibitTime.toNat)]
  else []) ++
  [generatedSub p.commIdx 5 "Event Timer".toList 0x0006 "rw".toList (hexText p.eventTimer.toNat)]

/-- The exported mapping entries: all slots of a mutable mapping, else the declared ones. -/
def mappingSlots (p : Derive.PdoDef) : UInt8 :=
  if p.isMutable then 64 else UInt8.ofNat p.mappings.length

def mapAccessText (p : Derive.PdoDef) : List Char := if p.isMutable then "rw".toList else "const".toList

def mappingCountProps (p : Derive.PdoDef) : Props :=
  objectProps "Number of Mapped Objects".toList 0x0005 (mapAccessText p) (hexText p.mappings.length) false ++
    if p.isMutable then
      [("LowLimit".toList, ['0']), ("HighLimit".toList, decimal (mappingSlots p).toNat)]
    else []

def mappingText (v : UInt32) : List Char := "0x".toList ++ pad 8 (hex v.toNat)

def mapSections (p : Derive.PdoDef) : List Section :=
  let name := directionName p.direction ++ decimal p.number.toNat ++ " Mapping".toList
  ⟨indexText p.mapIdx, headerProps name "0x9".toList ((mappingSlots p).toNat + 1)⟩ ::
    ⟨subText p.mapIdx 0, mappingCountProps p⟩ ::
      (List.range (mappingSlots p).toNat).map fun i =>
        generatedSub p.mapIdx (UInt8.ofNat (i + 1)) ("Mapping Entry ".toList ++ decimal (i + 1)) 0x0007
          (mapAccessText p) (mappingText (p.mappings.getD i 0))

/-- `write_pdo_eds`; an assertion fails when the PDO has no COB-ID. -/
def pdoSections (p : Derive.PdoDef) : Option (List Section) :=
  (pdoCobIdDefault p).map fun cobId => commSections p cobId ++ mapSections p

def cobIdSpecEds : CobIdSpec → List Char
  | .absolute id => hexText id.toNat
  | .nodeRelative base => "$NODEID+0x".toList ++ hex base.toNat

def sdoServerSections (s : SdoServerDef) : List Section :=
  [⟨indexText s.idx, headerProps "SDO Server Parameter".toList "0x9".toList 3⟩,
    generatedSub s.idx 0 "Highest sub-index supported".toList 0x0005 "ro".toList ['2'],
    generatedSub s.idx 1 "COB-ID Client to Server (Receive SDO)".toList 0x0007 "ro".toList
      (cobIdSpecEds s.cobRx),
    generatedSub s.idx 2 "COB-ID Server to Client (Transmit SDO)".toList 0x0007 "ro".toList
      (cobIdSpecEds s.cobTx)]

/-- The two objects that describe the device. The content of 0x1021 is the file itself. -/
def selfDescription : List Section :=
  [⟨"1021".toList, [("ParameterName".toList, "Store EDS".toList), ("ObjectType".toList, "0x7".toList),
      ("DataType".toList, "0x000F".toList), ("AccessType".toList, "ro".toList),
      ("PDOMapping".toList, ['0'])]⟩,
    ⟨"1022".toList, objectProps "Store Format".toList 0x0005 "ro".toList "0x80".toList false⟩]

/-! ## Files -/

def fileInfo (d : OdDefinition) : Section :=
  ⟨"FileInfo".toList, [("FileName".toList, d.name ++ ".eds".toList), ("FileVersion".toList, ['1']),
    ("CreatedBy".toList, "canopen-rs (object_dictionary! macro)".toList)]⟩

def baudRates : List (List Char) :=
  ["10".toList, "20".toList, "50".toList, "125".toList, "250".toList, "500".toList, "800".toList,
    "1000".toList]

/-- The identity numbers are the defaults of 0x1018. -/
def identity (flat : List FlatEdsEntry) (sub : UInt8) : List Char :=
  ((flat.find? fun f => f.index == 0x1018 && f.subindex == sub).map (·.defaultValue)).getD []

def deviceInfo (d : OdDefinition) (flat : List FlatEdsEntry) : Section :=
  ⟨"DeviceInfo".toList,
    [("VendorName".toList, []), ("VendorNumber".toList, identity flat 1),
      ("ProductName".toList, d.name), ("ProductNumber".toList, identity flat 2),
      ("RevisionNumber".toList, identity flat 3)] ++
    baudRates.map (fun rate => ("BaudRate_".toList ++ rate, ['1'])) ++
    [("SimpleBootUpMaster".toList, ['0']), ("SimpleBootUpSlave".toList, ['1']),
      ("Granularity".toList, ['1']), ("DynamicChannelsSupported".toList, ['0']),
      ("GroupMessaging".toList, ['0']),
      ("NrOfRXPDO".toList, decimal (d.pdos.countP (·.direction == .rpdo))),
      ("NrOfTXPDO".toList, decimal (d.pdos.countP (·.direction == .tpdo))),
      ("LSS_Supported".toList, ['1'])]⟩

def sortedIndices (l : List UInt16) : List UInt16 := (l.insertionSort (· ≤ ·)).dedup

def indexList (name : List Char) (indices : List UInt16) : Section :=
  ⟨name, ("SupportedObjects".toList, decimal indices.length) ::
    indices.mapIdx fun i index => (decimal (i + 1), "0x".toList ++ indexText index)⟩

def isMandatory (index : UInt16) : Bool := index == 0x1000 || index == 0x1001 || index == 0x1018

def PdoDef.indices (p : PdoDef) : List UInt16 :=
  [p.direction.commBase + (p.number - 1), p.direction.mapBase + (p.number - 1)]

def indexSections (d : OdDefinition) : List Section :=
  let user := sortedIndices (d.entries.map (·.index))
  let optional := sortedIndices (user.filter (fun i => i < 0x2000 && !isMandatory i) ++
    sortedIndices (d.pdos.flatMap PdoDef.indices) ++ sortedIndices (d.sdoServers.map (·.idx)) ++
    [0x1021, 0x1022])
  let standardised := user.filter fun i => 0x6000 ≤ i
  [indexList "MandatoryObjects".toList (user.filter isMandatory),
    indexList "OptionalObjects".toList optional,
    indexList "ManufacturerObjects".toList (user.filter fun i => 0x2000 ≤ i && i < 0x6000)] ++
  if standardised.isEmpty then [] else [indexList "StandardizedObjects".toList standardised]

/-- The sections of the generated EDS, `none` when the writer panics. -/
def edsSections (syn : Syn) (d : OdDefinition) : Option (List Section) :=
  let flat := flattenForEds syn d.entries
  (d.resolvedPdos.bind fun pdos => (pdos.mapM pdoSections).map List.flatten).map fun pdos =>
    [fileInfo d, deviceInfo d flat] ++ indexSections d ++ d.entries.flatMap (OdEntry.edsSections flat) ++
      pdos ++ d.sdoServers.flatMap sdoServerSections ++ selfDescription

def Section.text (s : Section) : List (List Char) :=
  ('[' :: s.name ++ [']']) :: s.props.map (fun p => p.1 ++ '=' :: p.2) ++ [[]]

/-- `generate_eds`. -/
def generateEds (syn : Syn) (d : OdDefinition) : Option (List Char) :=
  (edsSections syn d).map fun sections => unlines (sections.flatMap Section.text)

/-! ## Acceptance -/

def OdDefinition.generatedIndices (d : OdDefinition) : List UInt16 :=
  [0x1021, 0x1022] ++ d.pdos.flatMap PdoDef.indices ++ d.sdoServers.map (·.idx)

/-- Whether a PDO can carry a field of the access. -/
def carries (direction : PdoDirection) (access : AccessType) : Bool :=
  match direction with
  | .rpdo => !(access == .ro || access == .const)
  | .tpdo => access != .wo

/-- `OdDefinition::validate`: one owner for each address, no remote transmission types, and
mapped fields that are accessible in the direction of their PDO. -/
def OdDefinition.validate (d : OdDefinition) : Bool :=
  (d.entries.map (·.index)).Nodup &&
    d.entries.all (fun e =>
      match e.kind with
      | .record subs => subs.all (·.subindex != 0) && (subs.map (·.subindex)).Nodup
      | _ => true) &&
    d.entries.all (fun e => !d.generatedIndices.contains e.index) &&
    d.pdos.all (fun p => p.transmissionType != 252 && p.transmissionType != 253) &&
    d.pdos.all fun p => p.mappings.all fun m =>
      m.rawMapping.isSome || (findVarAccess d.entries m.fieldName).all (carries p.direction)

/-- The COB-IDs of the SDO servers, the default server first. -/
def OdDefinition.sdoSlots (d : OdDefinition) : List CobIdSpec :=
  [.nodeRelative 0x600, .nodeRelative 0x580] ++ d.sdoServers.flatMap fun s => [s.cobRx, s.cobTx]

/-- A variable-length value has a capacity unless it is allocated dynamically. -/
def VarDef.sized (useAlloc : Bool) (v : VarDef) : Bool :=
  v.typeName.size.isSome || useAlloc || v.capacity.isSome

def OdEntry.sized (useAlloc : Bool) (e : OdEntry) : Bool :=
  match e.kind with
  | .var v => v.sized useAlloc
  | .record subs => subs.all (·.var.sized useAlloc)
  | .array a => a.elementType.size.isSome

def OdEntry.names (e : OdEntry) : List (List Char) :=
  match e.kind with
  | .record subs => e.name :: subs.map (·.name)
  | _ => [e.name]

/-- The names in a definition. They are identifiers, which have no white space. -/
def OdDefinition.names (d : OdDefinition) : List (List Char) := d.name :: d.entries.flatMap OdEntry.names

def isName (l : List Char) : Bool := !l.isEmpty && l.all fun c => !isWhite c

/-- What the parsers of the macro and of EDS files promise: names, numbers in range, at most 64
mapping entries. -/
def OdDefinition.parsed (d : OdDefinition) : Bool :=
  d.names.all isName &&
    d.pdos.all (fun p => 1 ≤ p.number && p.number ≤ 512 && p.mappings.length ≤ pdoMaxMappings) &&
    d.sdoServers.all fun s => 2 ≤ s.number && s.number ≤ 128

/-- The generator does not give up: numbers are declared once, the COB-IDs of the SDO servers
differ, values have a size, and the EDS can be written. -/
def OdDefinition.generates (syn : Syn) (d : OdDefinition) : Bool :=
  (generateEds syn d).isSome && (d.pdos.map fun p => (p.direction, p.number)).Nodup &&
    (d.sdoServers.map (·.number)).Nodup && d.sdoSlots.Nodup && d.entries.all (·.sized d.useAlloc)

def OdDefinition.accepted (syn : Syn) (d : OdDefinition) : Bool :=
  d.parsed && d.validate && d.generates syn

end Canopen.Eds
