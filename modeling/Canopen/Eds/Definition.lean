import Canopen.Derive.GeneratedOd
import Canopen.Eds.Values

/-!
# Definitions with names

The definition of an object dictionary between its source and the generator (`dsl.rs`):
entries have names, and a PDO mapping names the entry it carries. The generator looks the
names up in a flat list (`codegen.rs`).
-/

namespace Canopen.Eds

open Derive (CobIdSpec PdoDirection SdoServerDef)
open Pdo Text

structure VarDef where
  typeName : DataType
  /-- Capacity of a variable-length value. -/
  capacity : Option ℕ
  defaultValue : Option Literal
  access : AccessType
  pdoMappable : Bool
  deriving DecidableEq, Repr

structure SubEntry where
  subindex : UInt8
  name : List Char
  var : VarDef
  deriving DecidableEq, Repr

structure ArrayDef where
  elementType : DataType
  elementCapacity : Option ℕ
  count : ℕ
  access : AccessType
  pdoMappable : Bool
  deriving DecidableEq, Repr

inductive EntryKind
  | var (v : VarDef)
  | record (subs : List SubEntry)
  | array (a : ArrayDef)
  deriving DecidableEq, Repr

structure OdEntry where
  index : UInt16
  name : List Char
  kind : EntryKind
  deriving DecidableEq, Repr

/-- A mapped field. The importer keeps the bit length of the mapping entry, and the whole
entry when it is padding. -/
structure PdoMappingDef where
  fieldName : List Char
  bitLength : Option UInt8
  rawMapping : Option UInt32
  deriving DecidableEq, Repr

structure PdoDef where
  direction : PdoDirection
  number : UInt16
  cobId : Option CobIdSpec
  transmissionType : UInt8
  inhibitTime : UInt16
  eventTimer : UInt16
  /-- Whether a master may remap the PDO. -/
  isMutable : Bool
  mappings : List PdoMappingDef
  deriving DecidableEq, Repr

/-! ## Resolution -/

structure FlatEntry where
  index : UInt16
  subindex : UInt8
  fieldName : List Char
  var : VarDef
  deriving DecidableEq, Repr

def OdEntry.flatten (e : OdEntry) : List FlatEntry :=
  match e.kind with
  | .var v => [⟨e.index, 0, e.name, v⟩]
  | .record subs => subs.map fun s => ⟨e.index, s.subindex, s.name, s.var⟩
  | .array _ => []

/-- Variables and record entries. Arrays are handled apart. -/
def flatten (entries : List OdEntry) : List FlatEntry := entries.flatMap OdEntry.flatten

structure ResolvedMapping where
  index : UInt16
  subindex : UInt8
  bitLength : UInt8
  deriving DecidableEq, Repr

def ResolvedMapping.raw (m : ResolvedMapping) : UInt32 :=
  m.index.toUInt32 <<< 16 ||| m.subindex.toUInt32 <<< 8 ||| m.bitLength.toUInt32

/-- Why the generator gives up on a PDO. -/
inductive ResolveError
  | unknownField (name : List Char)
  | notMappable (name : List Char) (index : UInt16) (subindex : UInt8)
  | variableLength (name : List Char) (typeName : DataType)
  | tooManyBits (bits : ℕ)
  deriving DecidableEq, Repr

/-- The bits a field takes when its mapping does not say. -/
def defaultBits (t : DataType) : UInt8 :=
  if t = .boolean then 1 else UInt8.ofNat (t.size.getD 0) * 8

def resolveField (flat : List FlatEntry) (m : PdoMappingDef) : Except ResolveError ResolvedMapping :=
  match m.rawMapping with
  | some raw => .ok ⟨(raw >>> 16).toUInt16, (raw >>> 8).toUInt8, raw.toUInt8⟩
  | none =>
    match flat.find? (·.fieldName == m.fieldName) with
    | none => .error (.unknownField m.fieldName)
    | some e =>
      if !e.var.pdoMappable then .error (.notMappable m.fieldName e.index e.subindex)
      else if e.var.typeName.size.isNone then .error (.variableLength m.fieldName e.var.typeName)
      else .ok ⟨e.index, e.subindex, m.bitLength.getD (defaultBits e.var.typeName)⟩

def resolveFields (flat : List FlatEntry) :
    List PdoMappingDef → Except ResolveError (List ResolvedMapping)
  | [] => .ok []
  | m :: ms =>
    match resolveField flat m with
    | .error e => .error e
    | .ok r => (resolveFields flat ms).map (r :: ·)

/-- `resolve_pdo_mappings`: the addresses the names of a PDO stand for. -/
def resolvePdoMappings (flat : List FlatEntry) (p : PdoDef) :
    Except ResolveError (List ResolvedMapping) :=
  match resolveFields flat p.mappings with
  | .error e => .error e
  | .ok resolved =>
    let totalBits := (resolved.map (·.bitLength.toNat)).sum
    if pdoMaxPayloadBits < totalBits then .error (.tooManyBits totalBits) else .ok resolved

/-- The access of the first field of a name. -/
def findVarAccess (entries : List OdEntry) (field : List Char) : Option AccessType :=
  entries.findSome? fun e =>
    match e.kind with
    | .var v => if e.name = field then some v.access else none
    | .record subs => (subs.find? (·.name == field)).map (·.var.access)
    | .array _ => none

end Canopen.Eds
