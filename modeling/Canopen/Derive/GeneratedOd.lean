import Canopen.Pdo.Engine

/-!
# Generated object dictionaries

The object dictionary that `object_dictionary!` generates (`codegen.rs`): the
declared entries, the communication and mapping records of every declared PDO,
the records of the additional SDO servers and the two EDS objects. A fixed-size
value is kept as its little-endian bytes. `OdDefinition.validate` gives every
index one owner, so the order of the generated match arms does not matter.
-/

namespace Canopen.Derive

open LittleEndian Pdo

/-! ## Definitions -/

/-- A declared COB-ID: fixed, or a base the node id is added to. -/
inductive CobIdSpec
  | absolute (id : UInt32)
  | nodeRelative (base : UInt32)
  deriving DecidableEq, Repr

inductive PdoDirection
  | tpdo
  | rpdo
  deriving DecidableEq, Repr

/-- A declared PDO, its mappings resolved to `0xIIIISSLL` values. -/
structure PdoDef where
  direction : PdoDirection
  number : UInt16
  cobId : Option CobIdSpec
  transmissionType : UInt8
  inhibitTime : UInt16
  /-- Event timer of a transmit PDO, deadline of a receive PDO. -/
  eventTimer : UInt16
  /-- Whether a master may remap the PDO. -/
  isMutable : Bool
  mappings : List UInt32
  deriving DecidableEq, Repr

structure VarDef where
  dataType : DataType
  access : AccessType
  pdoMappable : Bool
  /-- Capacity of a variable-length value, `none` when it is allocated dynamically. -/
  capacity : Option ℕ
  default : List UInt8
  deriving DecidableEq, Repr

structure ArrayDef where
  elementType : DataType
  access : AccessType
  pdoMappable : Bool
  count : ℕ
  deriving DecidableEq, Repr

inductive EntryKind
  | var (v : VarDef)
  | record (subs : List (UInt8 × VarDef))
  | array (a : ArrayDef)
  deriving DecidableEq, Repr

structure OdEntry where
  index : UInt16
  kind : EntryKind
  deriving DecidableEq, Repr

structure SdoServerDef where
  number : UInt16
  cobRx : CobIdSpec
  cobTx : CobIdSpec
  deriving DecidableEq, Repr

structure OdDefinition where
  entries : List OdEntry
  pdos : List PdoDef
  sdoServers : List SdoServerDef
  edsCompressed : List UInt8
  deriving DecidableEq, Repr

def PdoDirection.commBase : PdoDirection → UInt16
  | .tpdo => 0x1800
  | .rpdo => 0x1400

def PdoDirection.mapBase : PdoDirection → UInt16
  | .tpdo => 0x1A00
  | .rpdo => 0x1600

def PdoDef.commIdx (p : PdoDef) : UInt16 := p.direction.commBase + (p.number - 1)

def PdoDef.mapIdx (p : PdoDef) : UInt16 := p.direction.mapBase + (p.number - 1)

def SdoServerDef.idx (s : SdoServerDef) : UInt16 := 0x1200 + (s.number - 1)

def OdDefinition.generatedIndices (d : OdDefinition) : List UInt16 :=
  [0x1021, 0x1022] ++ d.pdos.flatMap (fun p => [p.commIdx, p.mapIdx]) ++ d.sdoServers.map (·.idx)

/-- The value a variable starts with has the width of its type, or fits its capacity. -/
def VarDef.wellTyped (v : VarDef) : Bool :=
  match v.dataType.size with
  | some size =>
    v.default.length == size && (v.dataType != .boolean || v.default == [0] || v.default == [1])
  | none => v.capacity.all (v.default.length ≤ ·)

def EntryKind.wellTyped : EntryKind → Bool
  | .var v => v.wellTyped
  | .record subs => subs.all (·.2.wellTyped)
  | .array a => a.elementType.size.isSome

/-- What a PDO may map statically: a fixed-size variable marked for it that can be accessed
in the PDO's direction. -/
def VarDef.mappable (v : VarDef) (dir : PdoDirection) : Bool :=
  v.pdoMappable && v.dataType.size.isSome &&
    match dir with
    | .tpdo => v.access != .wo
    | .rpdo => v.access == .rw || v.access == .wo

/-- The entry a declared mapping names. Padding names none, and array elements cannot be
named. -/
def OdDefinition.resolves (d : OdDefinition) (dir : PdoDirection) (mapping : UInt32) : Bool :=
  let index := (mapping >>> 16).toUInt16
  let subindex := (mapping >>> 8).toUInt8
  isDummyMappingIndex index || d.entries.any fun e =>
    e.index == index &&
      match e.kind with
      | .var v => subindex == 0 && v.mappable dir
      | .record subs => subs.any fun s => s.1 == subindex && s.2.mappable dir
      | .array _ => false

def mappedBits (mappings : List UInt32) : ℕ := (mappings.map fun m => (m &&& 0xFF).toNat).sum

/-- The checks of the macro the generated code relies on: one owner per index, values of
their declared type, PDO numbers in range and declared once, at most 64 mapping entries,
each resolved, that take up at most 64 bits. -/
def OdDefinition.validate (d : OdDefinition) : Bool :=
  (d.entries.map (·.index)).Nodup &&
    d.entries.all (fun e =>
      !d.generatedIndices.contains e.index && e.kind.wellTyped &&
        match e.kind with
        | .record subs => (subs.map (·.1)).Nodup && subs.all (·.1 != 0)
        | _ => true) &&
    (d.pdos.map fun p => (p.direction, p.number)).Nodup &&
    d.pdos.all (fun p => 1 ≤ p.number && p.number ≤ 512 && p.mappings.length ≤ pdoMaxMappings &&
      p.mappings.all (d.resolves p.direction) && mappedBits p.mappings ≤ pdoMaxPayloadBits) &&
    (d.sdoServers.map (·.number)).Nodup &&
    d.sdoServers.all fun s => 2 ≤ s.number && s.number ≤ 128

/-! ## State -/

/-- One declared object and its value. -/
structure Cell where
  info : OdEntryMeta
  capacity : Option ℕ
  value : List UInt8
  deriving DecidableEq, Repr

/-- Communication and mapping parameters of one PDO. -/
structure PdoRecord where
  decl : PdoDef
  cobId : UInt32
  transmissionType : UInt8
  inhibitTime : UInt16
  eventTimer : UInt16
  mappingCount : UInt8
  mappings : FixedBuffer UInt32 64
  deriving DecidableEq, Repr

structure SdoServerRecord where
  decl : SdoServerDef
  cobRx : UInt32
  cobTx : UInt32
  deriving DecidableEq, Repr

/-- The fields of the generated struct. -/
structure OdFields where
  cells : List Cell
  pdos : List PdoRecord
  sdoServers : List SdoServerRecord
  edsCompressed : List UInt8
  deriving DecidableEq, Repr

/-- A generated dictionary with the application's `validate_write` function. -/
structure GeneratedOd where
  fields : OdFields
  validateFn : Option (OdFields → UInt16 → UInt8 → List UInt8 → Except OdError Unit)

/-! ## Initial values -/

def CobIdSpec.stored : CobIdSpec → UInt32
  | .absolute id => id
  | .nodeRelative _ => 0

def CobIdSpec.resolve (node : NodeId) : CobIdSpec → UInt16
  | .absolute id => id.toUInt16
  | .nodeRelative base => base.toUInt16 + node.raw.toUInt16

/-- Sub-index 0 of records and arrays: a read-only byte. -/
def countCell (index : UInt16) (count : UInt8) : Cell :=
  ⟨⟨index, 0, .u8, .ro, false⟩, none, [count]⟩

def VarDef.cell (v : VarDef) (index : UInt16) (subindex : UInt8) : Cell :=
  ⟨⟨index, subindex, v.dataType, v.access, v.pdoMappable⟩, v.capacity, v.default⟩

def ArrayDef.cells (a : ArrayDef) (index : UInt16) : List Cell :=
  countCell index (UInt8.ofNat a.count) :: (List.range (UInt8.ofNat a.count).toNat).map fun i =>
    ⟨⟨index, UInt8.ofNat (i + 1), a.elementType, a.access, a.pdoMappable⟩, none,
      List.replicate (a.elementType.size.getD 0) 0⟩

def OdEntry.cells (e : OdEntry) : List Cell :=
  match e.kind with
  | .var v => [v.cell e.index 0]
  | .record subs =>
    countCell e.index ((subs.map (·.1)).foldl max 0) :: subs.map fun (sub, v) => v.cell e.index sub
  | .array a => a.cells e.index

def PdoDef.record (p : PdoDef) : PdoRecord where
  decl := p
  cobId := (p.cobId.map CobIdSpec.stored).getD 0
  transmissionType := p.transmissionType
  inhibitTime := p.inhibitTime
  eventTimer := p.eventTimer
  mappingCount := UInt8.ofNat p.mappings.length
  mappings := (FixedBuffer.filled 64 0).write 0 p.mappings

/-- The dictionary as `new()` builds it. -/
def OdFields.new (d : OdDefinition) : OdFields where
  cells := d.entries.flatMap OdEntry.cells
  pdos := d.pdos.map PdoDef.record
  sdoServers := d.sdoServers.map fun s => ⟨s, s.cobRx.stored, s.cobTx.stored⟩
  edsCompressed := d.edsCompressed

/-! ## Reading -/

/-- Highest mapping sub-index exposed: the full capacity, or the declared entries. -/
def PdoRecord.maxMapSub (p : PdoRecord) : UInt8 :=
  if p.decl.isMutable then 64 else UInt8.ofNat p.decl.mappings.length

def PdoRecord.mapAccess (p : PdoRecord) : AccessType := if p.decl.isMutable then .rw else .const

def PdoRecord.object (p : PdoRecord) (index : UInt16) (sub : UInt8) :
    Option (DataType × AccessType × List UInt8) :=
  if index = p.decl.commIdx then
    if sub = 0 then some (.u8, .ro, [5])
    else if sub = 1 then some (.u32, .rw, leBytes32 p.cobId)
    else if sub = 2 then some (.u8, .rw, [p.transmissionType])
    else if sub = 3 ∧ p.decl.direction = .tpdo then some (.u16, .rw, leBytes16 p.inhibitTime)
    else if sub = 5 then some (.u16, .rw, leBytes16 p.eventTimer)
    else none
  else if index = p.decl.mapIdx then
    if sub = 0 then some (.u8, p.mapAccess, [p.mappingCount])
    else if sub ≤ p.maxMapSub then
      some (.u32, p.mapAccess, leBytes32 (p.mappings.cells.getD (sub.toNat - 1) 0))
    else none
  else none

def SdoServerRecord.object (s : SdoServerRecord) (index : UInt16) (sub : UInt8) :
    Option (DataType × AccessType × List UInt8) :=
  if index = s.decl.idx then
    if sub = 0 then some (.u8, .ro, [2])
    else if sub = 1 then some (.u32, .ro, leBytes32 s.cobRx)
    else if sub = 2 then some (.u32, .ro, leBytes32 s.cobTx)
    else none
  else none

/-- The two objects that serve the compressed EDS. -/
def edsObject (eds : List UInt8) (index : UInt16) (sub : UInt8) :
    Option (DataType × AccessType × List UInt8) :=
  if index = 0x1021 ∧ sub = 0 then some (.domain, .ro, eds)
  else if index = 0x1022 ∧ sub = 0 then some (.u8, .ro, [0x80])
  else none

namespace OdFields

def cell (od : OdFields) (index : UInt16) (sub : UInt8) : Option Cell :=
  od.cells.find? fun c => c.info.index == index && c.info.subindex == sub

def generatedObject (od : OdFields) (index : UInt16) (sub : UInt8) :
    Option (DataType × AccessType × List UInt8) :=
  od.pdos.findSome? (·.object index sub) <|> od.sdoServers.findSome? (·.object index sub) <|>
    edsObject od.edsCompressed index sub

def lookup (od : OdFields) (index : UInt16) (sub : UInt8) : Option OdEntryMeta :=
  match od.cell index sub with
  | some c => some c.info
  | none => (od.generatedObject index sub).map fun o => ⟨index, sub, o.1, o.2.1, false⟩

def object (od : OdFields) (index : UInt16) (sub : UInt8) : Option (AccessType × List UInt8) :=
  match od.cell index sub with
  | some c => some (c.info.access, c.value)
  | none => (od.generatedObject index sub).map (·.2)

/-- A value that does not fit the buffer is refused, and so is reading a write-only
object. -/
def read (od : OdFields) (index : UInt16) (sub : UInt8) {n : ℕ} (buf : FixedBuffer UInt8 n) :
    Except OdError {k : ℕ // k ≤ n} × FixedBuffer UInt8 n :=
  match od.object index sub with
  | none => (.error .notFound, buf)
  | some (access, value) =>
    if access = .wo then (.error .writeOnly, buf)
    else if h : value.length ≤ n then (.ok ⟨value.length, h⟩, buf.write 0 value)
    else (.error .valueTooLong, buf)

/-- Highest sub-index of an object. -/
def subCount (od : OdFields) (index : UInt16) : Option UInt8 :=
  match od.cells.filter (·.info.index == index) with
  | [] =>
    (od.pdos.findSome? fun p =>
      if index = p.decl.commIdx then some 5
      else if index = p.decl.mapIdx then some p.maxMapSub else none) <|>
    od.sdoServers.findSome? fun s => if index = s.decl.idx then some 2 else none
  | cells => some ((cells.map (·.info.subindex)).foldl max 0)

end OdFields

/-! ## Writing -/

/-- Write a declared object. Fixed-size values need their exact width, a boolean is
stored as 0 or 1, and a variable-length value has to fit its capacity. -/
def Cell.write (c : Cell) (data : List UInt8) : Except OdError Cell :=
  if c.info.access = .ro ∨ c.info.access = .const then .error .readOnly
  else
    match c.info.dataType.size with
    | some size =>
      if data.length ≠ size then .error .dataTypeMismatch
      else if c.info.dataType = .boolean then
        .ok { c with value := [if data.getD 0 0 != 0 then 1 else 0] }
      else .ok { c with value := data }
    | none =>
      if c.info.dataType = .visibleString ∧ !(ByteArray.mk data.toArray).validateUTF8 then
        .error .dataTypeMismatch
      else if c.capacity.any (· < data.length) then .error .valueTooLong
      else .ok { c with value := data }

/-- The values 241..=253 are reserved or need remote frames. -/
def isUnsupportedTransmissionType (tt : UInt8) : Bool := 241 ≤ tt && tt ≤ 253

/-- Activating a mapping: every entry has to be eligible and all of them fit a PDO. -/
def PdoRecord.writeCount (lookup : UInt16 → UInt8 → Option OdEntryMeta) (p : PdoRecord)
    (data : List UInt8) : Except OdError PdoRecord :=
  let count := data.getD 0 0
  if !p.decl.isMutable then .error .readOnly
  else if data.length ≠ 1 then .error .dataTypeMismatch
  else if pdoMaxMappings < count.toNat then .error .valueRange
  else do
    let active := p.mappings.cells.take count.toNat
    active.forM fun m => validateMappingTarget lookup m (p.decl.direction == .rpdo)
    if pdoMaxPayloadBits < mappedBits active then throw .valueRange
    return { p with mappingCount := count }

/-- A mapping entry is writable only while the mapping is inactive. -/
def PdoRecord.writeMapping (p : PdoRecord) (sub : UInt8) (data : List UInt8) :
    Except OdError PdoRecord :=
  if !p.decl.isMutable then .error .readOnly
  else if p.mappingCount ≠ 0 then .error .readOnly
  else if data.length ≠ 4 then .error .dataTypeMismatch
  else if pdoMaxPayloadBits < (word32 data &&& 0xFF).toNat then .error .valueRange
  else .ok { p with mappings := p.mappings.write (sub.toNat - 1) [word32 data] }

/-- Write an object of the PDO's two records; the address is one `object` serves. -/
def PdoRecord.write (lookup : UInt16 → UInt8 → Option OdEntryMeta) (p : PdoRecord)
    (index : UInt16) (sub : UInt8) (data : List UInt8) : Except OdError PdoRecord :=
  if index = p.decl.commIdx then
    if sub = 0 then .error .readOnly
    else if sub = 1 then
      if data.length ≠ 4 then .error .dataTypeMismatch else .ok { p with cobId := word32 data }
    else if sub = 2 then
      if data.length ≠ 1 then .error .dataTypeMismatch
      else if isUnsupportedTransmissionType (data.getD 0 0) then .error .valueRange
      else .ok { p with transmissionType := data.getD 0 0 }
    else if data.length ≠ 2 then .error .dataTypeMismatch
    else if sub = 3 then .ok { p with inhibitTime := word16 data }
    else .ok { p with eventTimer := word16 data }
  else if sub = 0 then p.writeCount lookup data
  else p.writeMapping sub data

/-- Update the first element that owns the address, `none` when there is none. -/
def updateFirst {α : Type} (owns : α → Bool) (f : α → Except OdError α) :
    List α → Option (Except OdError (List α))
  | [] => none
  | a :: l =>
    if owns a then some ((f a).map (· :: l)) else (updateFirst owns f l).map (·.map (a :: ·))

namespace OdFields

def write (od : OdFields) (index : UInt16) (sub : UInt8) (data : List UInt8) :
    Except OdError Unit × OdFields :=
  match updateFirst (fun c => c.info.index == index && c.info.subindex == sub) (·.write data)
    od.cells with
  | some (.ok cells) => (.ok (), { od with cells := cells })
  | some (.error e) => (.error e, od)
  | none =>
    match updateFirst (fun p => (p.object index sub).isSome) (·.write od.lookup index sub data)
      od.pdos with
    | some (.ok pdos) => (.ok (), { od with pdos := pdos })
    | some (.error e) => (.error e, od)
    | none =>
      if (od.generatedObject index sub).isSome then (.error .readOnly, od)
      else (.error .notFound, od)

theorem write_refused {od : OdFields} {index : UInt16} {sub : UInt8} {data : List UInt8}
    {e : OdError} (h : (od.write index sub data).1 = .error e) : (od.write index sub data).2 = od := by
  unfold write at h ⊢
  split at h
  · cases h
  · rfl
  · split at h
    · cases h
    · rfl
    · split_ifs at h ⊢ <;> rfl

/-- Mirror the resolved COB-IDs of the additional SDO servers into their records. -/
def storeSdoServerCobIds (od : OdFields) (node : NodeId) : OdFields :=
  { od with sdoServers := od.sdoServers.map fun s =>
      { s with cobRx := (s.decl.cobRx.resolve node).toUInt32
               cobTx := (s.decl.cobTx.resolve node).toUInt32 } }

/-- Only a variable of type `u8` at 0x1001 mirrors the error register. -/
def storeErrorRegister (od : OdFields) (value : UInt8) : OdFields :=
  { od with cells := od.cells.map fun c =>
      if c.info.index = 0x1001 ∧ c.info.subindex = 0 ∧ c.info.dataType = .u8 then
        { c with value := [value] }
      else c }

end OdFields

instance : ObjectDictionary GeneratedOd where
  lookup od := od.fields.lookup
  read od index sub _ buf := od.fields.read index sub buf
  write od index sub data :=
    ((od.fields.write index sub data).1, { od with fields := (od.fields.write index sub data).2 })
  subCount od := od.fields.subCount
  validateWrite od index sub data :=
    match od.validateFn with
    | some f => f od.fields index sub data
    | none => .ok ()
  storeSdoServerCobIds od node := { od with fields := od.fields.storeSdoServerCobIds node }
  storeErrorRegister od value := { od with fields := od.fields.storeErrorRegister value }

theorem write_refused (od : GeneratedOd) (index : UInt16) (sub : UInt8) (data : List UInt8)
    (e : OdError) (h : (ObjectDictionary.write od index sub data).1 = .error e) :
    (ObjectDictionary.write od index sub data).2 = od := by
  change { od with fields := (od.fields.write index sub data).2 } = od
  rw [OdFields.write_refused h]

/-! ## PDO configuration -/

/-- The COB-ID a stored value of 0 stands for: the declared base, the predefined
connection set for PDO 1 to 4, or none. -/
def PdoDef.defaultCob (p : PdoDef) (node : NodeId) : UInt16 :=
  match p.cobId with
  | some (.nodeRelative base) => base.toUInt16 + node.raw.toUInt16
  | _ =>
    if p.number ≤ 4 then
      (match p.direction with | .tpdo => 0x180 | .rpdo => 0x200) + (p.number - 1) * 0x100 +
        node.raw.toUInt16
    else 0

def PdoRecord.resolvedCob (p : PdoRecord) (node : NodeId) : UInt16 :=
  if p.cobId = 0 then p.decl.defaultCob node else (p.cobId &&& 0x7FF).toUInt16

def PdoRecord.enabled (p : PdoRecord) (node : NodeId) : Bool :=
  p.cobId &&& 0x80000000 == 0 && p.resolvedCob node != 0

def PdoRecord.activeMappings (p : PdoRecord) : List PdoMapping :=
  (p.mappings.cells.take p.mappingCount.toNat).map PdoMapping.fromMappingValue

def PdoRecord.tpdoConfig (p : PdoRecord) (node : NodeId) : TpdoConfig where
  odNumber := p.decl.number
  cobId := p.resolvedCob node
  transmissionType := p.transmissionType
  inhibitTime100us := p.inhibitTime
  eventTimerMs := p.eventTimer
  mappings := p.activeMappings
  enabled := p.enabled node

def PdoRecord.rpdoConfig (p : PdoRecord) (node : NodeId) : RpdoConfig where
  odNumber := p.decl.number
  cobId := p.resolvedCob node
  transmissionType := p.transmissionType
  deadlineMs := p.eventTimer
  mappings := p.activeMappings
  enabled := p.enabled node

def OdFields.tpdoConfigs (od : OdFields) (node : NodeId) : List TpdoConfig :=
  (od.pdos.filter (·.decl.direction == .tpdo)).map (·.tpdoConfig node)

def OdFields.rpdoConfigs (od : OdFields) (node : NodeId) : List RpdoConfig :=
  (od.pdos.filter (·.decl.direction == .rpdo)).map (·.rpdoConfig node)

/-! ## A small device -/

/-- A drive with a control word received in RPDO 1, a status word sent in TPDO 1, a
relocatable SYNC object and a firmware image. -/
def sampleDefinition : OdDefinition where
  entries := [
    ⟨0x1000, .var ⟨.u32, .ro, false, none, [0x91, 0x01, 0, 0]⟩⟩,
    ⟨0x1005, .var ⟨.u32, .rw, false, none, [0x80, 0, 0, 0]⟩⟩,
    ⟨0x1017, .var ⟨.u16, .rw, false, none, [0xF4, 0x01]⟩⟩,
    ⟨0x2020, .var ⟨.domain, .rw, false, some 20, []⟩⟩,
    ⟨0x6040, .var ⟨.u16, .rw, true, none, [0, 0]⟩⟩,
    ⟨0x6041, .var ⟨.u16, .ro, true, none, [0, 0]⟩⟩]
  pdos := [
    ⟨.tpdo, 1, none, 255, 0, 0, false, [0x60410010]⟩,
    ⟨.rpdo, 1, none, 255, 0, 0, false, [0x60400010]⟩]
  sdoServers := []
  edsCompressed := []

def sampleOd : GeneratedOd := ⟨OdFields.new sampleDefinition, none⟩

def sampleNode : NodeId := ⟨5, by decide, by decide⟩

example : sampleDefinition.validate = true := by decide

end Canopen.Derive
