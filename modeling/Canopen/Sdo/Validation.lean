import Canopen.Nmt
import Canopen.Od
import Canopen.Sync

/-!
# Download validation

The rules of `sdo/server.rs` a download has to pass before it is committed: the
COB-ID plan of the owning node, the semantic rules for 0x1005, 0x1016, 0x1019
and the PDO COB-IDs, and the dictionary's own `validateWrite` hook. Also the
translation of dictionary errors into abort codes.
-/

namespace Canopen.Sdo

variable {OD : Type} [ObjectDictionary OD]

/-- The COB-IDs the node's SDO servers occupy. All zero claims nothing. -/
structure SdoCobIds where
  defaultRx : UInt16
  defaultTx : UInt16
  extraRx : List UInt16
  extraTx : List UInt16
  deriving DecidableEq, Repr

def SdoCobIds.default : SdoCobIds := ⟨0, 0, [], []⟩

/-- COB-ID 0 is never claimed. -/
def SdoCobIds.claims (c : SdoCobIds) (cob : UInt16) : Bool :=
  cob != 0 && (cob == c.defaultRx || cob == c.defaultTx || c.extraRx.contains cob ||
    c.extraTx.contains cob)

/-- COB-IDs the node's other services occupy. A truncated list claims everything. -/
structure ReservedCobIds where
  ids : List UInt16
  truncated : Bool
  deriving DecidableEq, Repr

def ReservedCobIds.default : ReservedCobIds := ⟨[], false⟩

def ReservedCobIds.claims (r : ReservedCobIds) (cob : UInt16) : Bool :=
  cob != 0 && (r.truncated || r.ids.contains cob)

/-- Everything the server needs beyond the request frame and the dictionary. -/
structure SdoContext where
  nmtState : NmtState
  nowUs : UInt64
  heartbeatConsumerCount : UInt8
  cobIds : SdoCobIds
  reservedCobIds : ReservedCobIds
  syncCobId : UInt16
  deriving DecidableEq, Repr

/-- The context of a server with no node around it. -/
def SdoContext.standalone (nmtState : NmtState) (nowUs : UInt64) : SdoContext :=
  ⟨nmtState, nowUs, 0, .default, .default, 0⟩

/-! ## Abort codes for dictionary errors -/

/-- An existing object with a missing subindex is told apart from a missing object. -/
def odErrorToAbort (od : OD) (index : UInt16) : OdError → SdoAbort
  | .notFound =>
    if (ObjectDictionary.lookup od index 0).isSome then AbortCode.subindexNotFound
    else AbortCode.objectNotFound
  | .readOnly => AbortCode.readOnlyObject
  | .writeOnly => AbortCode.writeOnlyObject
  | .dataTypeMismatch => AbortCode.dataTypeMismatch
  | .valueTooLong => AbortCode.lengthTooHigh
  | .valueRange => AbortCode.valueRangeExceeded
  | .hardwareError => AbortCode.hardwareError
  | .abort code => code

/-- An object larger than the transfer buffer is reported as out of memory. -/
def odReadAbort (od : OD) (index : UInt16) : OdError → SdoAbort
  | .valueTooLong => AbortCode.outOfMemory
  | e => odErrorToAbort od index e

/-- A length mismatch against a fixed-size object is reported with its direction. -/
def odWriteAbort (od : OD) (index : UInt16) (subindex : UInt8) (dataLen : ℕ) (e : OdError) :
    SdoAbort :=
  if e = .dataTypeMismatch then
    match (ObjectDictionary.lookup od index subindex).bind (·.dataType.size) with
    | some size =>
      if size < dataLen then AbortCode.lengthTooHigh
      else if dataLen < size then AbortCode.lengthTooLow
      else odErrorToAbort od index e
    | none => odErrorToAbort od index e
  else odErrorToAbort od index e

/-! ## Semantic rules for communication objects -/

/-- PDO communication and mapping parameters. -/
def isPdoConfigIndex (index : UInt16) : Bool := 0x1400 ≤ index && index ≤ 0x1BFF

/-- PDO communication parameters of RPDOs and TPDOs. -/
def isPdoCommIndex (index : UInt16) : Bool :=
  (0x1400 ≤ index && index ≤ 0x15FF) || (0x1800 ≤ index && index ≤ 0x19FF)

/-- 0x1005: only a supported SYNC COB-ID that no other service occupies. -/
def validateSyncCobIdWrite (sdoCobs : SdoCobIds) (reservedCobs : ReservedCobIds) (index : UInt16)
    (subindex : UInt8) (data : List UInt8) : Except AbortCode Unit :=
  if index ≠ 0x1005 ∨ subindex ≠ 0 ∨ data.length ≠ 4 then .ok ()
  else
    let raw := word32 data
    if !isSupportedSyncCobId raw then .error .valueRangeExceeded
    else
      let cob := (raw &&& 0x7FF).toUInt16
      if sdoCobs.claims cob || reservedCobs.claims cob then .error .parameterIncompatibility
      else .ok ()

/-- 0x1019: 0 or 2..=240. -/
def validateSyncCounterOverflowWrite (index : UInt16) (subindex : UInt8) (data : List UInt8) :
    Except AbortCode Unit :=
  if index ≠ 0x1019 ∨ subindex ≠ 0 ∨ data.isEmpty then .ok ()
  else if !isValidSyncCounterOverflow (data.getD 0 0) then .error .valueRangeExceeded
  else .ok ()

/-- A PDO COB-ID: a standard identifier that neither an SDO server nor SYNC
occupies. The valid bit is ignored, since a disabled PDO can be enabled later. -/
def validatePdoCobIdWrite (sdoCobs : SdoCobIds) (syncCobId : UInt16) (index : UInt16)
    (subindex : UInt8) (data : List UInt8) : Except AbortCode Unit :=
  if !isPdoCommIndex index || subindex != 1 || data.length != 4 then .ok ()
  else
    let raw := word32 data
    if raw &&& 0x3FFFF800 ≠ 0 then .error .valueRangeExceeded
    else
      let cob := (raw &&& 0x7FF).toUInt16
      if sdoCobs.claims cob || (cob != 0 && cob == syncCobId) then .error .parameterIncompatibility
      else .ok ()

/-- The subindices `1..=count`. -/
def subIndices (count : UInt8) : List UInt8 :=
  (List.range count.toNat).map fun i => UInt8.ofNat (i + 1)

/-- Whether another active entry of 0x1016 already monitors the producer. The
four-byte buffer is reused from read to read. -/
def heartbeatProducerTaken (od : OD) (index : UInt16) (subindex : UInt8) (node : UInt32) :
    List UInt8 → FixedBuffer UInt8 4 → Bool
  | [], _ => false
  | sub :: subs, buf =>
    if sub = subindex then heartbeatProducerTaken od index subindex node subs buf
    else
      match ObjectDictionary.read od index sub buf with
      | (.ok _, buf') =>
        let other := word32 buf'.cells
        if other &&& 0xFFFF ≠ 0 ∧ (other >>> 16) &&& 0xFF = node then true
        else heartbeatProducerTaken od index subindex node subs buf'
      | (.error _, buf') => heartbeatProducerTaken od index subindex node subs buf'

/-- 0x1016: reserved bits zero, a valid producer, no COB-ID collision and no
producer monitored twice. A consumer time of 0 disables the entry. -/
def validateHeartbeatConsumerWrite (od : OD) (sdoCobs : SdoCobIds) (syncCobId : UInt16)
    (heartbeatConsumerCount : UInt8) (index : UInt16) (subindex : UInt8) (data : List UInt8) :
    Except AbortCode Unit :=
  if index ≠ 0x1016 ∨ subindex = 0 ∨ data.length ≠ 4 then .ok ()
  else
    let raw := word32 data
    if raw >>> 24 ≠ 0 then .error .valueRangeExceeded
    else if raw &&& 0xFFFF = 0 then .ok ()
    else
      let node := (raw >>> 16) &&& 0xFF
      if node = 0 ∨ 127 < node then .error .valueRangeExceeded
      else
        let cob := 0x700 + node.toUInt16
        if subindex ≤ heartbeatConsumerCount ∧ (sdoCobs.claims cob ∨ cob = syncCobId) then
          .error .parameterIncompatibility
        else
          let count := (ObjectDictionary.subCount od index).getD 0
          if heartbeatProducerTaken od index subindex node (subIndices count) (.filled 4 0) then
            .error .parameterIncompatibility
          else .ok ()

/-- The four rules in order, then the dictionary's own hook. -/
def validateDownload (od : OD) (ctx : SdoContext) (index : UInt16) (subindex : UInt8)
    (data : List UInt8) : Except SdoAbort Unit := do
  (validateHeartbeatConsumerWrite od ctx.cobIds ctx.syncCobId ctx.heartbeatConsumerCount index
    subindex data).mapError AbortCode.toAbort
  (validatePdoCobIdWrite ctx.cobIds ctx.syncCobId index subindex data).mapError AbortCode.toAbort
  (validateSyncCobIdWrite ctx.cobIds ctx.reservedCobIds index subindex data).mapError
    AbortCode.toAbort
  (validateSyncCounterOverflowWrite index subindex data).mapError AbortCode.toAbort
  (ObjectDictionary.validateWrite od index subindex data).mapError
    (odWriteAbort od index subindex data.length)

end Canopen.Sdo
