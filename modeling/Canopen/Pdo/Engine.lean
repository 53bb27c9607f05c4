import Canopen.Lib.Deque
import Canopen.Od
import Canopen.Pdo.Bits

/-!
# PDO engines

The transmit and receive engines of `pdo/engine.rs`. The source keeps one array
per attribute, indexed by slot; here a slot is one record and an engine is the
list of its slots, in slot order.
-/

namespace Canopen.Pdo

variable {OD : Type} [ObjectDictionary OD] {cap : ℕ}

def pdoMaxPayloadBits : ℕ := 64

def pdoMaxMappings : ℕ := 64

/-- One mapping entry: which object supplies which number of bits. -/
structure PdoMapping where
  index : UInt16
  subindex : UInt8
  bitLength : UInt8
  deriving DecidableEq, Repr

/-- Decode a mapping value `0xIIIISSLL`. -/
def PdoMapping.fromMappingValue (val : UInt32) : PdoMapping :=
  ⟨(val >>> 16).toUInt16, (val >>> 8).toUInt8, val.toUInt8⟩

/-- Static data types may be mapped as padding; they carry no data. -/
def isDummyMappingIndex (index : UInt16) : Bool := 0x0001 ≤ index && index ≤ 0x0007

/-- Types 0..=240 are tied to the SYNC pulse. -/
def rawIsSynchronous (raw : UInt8) : Bool := raw ≤ 240

/-- CANopen number of the PDO in a slot: the explicit number if set, else the slot. -/
def pdoNumberForSlot (odNumber : UInt16) (slot : ℕ) : UInt16 :=
  if odNumber = 0 then UInt16.ofNat slot + 1 else odNumber

/-- 0-based offset of a PDO's records from the base of their range. -/
def pdoOdOffset (odNumber : UInt16) (slot : ℕ) : UInt16 :=
  if odNumber = 0 then UInt16.ofNat slot else odNumber - 1

structure TpdoConfig where
  odNumber : UInt16
  cobId : UInt16
  transmissionType : UInt8
  inhibitTime100us : UInt16
  eventTimerMs : UInt16
  mappings : List PdoMapping
  enabled : Bool
  deriving DecidableEq, Repr

structure RpdoConfig where
  odNumber : UInt16
  cobId : UInt16
  transmissionType : UInt8
  /-- Reception deadline in ms, 0 when not monitored. -/
  deadlineMs : UInt16
  mappings : List PdoMapping
  enabled : Bool
  deriving DecidableEq, Repr

/-- Eligibility of an object for a dynamic mapping, tested when it is activated. -/
def validateMappingTarget (lookup : UInt16 → UInt8 → Option OdEntryMeta) (descriptor : UInt32)
    (receive : Bool) : Except OdError Unit :=
  let index := (descriptor >>> 16).toUInt16
  if isDummyMappingIndex index then .ok ()
  else
    let eligible := (lookup index (descriptor >>> 8).toUInt8).any fun info =>
      info.pdoMappable &&
        if receive then info.access == .wo || info.access == .rw else info.access != .wo
    if eligible then .ok () else .error (.abort Sdo.AbortCode.objectCannotBeMapped)

/-! ## Transmit PDOs -/

/-- A transmit PDO with its run-time state. The two latches hold an application
event until the next SYNC (type 0) or until the inhibit time allows it (254, 255). -/
structure TpdoSlot where
  config : TpdoConfig
  syncCounter : UInt8
  lastSendUs : UInt64
  syncEventPending : Bool
  asyncEventPending : Bool
  deriving DecidableEq, Repr

structure TpdoEngine where
  slots : List TpdoSlot
  deriving DecidableEq, Repr

namespace TpdoSlot

def new (config : TpdoConfig) : TpdoSlot := ⟨config, 0, 0, false, false⟩

/-- Whether the PDO maps the address. -/
def maps (slot : TpdoSlot) (addr : UInt16 × UInt8) : Bool :=
  slot.config.mappings.any fun m => m.index == addr.1 && m.subindex == addr.2

/-- Latch an application event. Cyclic synchronous types ignore it. -/
def latchEvent (slot : TpdoSlot) : TpdoSlot :=
  if !slot.config.enabled then slot
  else if slot.config.transmissionType = 0 then { slot with syncEventPending := true }
  else if slot.config.transmissionType = 254 ∨ slot.config.transmissionType = 255 then
    { slot with asyncEventPending := true }
  else slot

def hasDirtyMapping (slot : TpdoSlot) (dirty : List (UInt16 × UInt8)) : Bool :=
  !dirty.isEmpty && dirty.any slot.maps

/-- Latch the recorded application events of a synchronous acyclic PDO. -/
def latchSyncEvent (slot : TpdoSlot) (dirty : List (UInt16 × UInt8)) : TpdoSlot :=
  if slot.config.enabled && slot.config.transmissionType == 0 && slot.hasDirtyMapping dirty then
    { slot with syncEventPending := true }
  else slot

/-- Append the mapped objects to the payload; `none` when one does not fit or cannot
be read. An object is read whole and its low bits are transmitted. -/
def buildPayload (od : OD) : List PdoMapping → List UInt8 → ℕ → Option (List UInt8 × ℕ)
  | [], data, bitOffset => some (data, bitOffset)
  | m :: ms, data, bitOffset =>
    let bitLen := m.bitLength.toNat
    let endBit := bitOffset + bitLen
    if 64 < endBit then none
    else if isDummyMappingIndex m.index then buildPayload od ms data endBit
    else
      match ObjectDictionary.read od m.index m.subindex (FixedBuffer.filled 8 0) with
      | (.error _, _) => none
      | (.ok readLen, objectData) =>
        if readLen.1 * 8 < bitLen then none
        else buildPayload od ms (copyPdoBits objectData.cells 0 data bitOffset bitLen) endBit

def buildPdoFrame (slot : TpdoSlot) (od : OD) : Option CanFrame :=
  match buildPayload od slot.config.mappings (List.replicate 8 0) 0 with
  | some (data, bitOffset) => CanFrame.new slot.config.cobId (data.take (bytesForBits bitOffset))
  | none => none

/-- Reaction to a SYNC pulse: the slot afterwards and the frame sampled on it. -/
def onSync (slot : TpdoSlot) (od : OD) : TpdoSlot × Option CanFrame :=
  let tt := slot.config.transmissionType
  if !slot.config.enabled then (slot, none)
  else if tt = 0 then
    if slot.syncEventPending then ({ slot with syncEventPending := false }, slot.buildPdoFrame od)
    else (slot, none)
  else if tt ≤ 240 then
    if tt ≤ slot.syncCounter + 1 then ({ slot with syncCounter := 0 }, slot.buildPdoFrame od)
    else ({ slot with syncCounter := slot.syncCounter + 1 }, none)
  else (slot, none)

/-- Whether event and timer triggers are handled by `pollWith`. -/
def isEventDriven (slot : TpdoSlot) : Bool :=
  slot.config.enabled &&
    (slot.config.transmissionType == 254 || slot.config.transmissionType == 255)

/-- The event is latched before the inhibit time is tested, because the dirty set
does not survive the poll. -/
def latchDirty (slot : TpdoSlot) (dirty : List (UInt16 × UInt8)) : TpdoSlot :=
  if slot.hasDirtyMapping dirty then { slot with asyncEventPending := true } else slot

/-- Whether a transmission is due: an event or the timer, outside the inhibit time. -/
def isDue (slot : TpdoSlot) (nowUs : UInt64) : Bool :=
  let elapsed := nowUs - slot.lastSendUs
  let timerTrigger := 0 < slot.config.eventTimerMs &&
    slot.config.eventTimerMs.toUInt64 * 1000 ≤ elapsed
  (slot.asyncEventPending || timerTrigger) && slot.config.inhibitTime100us.toUInt64 * 100 ≤ elapsed

/-- The slot after the transport took its frame. -/
def sent (slot : TpdoSlot) (nowUs : UInt64) : TpdoSlot :=
  { slot with lastSendUs := nowUs, asyncEventPending := false }

/-- Poll one event-driven slot. The trigger is kept until `accept` takes the frame. -/
def pollWith {σ : Type} (od : OD) (nowUs : UInt64) (dirty : List (UInt16 × UInt8))
    (accept : TpdoSlot → CanFrame → σ → Bool × σ) (slot : TpdoSlot) (s : σ) : TpdoSlot × σ :=
  if !slot.isEventDriven then (slot, s)
  else
    let slot := slot.latchDirty dirty
    if slot.isDue nowUs then
      match slot.buildPdoFrame od with
      | some frame =>
        let (ok, s) := accept slot frame s
        (if ok then slot.sent nowUs else slot, s)
      | none => (slot, s)
    else (slot, s)

end TpdoSlot

namespace TpdoEngine

def new (pdos : List TpdoConfig) : TpdoEngine := ⟨pdos.map TpdoSlot.new⟩

/-- Latch an application change in every PDO that maps it. -/
def notifyChanged (e : TpdoEngine) (index : UInt16) (subindex : UInt8) : TpdoEngine :=
  ⟨e.slots.map fun slot =>
    if slot.config.enabled && slot.maps (index, subindex) then slot.latchEvent else slot⟩

def latchSlotEvent (e : TpdoEngine) (slot : ℕ) : TpdoEngine :=
  ⟨e.slots.modify slot TpdoSlot.latchEvent⟩

def latchSyncEvents (e : TpdoEngine) (dirty : List (UInt16 × UInt8)) : TpdoEngine :=
  if dirty.isEmpty then e else ⟨e.slots.map (·.latchSyncEvent dirty)⟩

def discardSyncEvents (e : TpdoEngine) : TpdoEngine :=
  ⟨e.slots.map ({ · with syncEventPending := false })⟩

def discardAsyncEvents (e : TpdoEngine) : TpdoEngine :=
  ⟨e.slots.map ({ · with asyncEventPending := false })⟩

/-- Start the run-time transmission state afresh; the configuration stays. -/
def resetCommunicationState (e : TpdoEngine) : TpdoEngine :=
  ⟨e.slots.map ({ · with syncCounter := 0, syncEventPending := false, asyncEventPending := false })⟩

/-- One SYNC pulse: the frames sampled on it, in slot order. -/
def onSync (e : TpdoEngine) (od : OD) : TpdoEngine × List CanFrame :=
  (⟨e.slots.map fun slot => (slot.onSync od).1⟩, e.slots.filterMap fun slot => (slot.onSync od).2)

/-- Poll the slots in order, handing every due frame to `accept`. -/
def pollWith {σ : Type} (od : OD) (nowUs : UInt64) (dirty : List (UInt16 × UInt8))
    (accept : ℕ → TpdoSlot → CanFrame → σ → Bool × σ) :
    ℕ → List TpdoSlot → σ → List TpdoSlot × σ
  | _, [], s => ([], s)
  | i, slot :: slots, s =>
    let (slot, s) := slot.pollWith od nowUs dirty (accept i) s
    let (slots, s) := pollWith od nowUs dirty accept (i + 1) slots s
    (slot :: slots, s)

end TpdoEngine

/-! ## Receive PDOs -/

/-- A receive PDO with its run-time state. -/
structure RpdoSlot where
  config : RpdoConfig
  /-- Frame of a synchronous PDO waiting for the next SYNC. -/
  pending : Option CanFrame
  lastRxUs : UInt64
  /-- Deadline monitoring is armed by the first reception. -/
  armed : Bool
  expired : Bool
  deriving DecidableEq, Repr

structure RpdoEngine where
  slots : List RpdoSlot
  lengthErrors : UInt32
  deriving DecidableEq, Repr

def isSignedInteger : DataType → Bool
  | .i8 | .i16 | .i24 | .i32 | .i64 => true
  | _ => false

/-- The bytes written for a received bit field: the object's full width, sign
extended for signed integers, or just the received bytes when the width is unknown. -/
def rpdoObjectData (od : OD) (m : PdoMapping) (data : List UInt8) (bitOffset : ℕ) : List UInt8 :=
  let bitLen := m.bitLength.toNat
  let objectLen := bytesForBits bitLen
  let objectData := copyPdoBits data bitOffset (List.replicate 8 0) 0 bitLen
  match ObjectDictionary.lookup od m.index m.subindex with
  | some info =>
    match info.dataType.size with
    | some size =>
      if objectLen ≤ size ∧ size ≤ 8 then
        if isSignedInteger info.dataType then signExtendPdoBits (objectData.take size) bitLen
        else objectData.take size
      else objectData.take objectLen
    | none => objectData.take objectLen
  | none => objectData.take objectLen

/-- What a received PDO is applied to: dictionary, event queue, number of events
dropped by the full queue, and the `write` calls made. -/
structure RpdoState (OD : Type) (cap : ℕ) where
  od : OD
  events : Deque OdEvent cap
  dropped : UInt32
  writes : List OdWrite

/-- Write one mapped object. A refused write emits no event. -/
def RpdoState.writeObject (s : RpdoState OD cap) (m : PdoMapping) (data : List UInt8) :
    RpdoState OD cap :=
  let (result, od) := ObjectDictionary.write s.od m.index m.subindex data
  let s := { s with od := od, writes := s.writes ++ [⟨m.index, m.subindex, data, result.isOk⟩] }
  if result.isOk then
    { s with
      events := s.events.pushEvict ⟨m.index, m.subindex, .rpdo⟩
      dropped := if s.events.isFull then Counter.saturatingAdd s.dropped 1 else s.dropped }
  else s

/-- Unpack a received frame along the mappings, stopping where the data ends. -/
def applyMapped (data : List UInt8) :
    List PdoMapping → ℕ → RpdoState OD cap → RpdoState OD cap
  | [], _, s => s
  | m :: ms, bitOffset, s =>
    let endBit := bitOffset + m.bitLength.toNat
    if data.length * 8 < endBit ∨ 8 < bytesForBits m.bitLength.toNat then s
    else if isDummyMappingIndex m.index then applyMapped data ms endBit s
    else applyMapped data ms endBit (s.writeObject m (rpdoObjectData s.od m data bitOffset))

/-- Payload length a mapping implies, `none` above 64 bits. -/
def mappedPayloadLen (config : RpdoConfig) : Option ℕ :=
  let totalBits := (config.mappings.map (·.bitLength.toNat)).sum
  if totalBits ≤ pdoMaxPayloadBits then some (bytesForBits totalBits) else none

namespace RpdoSlot

def new (config : RpdoConfig) : RpdoSlot := ⟨config, none, 0, false, false⟩

def accepts (slot : RpdoSlot) (frame : CanFrame) : Bool :=
  slot.config.enabled && frame.id == slot.config.cobId

/-- A frame shorter than its mapping is not processed. -/
def longEnough (slot : RpdoSlot) (frame : CanFrame) : Bool :=
  (mappedPayloadLen slot.config).any (· ≤ frame.data.length)

/-- Monitoring watches the bus, so a reception is stamped even when its data waits. -/
def stamped (slot : RpdoSlot) (nowUs : UInt64) : RpdoSlot :=
  { slot with lastRxUs := nowUs, armed := true, expired := false }

def isOverdue (slot : RpdoSlot) (nowUs : UInt64) : Bool :=
  slot.config.enabled && slot.config.deadlineMs != 0 && slot.armed && !slot.expired &&
    slot.config.deadlineMs.toUInt64 * 1000 < nowUs - slot.lastRxUs

end RpdoSlot

namespace RpdoEngine

def new (pdos : List RpdoConfig) : RpdoEngine := ⟨pdos.map RpdoSlot.new, 0⟩

/-- The first enabled slot configured for the frame's COB-ID. -/
def slotFor (e : RpdoEngine) (frame : CanFrame) : Option ℕ := e.slots.findIdx? (·.accepts frame)

def setSlot (e : RpdoEngine) (i : ℕ) (slot : RpdoSlot) : RpdoEngine :=
  { e with slots := e.slots.set i slot }

/-- Commit the buffered frames in slot order. -/
def onSync : List RpdoSlot → RpdoState OD cap → List RpdoSlot × RpdoState OD cap
  | [], s => ([], s)
  | slot :: slots, s =>
    let s' := match slot.pending with
      | some frame => applyMapped frame.data slot.config.mappings 0 s
      | none => s
    let (slots, s'') := onSync slots s'
    ({ slot with pending := none } :: slots, s'')

def discardPending (e : RpdoEngine) : RpdoEngine :=
  { e with slots := e.slots.map ({ · with pending := none }) }

def resetDeadlineMonitoring (e : RpdoEngine) : RpdoEngine :=
  { e with slots := e.slots.map ({ · with armed := false, expired := false }) }

/-- Flag the newly overdue slots. -/
def checkDeadlines (e : RpdoEngine) (nowUs : UInt64) : RpdoEngine :=
  { e with slots := e.slots.map fun slot =>
      if slot.isOverdue nowUs then { slot with expired := true } else slot }

/-- The newly overdue slots, in slot order. -/
def overdueSlots (e : RpdoEngine) (nowUs : UInt64) : List (ℕ × RpdoConfig) :=
  e.slots.zipIdx.filterMap fun (slot, i) =>
    if slot.isOverdue nowUs then some (i, slot.config) else none

/-- The number under which an overdue slot is reported, if it is in range. -/
def reportedNumber (i : ℕ) (config : RpdoConfig) : Option UInt16 :=
  let number := pdoNumberForSlot config.odNumber i
  if 1 ≤ number ∧ number ≤ 512 then some number else none

end RpdoEngine
end Canopen.Pdo
