import Canopen.Derive.GeneratedOd
import Canopen.Node.State

/-!
# Node configuration

Building a node, and the functions that copy the configuration held in the object
dictionary into the running services (`node.rs`). The source reads into buffers
that it reuses from object to object, and so does the model.
-/

namespace Canopen

open LittleEndian Pdo Sdo

variable {OD : Type} [ObjectDictionary OD] {evt dirty : ℕ}

/-- Parameters of an additional SDO server. Its number is used by no function of
the node. -/
structure SdoServerConfig where
  cobRx : UInt16
  cobTx : UInt16
  deriving DecidableEq, Repr

structure NodeConfig where
  nodeId : NodeId
  heartbeatIntervalMs : UInt16
  autoStart : Bool
  tpdo : List TpdoConfig
  rpdo : List RpdoConfig
  sdoServers : List SdoServerConfig
  identity : LssIdentity
  deriving DecidableEq, Repr

/-! ## Reading the dictionary -/

/-- Whether a read succeeds, and the buffer afterwards. -/
def readInto (od : OD) (index : UInt16) (sub : UInt8) {n : ℕ} (buf : FixedBuffer UInt8 n) :
    Bool × FixedBuffer UInt8 n :=
  ((ObjectDictionary.read od index sub buf).1.isOk, (ObjectDictionary.read od index sub buf).2)

/-- The read buffers of `sync_pdo_from_od`. -/
structure ReadBufs where
  buf4 : FixedBuffer UInt8 4
  buf2 : FixedBuffer UInt8 2
  deriving DecidableEq, Repr

def ReadBufs.zero : ReadBufs := ⟨.filled 4 0, .filled 2 0⟩

def readMappings (od : OD) (mapIdx : UInt16) :
    List UInt8 → FixedBuffer UInt8 4 → List PdoMapping × FixedBuffer UInt8 4
  | [], buf => ([], buf)
  | sub :: subs, buf =>
    let (ok, buf) := readInto od mapIdx sub buf
    let (mappings, buf') := readMappings od mapIdx subs buf
    (if ok then .fromMappingValue (word32 buf.cells) :: mappings else mappings, buf')

/-- The mapping count, at most 64, and then the entries. -/
def readMappingRecord (od : OD) (mapIdx : UInt16) (buf : FixedBuffer UInt8 4) :
    List PdoMapping × FixedBuffer UInt8 4 :=
  let (ok, buf) := readInto od mapIdx 0 buf
  if ok then readMappings od mapIdx (subIndices (min (buf.cells.getD 0 0) 64)) buf else ([], buf)

/-- Bit 31 disables a PDO, and so does COB-ID 0. -/
def pdoEnabled (raw : UInt32) : Bool := raw &&& 0x80000000 == 0 && raw &&& 0x7FF != 0

def pdoCob (raw : UInt32) : UInt16 := (raw &&& 0x7FF).toUInt16

def syncTpdoConfig (od : OD) (slot : ℕ) (config : TpdoConfig) (b : ReadBufs) :
    TpdoConfig × ReadBufs :=
  let off := pdoOdOffset config.odNumber slot
  let commIdx := 0x1800 + off
  let (ok, buf4) := readInto od commIdx 1 b.buf4
  let config := if ok then
    { config with enabled := pdoEnabled (word32 buf4.cells), cobId := pdoCob (word32 buf4.cells) }
    else config
  let (ok, buf4) := readInto od commIdx 2 buf4
  let config := if ok then { config with transmissionType := buf4.cells.getD 0 0 } else config
  let (ok, buf2) := readInto od commIdx 3 b.buf2
  let config := if ok then { config with inhibitTime100us := word16 buf2.cells } else config
  let (ok, buf2) := readInto od commIdx 5 buf2
  let config := if ok then { config with eventTimerMs := word16 buf2.cells } else config
  let (mappings, buf4) := readMappingRecord od (0x1A00 + off) buf4
  ({ config with mappings := mappings }, ⟨buf4, buf2⟩)

def syncRpdoConfig (od : OD) (slot : ℕ) (config : RpdoConfig) (b : ReadBufs) :
    RpdoConfig × ReadBufs :=
  let off := pdoOdOffset config.odNumber slot
  let commIdx := 0x1400 + off
  let (ok, buf4) := readInto od commIdx 1 b.buf4
  let config := if ok then
    { config with enabled := pdoEnabled (word32 buf4.cells), cobId := pdoCob (word32 buf4.cells) }
    else config
  let (ok, buf4) := readInto od commIdx 2 buf4
  let config := if ok then { config with transmissionType := buf4.cells.getD 0 0 } else config
  let (ok, buf2) := readInto od commIdx 5 b.buf2
  let config := if ok then { config with deadlineMs := word16 buf2.cells } else config
  let (mappings, buf4) := readMappingRecord od (0x1600 + off) buf4
  ({ config with mappings := mappings }, ⟨buf4, buf2⟩)

def syncTpdoSlots (od : OD) : ℕ → List TpdoSlot → ReadBufs → List TpdoSlot × ReadBufs
  | _, [], b => ([], b)
  | n, slot :: slots, b =>
    let (config, b) := syncTpdoConfig od n slot.config b
    let (slots, b) := syncTpdoSlots od (n + 1) slots b
    ({ slot with config := config } :: slots, b)

def syncRpdoSlots (od : OD) : ℕ → List RpdoSlot → ReadBufs → List RpdoSlot × ReadBufs
  | _, [], b => ([], b)
  | n, slot :: slots, b =>
    let (config, b) := syncRpdoConfig od n slot.config b
    let (slots, b) := syncRpdoSlots od (n + 1) slots b
    ({ slot with config := config } :: slots, b)

/-- The monitor an entry of 0x1016 asks for: consumer time in the low half, node id
above it, time 0 disables. -/
def monitoredNode (raw : UInt32) : Option (NodeId × UInt16) :=
  let timeMs := (raw &&& 0xFFFF).toUInt16
  if timeMs = 0 then none else (NodeId.new ((raw >>> 16) &&& 0xFF).toUInt8).map (·, timeMs)

/-- An unchanged entry keeps its monitor when `preserve` is set. -/
def syncMonitor (preserve : Bool) (configured : Option (NodeId × UInt16))
    (existing : Option HeartbeatMonitor) : Option HeartbeatMonitor :=
  match configured with
  | none => none
  | some (node, time) =>
    match existing with
    | some m =>
      if preserve && m.nodeId == node && m.timeoutMs == time then some m
      else some (.new node time)
    | none => some (.new node time)

def syncMonitors (od : OD) (preserve : Bool) : ℕ → List (Option HeartbeatMonitor) →
    FixedBuffer UInt8 4 → List (Option HeartbeatMonitor)
  | _, [], _ => []
  | slot, monitor :: monitors, buf =>
    let (ok, buf) := readInto od 0x1016 (UInt8.ofNat (slot + 1)) buf
    let configured := if ok then monitoredNode (word32 buf.cells) else none
    syncMonitor preserve configured monitor :: syncMonitors od preserve (slot + 1) monitors buf

namespace Node

/-- Re-read the PDO configuration. -/
def syncPdoFromOd (n : Node OD evt dirty) : Node OD evt dirty :=
  let (tpdos, b) := syncTpdoSlots n.od 0 n.tpdo.slots .zero
  let (rpdos, _) := syncRpdoSlots n.od 0 n.rpdo.slots b
  { n with tpdo := ⟨tpdos⟩, rpdo := { n.rpdo with slots := rpdos } }

/-- Re-read the heartbeat producer time and the heartbeat consumer entries. -/
def syncHeartbeatFromOd (n : Node OD evt dirty) (preserve : Bool) : Node OD evt dirty :=
  let (ok, buf2) := readInto n.od 0x1017 0 (.filled 2 0)
  { n with
    heartbeat := if ok then n.heartbeat.setIntervalMs (word16 buf2.cells) else n.heartbeat
    hbMonitors := syncMonitors n.od preserve 0 n.hbMonitors (.filled 4 0) }

/-- The SYNC parameters the dictionary describes: COB-ID and producer flag, period,
window and counter overflow. `none` where the source panics. -/
structure SyncParameters where
  cobId : UInt16
  produce : Bool
  periodUs : UInt64
  windowUs : UInt64
  overflow : UInt8
  deriving DecidableEq, Repr

def syncParameters (od : OD) : Option SyncParameters := do
  let (ok, buf4) := readInto od 0x1005 0 (FixedBuffer.filled 4 0)
  let sync ← if ok then SyncCobId.fromRaw (word32 buf4.cells) else some .default
  let (ok, buf4) := readInto od 0x1006 0 buf4
  let periodUs := if ok then (word32 buf4.cells).toUInt64 else 0
  let (ok, buf4) := readInto od 0x1007 0 buf4
  let windowUs := if ok then (word32 buf4.cells).toUInt64 else 0
  let (ok, buf1) := readInto od 0x1019 0 (FixedBuffer.filled 1 0)
  let overflow := if ok then buf1.cells.getD 0 0 else 0
  if isValidSyncCounterOverflow overflow then
    return ⟨sync.cobId, sync.produce, periodUs, windowUs, overflow⟩
  else none

def applySync (n : Node OD evt dirty) (p : SyncParameters) : Node OD evt dirty :=
  { n with
    sync := n.sync.setCobId p.cobId
    syncWindow := n.syncWindow.configure p.windowUs
    syncProducer := n.syncProducer.configure (if p.produce then p.cobId else 0) p.periodUs p.overflow }

/-- Re-read the SYNC objects. -/
def syncConfigFromOd (n : Node OD evt dirty) : Option (Node OD evt dirty) :=
  (syncParameters n.od).map n.applySync

/-- What a reset does to SYNC and PDO traffic, once the configuration is re-read. -/
def clearSyncState (n : Node OD evt dirty) : Node OD evt dirty :=
  { n with
    sync := n.sync.reset
    syncProducer := n.syncProducer.reset
    syncWindow := n.syncWindow.reset
    pendingSyncTpdo := []
    syncTpdoLastAttemptUs := none
    rpdo := n.rpdo.discardPending.resetDeadlineMonitoring
    dirtySet := []
    tpdo := n.tpdo.resetCommunicationState }

def resetSyncState (n : Node OD evt dirty) : Option (Node OD evt dirty) :=
  n.syncConfigFromOd.map clearSyncState

/-- Discard PDO work when Operational is left. -/
def leaveOperational (n : Node OD evt dirty) : Node OD evt dirty :=
  { n with
    rpdo := n.rpdo.resetDeadlineMonitoring.discardPending
    tpdo := n.tpdo.discardSyncEvents.discardAsyncEvents
    dirtySet := []
    syncWindow := n.syncWindow.reset
    pendingSyncTpdo := []
    syncTpdoLastAttemptUs := none }

/-- The services whose configuration a committed download concerns are re-read. -/
def resyncAfter (n : Node OD evt dirty) (index : UInt16) : Option (Node OD evt dirty) :=
  let n := if isPdoConfigIndex index then n.syncPdoFromOd else n
  let n := if index = 0x1016 ∨ index = 0x1017 then n.syncHeartbeatFromOd true else n
  if index = 0x1005 ∨ index = 0x1006 ∨ index = 0x1007 ∨ index = 0x1019 then n.syncConfigFromOd
  else some n

/-! ## The COB-ID plan -/

def sdoCobIds (n : Node OD evt dirty) : SdoCobIds :=
  ⟨CobId.sdoRx n.nodeId, CobId.sdoTx n.nodeId, n.sdo.tail.map (·.cobRx), n.sdo.tail.map (·.cobTx)⟩

/-- The COB-IDs of the declared PDOs, enabled or not. -/
def pdoCobs (n : Node OD evt dirty) : List UInt16 :=
  n.tpdo.slots.map (·.config.cobId) ++ n.rpdo.slots.map (·.config.cobId)

def monitorCobs (n : Node OD evt dirty) : List UInt16 :=
  n.hbMonitors.filterMap (·.map fun m => CobId.heartbeat m.nodeId)

/-- Emergency, own heartbeat and LSS. -/
def fixedCobs (n : Node OD evt dirty) : List UInt16 :=
  [CobId.emergency n.nodeId, CobId.heartbeat n.nodeId, lssRequestCob, lssResponseCob]

/-- An additional server's COB-IDs are nonzero, different, and free of every fixed
service and every later server. -/
def extraSdoFree (fixed : List UInt16) : List (UInt16 × UInt16) → Bool
  | [] => true
  | (rx, tx) :: rest =>
    rx != 0 && tx != 0 && rx != tx && !fixed.contains rx && !fixed.contains tx &&
      rest.all (fun o => rx != o.1 && rx != o.2 && tx != o.1 && tx != o.2) &&
      extraSdoFree fixed rest

def sdoCobIdsAreUnique (n : Node OD evt dirty) : Bool :=
  extraSdoFree
      ([CobId.nmt, n.sync.cobId.getD 0, CobId.emergency n.nodeId, CobId.sdoRx n.nodeId,
        CobId.sdoTx n.nodeId, CobId.heartbeat n.nodeId, lssRequestCob, lssResponseCob])
      (n.sdo.tail.map fun ch => (ch.cobRx, ch.cobTx)) &&
    n.pdoCobs.all (!n.sdoCobIds.claims ·) && n.monitorCobs.all (!n.sdoCobIds.claims ·)

def syncCobIdIsUnique (n : Node OD evt dirty) : Bool :=
  match n.sync.cobId with
  | none => true
  | some sync =>
    sync != CobId.nmt && !n.sdoCobIds.claims sync && !n.fixedCobs.contains sync &&
      !n.pdoCobs.contains sync && !n.monitorCobs.contains sync

/-- The list of reserved COB-IDs is cut off at its capacity and then incomplete. -/
def collectReserved : List UInt16 → ReservedCobIds → ReservedCobIds
  | [], r => r
  | cob :: cobs, r =>
    collectReserved cobs
      (if cob = 0 ∨ r.ids.contains cob then r
        else if r.ids.length < reservedCobIdsCap then { r with ids := r.ids ++ [cob] }
        else { r with truncated := true })

def reservedCobIds (n : Node OD evt dirty) : ReservedCobIds :=
  collectReserved (n.fixedCobs ++ n.pdoCobs ++ n.monitorCobs) .default

/-- What an SDO server needs to know of its node. -/
def sdoContext (n : Node OD evt dirty) (nowUs : UInt64) : SdoContext where
  nmtState := n.nmt.state
  nowUs := nowUs
  heartbeatConsumerCount := min ((ObjectDictionary.subCount n.od 0x1016).getD 0) 8
  cobIds := n.sdoCobIds
  reservedCobIds := n.reservedCobIds
  syncCobId := n.sync.cobId.getD 0

/-! ## Construction -/

def pdoCobRaw (cobId : UInt16) (enabled : Bool) : UInt32 :=
  cobId.toUInt32 ||| if enabled then 0 else 0x80000000

/-- Mirror the resolved COB-IDs into the communication records; a refused write is
ignored. -/
def writeCobs (od : OD) (base : UInt16) : ℕ → List (UInt16 × UInt16 × Bool) → OD
  | _, [] => od
  | n, (odNumber, cobId, enabled) :: rest =>
    writeCobs (ObjectDictionary.write od (base + pdoOdOffset odNumber n) 1
      (leBytes32 (pdoCobRaw cobId enabled))).2 base (n + 1) rest

/-- Number, COB-ID and enabled flag of the declared transmit PDOs. -/
def tpdoCobs (n : Node OD evt dirty) : List (UInt16 × UInt16 × Bool) :=
  n.tpdo.slots.map fun s => (s.config.odNumber, s.config.cobId, s.config.enabled)

/-- Number, COB-ID and enabled flag of the declared receive PDOs. -/
def rpdoCobs (n : Node OD evt dirty) : List (UInt16 × UInt16 × Bool) :=
  n.rpdo.slots.map fun s => (s.config.odNumber, s.config.cobId, s.config.enabled)

def writePdoCobIdsToOd (n : Node OD evt dirty) : Node OD evt dirty :=
  { n with od := writeCobs (writeCobs n.od 0x1800 0 n.tpdoCobs) 0x1400 0 n.rpdoCobs }

/-- The node before its configuration is taken from the dictionary. -/
def initial (config : NodeConfig) (od : OD) : Node OD evt dirty where
  nodeId := config.nodeId
  od := od
  nmt := .new
  sdo := .new (CobId.sdoRx config.nodeId) (CobId.sdoTx config.nodeId) ::
    config.sdoServers.map fun s => .new s.cobRx s.cobTx
  tpdo := .new config.tpdo
  rpdo := .new config.rpdo
  sync := .new syncCobIdDefault
  syncProducer := .new
  syncWindow := .new
  pendingSyncTpdo := []
  syncTpdoLastAttemptUs := none
  heartbeat := .new config.nodeId config.heartbeatIntervalMs
  hbMonitors := List.replicate maxHeartbeatMonitors none
  hbEventQueue := .empty
  emcy := .new config.nodeId
  lss := .new config.identity config.nodeId.raw
  booted := false
  autoStart := config.autoStart
  eventQueue := .empty
  dirtySet := []
  eventOverflowCount := 0
  resetEvent := none

/-- The configuration taken from the dictionary at construction. -/
def configured (config : NodeConfig) (od : OD) : Option (Node OD evt dirty) :=
  let n : Node OD evt dirty := (initial config od).writePdoCobIdsToOd
  let od := ObjectDictionary.storeErrorRegister
    (ObjectDictionary.storeSdoServerCobIds n.od config.nodeId) n.emcy.errorRegister
  ({ n with od := od }.syncHeartbeatFromOd false).syncConfigFromOd

/-- Build a node; `none` where the source panics. -/
def new (config : NodeConfig) (od : OD) : Option (Node OD evt dirty) := do
  let n ← configured config od
  if n.sdoCobIdsAreUnique && n.syncCobIdIsUnique then return n else none

end Node

/-- A 32-bit field of the identity object, 0 when the dictionary has none. -/
def identitySub (od : OD) (sub : UInt8) : UInt32 :=
  match ObjectDictionary.read od 0x1018 sub (FixedBuffer.filled 8 0) with
  | (.ok len, buf) => if len.1 = 4 then word32 buf.cells else 0
  | (.error _, _) => 0

/-- The configuration a generated dictionary describes, with the default heartbeat of
one second and no auto-start. -/
def NodeConfig.fromOd (od : Derive.GeneratedOd) (nodeId : NodeId) : NodeConfig where
  nodeId := nodeId
  heartbeatIntervalMs := 1000
  autoStart := false
  tpdo := od.fields.tpdoConfigs nodeId
  rpdo := od.fields.rpdoConfigs nodeId
  sdoServers := od.fields.sdoServers.map fun s =>
    ⟨s.decl.cobRx.resolve nodeId, s.decl.cobTx.resolve nodeId⟩
  identity := ⟨identitySub od 1, identitySub od 2, identitySub od 3, identitySub od 4⟩

end Canopen
