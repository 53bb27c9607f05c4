import Canopen.Node.Config

/-!
# Processing

One call of `process` and the other calls an application makes (`node.rs`): boot,
frame dispatch, the transmit stages in their order, resets, and the recording of
application events. A result of `none` is a panic of the source.
-/

namespace Canopen

open LittleEndian Pdo Sdo

variable {OD : Type} [ObjectDictionary OD] {evt dirty : ℕ}

/-- Types 0, 254 and 255 react to application events. -/
def Pdo.TpdoSlot.takesEvents (slot : TpdoSlot) : Bool :=
  slot.config.enabled && (slot.config.transmissionType == 0 ||
    slot.config.transmissionType == 254 || slot.config.transmissionType == 255)

/-- The recorded addresses that latch an event in one of the selected slots. -/
def latchObs (selected : TpdoSlot → Bool) (dirtySet : List (UInt16 × UInt8))
    (slots : List TpdoSlot) : List Obs :=
  slots.zipIdx.filterMap fun (slot, i) =>
    if selected slot then (dirtySet.find? slot.maps).map fun addr => .latched i (.changed addr)
    else none

/-- The frames a SYNC pulse applies, in slot order. -/
def appliedObs (slots : List RpdoSlot) : List Obs :=
  slots.zipIdx.filterMap fun (slot, i) => slot.pending.map fun frame => .rpdoApplied i frame

/-- The responses given up when the transfers of all channels are aborted. -/
def abortObs (sdo : List SdoChannel) : List Obs :=
  (sdo.zipIdx.map fun (ch, i) => ch.discards i .stopOrReset ch.server.abortTransfer).flatten

/-- The synchronous acyclic PDOs that are due on a SYNC pulse. -/
def sampledObs (slots : List TpdoSlot) : List Obs :=
  slots.zipIdx.filterMap fun (slot, i) =>
    if slot.config.enabled && slot.config.transmissionType == 0 && slot.syncEventPending then
      some (.eventSampled i)
    else none

namespace Node

def pushHeartbeatEvent (n : Node OD evt dirty) (e : HeartbeatEvent) : Node OD evt dirty :=
  { n with
    hbEventQueue := n.hbEventQueue.pushEvict e
    eventOverflowCount := if n.hbEventQueue.isFull then Counter.saturatingAdd n.eventOverflowCount 1
      else n.eventOverflowCount }

/-- Append to the event queue, counting an evicted one. -/
def pushEvent (n : Node OD evt dirty) (e : OdEvent) : Node OD evt dirty :=
  { n with
    eventQueue := n.eventQueue.pushEvict e
    eventOverflowCount := if n.eventQueue.isFull then Counter.saturatingAdd n.eventOverflowCount 1
      else n.eventOverflowCount }

/-- The additional SDO server a frame is addressed to. -/
def extraChannel (n : Node OD evt dirty) (frame : CanFrame) : Option ℕ :=
  (n.sdo.tail.findIdx? (·.cobRx == frame.id)).map (· + 1)

def monitorFor (n : Node OD evt dirty) (frame : CanFrame) : Option (ℕ × HeartbeatMonitor) :=
  if frame.rawDlc = 1 then
    n.hbMonitors.zipIdx.findSome? fun (monitor, i) =>
      monitor.bind fun m => if CobId.heartbeat m.nodeId = frame.id then some (i, m) else none
  else none

end Node

namespace Machine

/-! ## Resets and NMT commands -/

def abortAllSdoTransfers (m : Machine OD evt dirty) : Machine OD evt dirty :=
  ⟨{ m.node with sdo := m.node.sdo.map SdoChannel.abort },
    m.bus.log (abortObs m.node.sdo)⟩

/-- Re-initialise communication. The NMT state is set by the caller. -/
def reset (m : Machine OD evt dirty) (resetType : ResetType) : Option (Machine OD evt dirty) :=
  let m := { m with node := { m.node with resetEvent := some resetType, booted := false } }
  let m := m.abortAllSdoTransfers
  (m.node.syncPdoFromOd.syncHeartbeatFromOd false).resetSyncState.map fun node =>
    { m with node := node }.log [.reset resetType]

def requestReset (m : Machine OD evt dirty) (resetType : ResetType) :
    Option (Machine OD evt dirty) :=
  { m with node := { m.node with nmt := .new } }.reset resetType

/-- Record a change of the NMT state. -/
def setNmt (m : Machine OD evt dirty) (nmt : NmtHandler) : Machine OD evt dirty :=
  { m with node := { m.node with nmt := nmt } }.log
    [.nmt m.state nmt.state (m.node.sdo.any SdoChannel.pdoDownload)]

/-- Work is discarded at the transition, before the next frame of the same batch. -/
def stateChanged (m : Machine OD evt dirty) (nmt : NmtHandler) : Machine OD evt dirty :=
  let m := m.setNmt nmt
  if nmt.state = .operational then m
  else
    let m := { m with node := m.node.leaveOperational }
    if nmt.state = .stopped then m.abortAllSdoTransfers else m

def nmtCommand (m : Machine OD evt dirty) (cmd : NmtCommand) (target : UInt8) :
    Option (Machine OD evt dirty) :=
  match m.node.nmt.processCommand cmd target m.node.nodeId with
  | (_, .none) => some m
  | (nmt, .stateChanged) => some (m.stateChanged nmt)
  | (nmt, .resetApplication) =>
    { m with node := { m.node with nmt := nmt } }.reset .application
  | (nmt, .resetCommunication) =>
    { m with node := { m.node with nmt := nmt } }.reset .communication

/-! ## SDO requests -/

def answerRequest (m : Machine OD evt dirty) (i : ℕ) (ch : SdoChannel) (request : SdoFrame)
    (nowUs : UInt64) : Machine OD evt dirty × Option (UInt16 × UInt8) :=
  let n := m.node
  let r := SdoState.processWithContext ⟨ch.server, n.od, n.eventQueue, []⟩ request
    (n.sdoContext nowUs)
  let s := r.1
  let committed := s.server.committedWrite
  let discarded := if request.b0 = 0x80 then ch.discards i .clientAbort s.server else []
  let ch := { ch with
    server := s.server.takeCommittedWrite.1
    pending := if request.b0 = 0x80 then none else ch.pending }
  let bus := m.bus.log (.sdoRequest i request nowUs :: discarded ++
    s.writes.map fun w => .odWrite (.sdo i) w m.state)
  let (ch, bus) := match r.2 with
    | some data =>
      (ch.queue data nowUs).trySend m.state i (bus.log [.sdoProduced i data nowUs])
    | none => (ch, bus)
  (⟨{ n with
      od := s.od
      eventQueue := s.events
      eventOverflowCount := if n.eventQueue.isFull && committed.isSome then
        Counter.saturatingAdd n.eventOverflowCount 1 else n.eventOverflowCount
      sdo := n.sdo.set i ch }, bus⟩, committed)

/-- Re-read what a committed download concerns. -/
def resync (m : Machine OD evt dirty) (committed : Option (UInt16 × UInt8)) :
    Option (Machine OD evt dirty) :=
  match committed with
  | some (index, _) => (m.node.resyncAfter index).map fun node => { m with node := node }
  | none => some m

/-- A request of a client. While a response is pending only an abort is served. -/
def handleSdoRequest (m : Machine OD evt dirty) (i : ℕ) (frame : CanFrame) (nowUs : UInt64) :
    Option (Machine OD evt dirty) :=
  match m.node.sdo[i]? with
  | none => some m
  | some ch =>
    let request := SdoFrame.ofData frame.data
    if !m.state.servesSdo || frame.rawDlc != 8 then some m
    else if request.b0 != 0x80 && ch.pending.isSome then some m
    else
      let r := m.answerRequest i ch request nowUs
      r.1.resync r.2

/-! ## PDOs -/

/-- Record received PDO data and commit it to the dictionary. -/
def commitRpdo (m : Machine OD evt dirty) (slots : List RpdoSlot) (s : RpdoState OD evt)
    (obs : List Obs) : Machine OD evt dirty :=
  ⟨{ m.node with
      od := s.od
      eventQueue := s.events
      eventOverflowCount := Counter.saturatingAdd m.node.eventOverflowCount s.dropped
      rpdo := { m.node.rpdo with slots := slots } },
    m.bus.log (obs ++ s.writes.map fun w => .odWrite .rpdo w m.state)⟩

/-- The dictionary and the event queue as receive PDOs see them. -/
def rpdoState (m : Machine OD evt dirty) : RpdoState OD evt :=
  ⟨m.node.od, m.node.eventQueue, 0, []⟩

def setRpdo (m : Machine OD evt dirty) (rpdo : RpdoEngine) (obs : List Obs) :
    Machine OD evt dirty :=
  { m with node := { m.node with rpdo := rpdo } }.log obs

/-- A frame of a slot: too short, buffered for the next SYNC, or applied. -/
def receiveRpdo (m : Machine OD evt dirty) (i : ℕ) (slot : RpdoSlot) (frame : CanFrame)
    (nowUs : UInt64) : Machine OD evt dirty :=
  let rpdo := m.node.rpdo
  if !slot.longEnough frame then
    m.setRpdo { rpdo with lengthErrors := Counter.saturatingAdd rpdo.lengthErrors 1 } []
  else if rawIsSynchronous slot.config.transmissionType then
    m.setRpdo (rpdo.setSlot i { slot.stamped nowUs with pending := some frame })
      [.rpdoReceived i frame]
  else
    m.commitRpdo (m.node.rpdo.slots.set i (slot.stamped nowUs))
      (applyMapped frame.data slot.config.mappings 0 m.rpdoState)
      [.rpdoReceived i frame, .rpdoApplied i frame]

def processRpdoFrame (m : Machine OD evt dirty) (frame : CanFrame) (nowUs : UInt64) :
    Machine OD evt dirty :=
  if m.state = .operational then
    match m.node.rpdo.slotFor frame with
    | none => m
    | some i =>
      match m.node.rpdo.slots[i]? with
      | some slot => m.receiveRpdo i slot frame nowUs
      | none => m
  else m

/-- Buffered receive PDOs are committed first, so that the sampled transmit PDOs show
the state after the pulse. -/
def applyPulse (m : Machine OD evt dirty) : Machine OD evt dirty :=
  let r := RpdoEngine.onSync m.node.rpdo.slots m.rpdoState
  m.commitRpdo r.1 r.2 (appliedObs m.node.rpdo.slots)

/-- Sample the synchronous transmit PDOs and offer them. -/
def sendPulse (m : Machine OD evt dirty) (nowUs : UInt64) : Machine OD evt dirty :=
  let r := m.node.tpdo.onSync m.node.od
  let t := Bus.transmitAll m.state .syncTpdo r.2
    (m.bus.log (sampledObs m.node.tpdo.slots ++ [.pulse r.2]))
  ⟨{ m.node with
      tpdo := r.1
      syncWindow := m.node.syncWindow.open nowUs
      pendingSyncTpdo := t.1
      syncTpdoLastAttemptUs := if t.1.isEmpty then none else some nowUs }, t.2⟩

def handleSync (m : Machine OD evt dirty) (nowUs : UInt64) : Machine OD evt dirty :=
  if m.state = .operational then m.applyPulse.sendPulse nowUs else m

/-- Retry refused synchronous PDOs inside the window, once per instant. -/
def retryPendingSyncTpdo (m : Machine OD evt dirty) (nowUs : UInt64) : Machine OD evt dirty :=
  let n := m.node
  if n.pendingSyncTpdo.isEmpty then m
  else if m.state ≠ .operational ∨ !n.syncWindow.allowsTransmit nowUs then
    { m with node := { n with pendingSyncTpdo := [], syncTpdoLastAttemptUs := none } }
  else if n.syncTpdoLastAttemptUs = some nowUs then m
  else
    let t := Bus.transmitAll m.state .syncTpdo n.pendingSyncTpdo m.bus
    ⟨{ n with
        pendingSyncTpdo := t.1
        syncTpdoLastAttemptUs := if t.1.isEmpty then none else some nowUs }, t.2⟩

/-- Offer a due event-driven PDO; the observation says whether an event triggered it. -/
def acceptTpdo (state : NmtState) (i : ℕ) (slot : TpdoSlot) (frame : CanFrame) (b : Bus) :
    Bool × Bus :=
  let (result, b) := b.transmit state (.eventTpdo i slot.asyncEventPending) frame
  (result == .accepted, b)

/-- Event timers and application events of the event-driven PDOs. -/
def pollTpdo (m : Machine OD evt dirty) (nowUs : UInt64) : Machine OD evt dirty :=
  if m.state = .operational then
    let n := m.node
    let r := TpdoEngine.pollWith n.od nowUs n.dirtySet (acceptTpdo m.state) 0 n.tpdo.slots
      (m.bus.log (latchObs TpdoSlot.isEventDriven n.dirtySet n.tpdo.slots))
    ⟨{ n with tpdo := ⟨r.1⟩ }, r.2⟩
  else m

/-- Keep the events of synchronous acyclic PDOs beyond the end of the call. -/
def latchSyncEvents (m : Machine OD evt dirty) : Machine OD evt dirty :=
  { m with node := { m.node with tpdo := m.node.tpdo.latchSyncEvents m.node.dirtySet } }.log
    (latchObs (fun slot => slot.config.enabled && slot.config.transmissionType == 0)
      m.node.dirtySet m.node.tpdo.slots)

def clearDirty (m : Machine OD evt dirty) : Machine OD evt dirty :=
  { m with node := { m.node with dirtySet := [] } }

/-! ## The other services -/

/-- The boot-up frame. A full transmit queue postpones the boot to the next call. -/
def boot (m : Machine OD evt dirty) (nowUs : UInt64) : Machine OD evt dirty × Bool :=
  if m.node.booted then (m, true)
  else
    let (heartbeat, frame) := m.node.heartbeat.sendBoot nowUs
    let (result, bus) := m.bus.transmit m.state .bootUp frame
    let n := { m.node with heartbeat := heartbeat }
    if result = .wouldBlock then (⟨n, bus⟩, false)
    else
      let m : Machine OD evt dirty := ⟨{ n with booted := true }, bus⟩
      let nmt := n.nmt.bootComplete
      (m.setNmt (if n.autoStart then (nmt.processCommand .startRemoteNode 0 n.nodeId).1 else nmt),
        true)

def lssRequest (m : Machine OD evt dirty) (frame : CanFrame) : Machine OD evt dirty :=
  let (lss, response) := m.node.lss.process frame
  let n := { m.node with lss := lss }
  match response with
  | some frame => ⟨n, (m.bus.transmit m.state .lss frame).2⟩
  | none => ⟨n, m.bus⟩

def heartbeatFrame (m : Machine OD evt dirty) (i : ℕ) (monitor : HeartbeatMonitor)
    (frame : CanFrame) (nowUs : UInt64) : Machine OD evt dirty :=
  let (monitor, events) := monitor.process monitor.nodeId (frame.data.getD 0 0) nowUs
  let n := { m.node with hbMonitors := m.node.hbMonitors.set i (some monitor) }
  { m with node := events.foldl Node.pushHeartbeatEvent n }

/-- Produce a due SYNC. The local pulse happens only when the transport took the frame. -/
def produceSync (m : Machine OD evt dirty) (nowUs : UInt64) : Machine OD evt dirty :=
  if m.node.booted && m.state != .stopped then
    let (producer, frame) := m.node.syncProducer.poll nowUs
    let n := { m.node with syncProducer := producer }
    match frame with
    | some frame =>
      let (result, bus) := m.bus.transmit m.state .sync frame
      if result = .accepted then
        (⟨{ n with syncProducer := producer.confirmSent nowUs }, bus⟩ :
          Machine OD evt dirty).handleSync nowUs
      else ⟨n, bus⟩
    | none => ⟨n, m.bus⟩
  else m

/-- Report the overdue receive PDOs; outside Operational discard all PDO work. -/
def checkDeadlines (m : Machine OD evt dirty) (nowUs : UInt64) : Machine OD evt dirty :=
  if m.state = .operational then
    let overdue := m.node.rpdo.overdueSlots nowUs
    let n := { m.node with rpdo := m.node.rpdo.checkDeadlines nowUs }
    let numbers := overdue.filterMap fun (i, config) => RpdoEngine.reportedNumber i config
    let n := numbers.foldl
      (fun n number => n.pushEvent ⟨0x1400 + (number - 1), 0, .rpdoDeadline⟩) n
    (⟨n, m.bus⟩ : Machine OD evt dirty).log (overdue.map fun p => .deadlineExpired p.1)
  else { m with node := m.node.leaveOperational }

def sendHeartbeat (m : Machine OD evt dirty) (nowUs : UInt64) : Machine OD evt dirty :=
  if m.node.booted then
    match m.node.heartbeat.pending nowUs m.state with
    | some frame =>
      let (result, bus) := m.bus.transmit m.state .heartbeat frame
      if result = .accepted then
        ⟨{ m.node with heartbeat := m.node.heartbeat.confirmSent nowUs }, bus⟩
      else ⟨m.node, bus⟩
    | none => m
  else m

/-- Consumer timeouts are active in every state after boot. -/
def checkHeartbeats (m : Machine OD evt dirty) (nowUs : UInt64) : Machine OD evt dirty :=
  let checked := m.node.hbMonitors.map (·.map (·.checkTimeout nowUs))
  let n := { m.node with hbMonitors := checked.map (·.map (·.1)) }
  { m with node := (checked.filterMap fun r => r.bind (·.2)).foldl Node.pushHeartbeatEvent n }

/-- Offer the queued emergencies until one is refused. -/
def sendEmcys : ℕ → Machine OD evt dirty → Machine OD evt dirty
  | 0, m => m
  | k + 1, m =>
    match m.node.emcy.peekPending with
    | some frame =>
      let (result, bus) := m.bus.transmit m.state .emcy frame
      if result = .accepted then
        sendEmcys k ⟨{ m.node with emcy := m.node.emcy.takePending }, bus⟩
      else ⟨m.node, bus⟩
    | none => m

def sendEmcy (m : Machine OD evt dirty) : Machine OD evt dirty :=
  if m.node.booted && m.state.servesSdo then sendEmcys m.node.emcy.pending.items.length m else m

/-! ## Dispatch -/

/-- A SYNC frame. The COB-ID is node-owned even when the frame is malformed. -/
def syncFrame (m : Machine OD evt dirty) (frame : CanFrame) (nowUs : UInt64) :
    Machine OD evt dirty :=
  let (sync, counter) := m.node.sync.process frame
  let m := { m with node := { m.node with sync := sync } }
  if counter.isSome then m.handleSync nowUs else m

def nmtFrame (m : Machine OD evt dirty) (frame : CanFrame) : Option (Machine OD evt dirty) :=
  if frame.rawDlc = 2 then
    match NmtCommand.fromByte (frame.data.getD 0 0) with
    | some cmd => m.nmtCommand cmd (frame.data.getD 1 0)
    | none => some m
  else some m

/-- Route a received frame: additional SDO servers, SYNC, NMT, the default SDO server,
LSS, monitored heartbeats, receive PDOs. -/
def dispatchFrame (m : Machine OD evt dirty) (frame : CanFrame) (nowUs : UInt64) :
    Option (Machine OD evt dirty) :=
  match m.node.extraChannel frame with
  | some i => m.handleSdoRequest i frame nowUs
  | none =>
    if m.node.sync.cobId = some frame.id then some (m.syncFrame frame nowUs)
    else if frame.id = CobId.nmt then m.nmtFrame frame
    else if frame.id = CobId.sdoRx m.node.nodeId then m.handleSdoRequest 0 frame nowUs
    else if frame.id = lssRequestCob then some (m.lssRequest frame)
    else
      match m.node.monitorFor frame with
      | some (i, monitor) => some (m.heartbeatFrame i monitor frame nowUs)
      | none => some (m.processRpdoFrame frame nowUs)

/-- The stages after the received frames have been drained. -/
def transmitStages (m : Machine OD evt dirty) (nowUs : UInt64) : Machine OD evt dirty :=
  let m := m.onChannels (SdoChannel.service m.state nowUs)
  let m := m.produceSync nowUs
  let m := m.retryPendingSyncTpdo nowUs
  let m := m.checkDeadlines nowUs
  let m := m.sendHeartbeat nowUs
  let m := m.checkHeartbeats nowUs
  let m := m.sendEmcy
  let m := m.pollTpdo nowUs
  m.clearDirty

/-- The first half of a processing call: the SDO time-outs and then the frames `rx`. -/
def receive (m : Machine OD evt dirty) (nowUs : UInt64) (rx : List CanFrame) :
    Option (Machine OD evt dirty) :=
  rx.foldlM (fun m frame => m.dispatchFrame frame nowUs)
    (m.latchSyncEvents.onChannels (SdoChannel.beginPoll nowUs))

/-- One processing call at time `nowUs` that receives the frames `rx`. -/
def process (m : Machine OD evt dirty) (nowUs : UInt64) (rx : List CanFrame) :
    Option (Machine OD evt dirty) :=
  let (m, running) := m.boot nowUs
  if running then (m.receive nowUs rx).map (·.transmitStages nowUs) else some m

/-! ## Application calls -/

/-- Record a changed object. The dirty set is bounded; the latches are not. -/
def notifyChanged (m : Machine OD evt dirty) (index : UInt16) (subindex : UInt8) :
    Machine OD evt dirty :=
  let n := m.node
  { m with node := { n with
      tpdo := n.tpdo.notifyChanged index subindex
      dirtySet := if n.dirtySet.contains (index, subindex) || dirty ≤ n.dirtySet.length then
        n.dirtySet else n.dirtySet ++ [(index, subindex)] } }.log
    (.appEvent (.changed (index, subindex)) ::
      latchObs TpdoSlot.takesEvents [(index, subindex)] n.tpdo.slots)

/-- Keep 0x1001 equal to the error register; a change is an application event. -/
def mirrorErrorRegister (m : Machine OD evt dirty) : Machine OD evt dirty :=
  let value := m.node.emcy.errorRegister
  let changed := match ObjectDictionary.read m.node.od 0x1001 0 (FixedBuffer.filled 8 0) with
    | (.ok len, old) => !(len.1 == 1 && old.cells.getD 0 0 == value)
    | (.error _, _) => true
  let m := { m with node := { m.node with od := ObjectDictionary.storeErrorRegister m.node.od value } }
  if changed then m.notifyChanged 0x1001 0 else m

def setEmcy (m : Machine OD evt dirty) (emcy : EmcyProducer) : Machine OD evt dirty :=
  { m with node := { m.node with emcy := emcy } }.mirrorErrorRegister

/-- Whether a mapped object reads differently in two dictionaries. -/
def mappingChanged (old new : OD) (m : PdoMapping) : Bool :=
  let value (od : OD) : List UInt8 :=
    match ObjectDictionary.read od m.index m.subindex (FixedBuffer.filled 8 0) with
    | (.ok len, buf) => buf.front len
    | (.error _, _) => []
  value old != value new

/-- Change the dictionary through an `od_mut` guard. On drop every transmit PDO with a
changed mapped value gets an event. -/
def odMut (m : Machine OD evt dirty) (f : OD → OD) : Machine OD evt dirty :=
  let n := m.node
  let od := f n.od
  let changed (slot : TpdoSlot) : Bool := slot.config.mappings.any (mappingChanged n.od od)
  let hits := n.tpdo.slots.zipIdx.filter fun (slot, _) => changed slot
  { m with node := { n with
      od := od
      tpdo := ⟨n.tpdo.slots.map fun slot => if changed slot then slot.latchEvent else slot⟩ } }.log
    (hits.flatMap fun (slot, i) => Obs.appEvent (.odMut i) ::
      if TpdoSlot.takesEvents slot then [.latched i (.odMut i)] else [])

end Machine

/-! ## Runs -/

/-- The calls an application makes on its node. -/
inductive Call (OD : Type)
  | process (nowUs : UInt64) (rx : List CanFrame) (answers : List TxResult)
  | requestReset (resetType : ResetType)
  | notifyChanged (index : UInt16) (subindex : UInt8)
  | setError (errorCode : UInt16) (registerBits : UInt8) (vendorData : List UInt8)
  | clearError (registerBits : UInt8)
  | clearAllErrors
  | odMut (f : OD → OD)
  | nextEvent
  | nextHeartbeatEvent
  | takeResetEvent

namespace Machine

def call (m : Machine OD evt dirty) : Call OD → Option (Machine OD evt dirty)
  | .process nowUs rx answers => { m with bus := { m.bus with answers := answers } }.process nowUs rx
  | .requestReset resetType => m.requestReset resetType
  | .notifyChanged index subindex => some (m.notifyChanged index subindex)
  | .setError code bits data => some (m.setEmcy (m.node.emcy.setError code bits data))
  | .clearError bits => some (m.setEmcy (m.node.emcy.clearError bits))
  | .clearAllErrors => some (m.setEmcy m.node.emcy.clearAll)
  | .odMut f => some (m.odMut f)
  | .nextEvent => some { m with node := { m.node with eventQueue := m.node.eventQueue.popFront } }
  | .nextHeartbeatEvent =>
    some { m with node := { m.node with hbEventQueue := m.node.hbEventQueue.popFront } }
  | .takeResetEvent => some { m with node := { m.node with resetEvent := none } }

def run (m : Machine OD evt dirty) (calls : List (Call OD)) : Option (Machine OD evt dirty) :=
  calls.foldlM call m

def start (n : Node OD evt dirty) : Machine OD evt dirty := ⟨n, ⟨[], []⟩⟩

end Machine

/-- The states a node built as `n` passes through: between two calls, and between two
frames of a batch. -/
inductive Visited (n : Node OD evt dirty) : Machine OD evt dirty → Prop
  | between {calls : List (Call OD)} {m : Machine OD evt dirty}
    (h : (Machine.start n).run calls = some m) : Visited n m
  | batch {calls : List (Call OD)} {m m₁ m₂ : Machine OD evt dirty} {nowUs : UInt64}
    {rx : List CanFrame} {answers : List TxResult} (h : (Machine.start n).run calls = some m)
    (hboot : { m with bus := { m.bus with answers := answers } }.boot nowUs = (m₁, true))
    (hrx : m₁.receive nowUs rx = some m₂) : Visited n m₂

/-- A run of the small device of `Derive.sampleOd`. -/
def sampleRun (calls : List (Call Derive.GeneratedOd)) :
    Option (Machine Derive.GeneratedOd 4 4) := do
  let n ← Node.new (.fromOd Derive.sampleOd Derive.sampleNode) Derive.sampleOd
  (Machine.start n).run calls

theorem sampleRun_of_any {calls : List (Call Derive.GeneratedOd)}
    {p : Machine Derive.GeneratedOd 4 4 → Bool} (h : (sampleRun calls).any p = true) :
    ∃ n m, Node.new (.fromOd Derive.sampleOd Derive.sampleNode) Derive.sampleOd = some n ∧
      (Machine.start n).run calls = some m ∧ sampleRun calls = some m ∧ p m = true := by
  obtain ⟨m, hm, hp⟩ := (Option.any_eq_true p _).mp h
  have hbind := hm
  unfold sampleRun at hbind
  obtain ⟨n, hn, hr⟩ := Option.bind_eq_some_iff.mp hbind
  exact ⟨n, m, hn, hr, hm, hp⟩

end Canopen
