import Canopen.Nmt

/-!
# Heartbeat

The heartbeat producer and the monitors of remote heartbeats (`heartbeat.rs`).
-/

namespace Canopen

structure HeartbeatProducer where
  nodeId : NodeId
  intervalUs : UInt64
  lastSentUs : UInt64
  deriving DecidableEq, Repr

namespace HeartbeatProducer

def new (nodeId : NodeId) (intervalMs : UInt16) : HeartbeatProducer :=
  ⟨nodeId, intervalMs.toUInt64 * 1000, 0⟩

/-- An interval of 0 disables the heartbeat. -/
def setIntervalMs (p : HeartbeatProducer) (ms : UInt16) : HeartbeatProducer :=
  { p with intervalUs := ms.toUInt64 * 1000 }

def stateFrame (p : HeartbeatProducer) (state : NmtState) : CanFrame :=
  ⟨CobId.heartbeat p.nodeId, [state.heartbeatByte], CobId.heartbeat_le _, by simp⟩

/-- The heartbeat that is due, if any. -/
def pending (p : HeartbeatProducer) (nowUs : UInt64) (state : NmtState) : Option CanFrame :=
  if p.intervalUs = 0 then none
  else if p.intervalUs ≤ nowUs - p.lastSentUs then some (p.stateFrame state)
  else none

def confirmSent (p : HeartbeatProducer) (nowUs : UInt64) : HeartbeatProducer :=
  { p with lastSentUs := nowUs }

def sendBoot (p : HeartbeatProducer) (nowUs : UInt64) : HeartbeatProducer × CanFrame :=
  (p.confirmSent nowUs, p.stateFrame .initializing)

end HeartbeatProducer

/-- Lifecycle of a monitored producer. A disabled entry has no monitor. -/
inductive HeartbeatMonitorState
  | disabled
  | waiting
  | alive (nmtState : NmtState) (lastSeenUs : UInt64)
  | timeout (lastNmtState : NmtState) (lastSeenUs timedOutUs : UInt64)
  deriving DecidableEq, Repr

inductive HeartbeatEvent
  | started (node : NodeId) (state : NmtState)
  | stateChanged (node : NodeId) (old new : NmtState)
  | remoteReset (node : NodeId)
  | timeout (node : NodeId)
  | recovered (node : NodeId) (state : NmtState)
  deriving DecidableEq, Repr

/-- Monitor of one remote node, one entry of 0x1016. -/
structure HeartbeatMonitor where
  nodeId : NodeId
  timeoutMs : UInt16
  state : HeartbeatMonitorState
  deriving DecidableEq, Repr

namespace HeartbeatMonitor

def new (nodeId : NodeId) (timeoutMs : UInt16) : HeartbeatMonitor := ⟨nodeId, timeoutMs, .waiting⟩

/-- The events a state report causes, given the monitor's state. -/
def reported (m : HeartbeatMonitor) (newState : NmtState) : List HeartbeatEvent :=
  match m.state with
  | .disabled | .waiting => [.started m.nodeId newState]
  | .alive old _ =>
    if newState ≠ old then
      .stateChanged m.nodeId old newState ::
        if newState = .initializing then [.remoteReset m.nodeId] else []
    else []
  | .timeout last _ _ =>
    .recovered m.nodeId newState ::
      if newState = .initializing ∧ last ≠ .initializing then [.remoteReset m.nodeId] else []

/-- Feed a received heartbeat. Frames of other nodes and unknown state bytes are ignored. -/
def process (m : HeartbeatMonitor) (node : NodeId) (stateByte : UInt8) (nowUs : UInt64) :
    HeartbeatMonitor × List HeartbeatEvent :=
  if node ≠ m.nodeId then (m, [])
  else
    match NmtState.fromHeartbeatByte stateByte with
    | none => (m, [])
    | some newState => ({ m with state := .alive newState nowUs }, m.reported newState)

/-- The timeout event on the edge from alive to timed out. -/
def checkTimeout (m : HeartbeatMonitor) (nowUs : UInt64) :
    HeartbeatMonitor × Option HeartbeatEvent :=
  match m.state with
  | .alive nmtState lastSeenUs =>
    if m.timeoutMs ≠ 0 ∧ m.timeoutMs.toUInt64 * 1000 < nowUs - lastSeenUs then
      ({ m with state := .timeout nmtState lastSeenUs nowUs }, some (.timeout m.nodeId))
    else (m, none)
  | _ => (m, none)

theorem process_config (m : HeartbeatMonitor) (node : NodeId) (stateByte : UInt8) (nowUs : UInt64) :
    (m.process node stateByte nowUs).1.nodeId = m.nodeId ∧
      (m.process node stateByte nowUs).1.timeoutMs = m.timeoutMs := by
  unfold process
  split_ifs
  · exact ⟨rfl, rfl⟩
  · split <;> exact ⟨rfl, rfl⟩

theorem checkTimeout_config (m : HeartbeatMonitor) (nowUs : UInt64) :
    (m.checkTimeout nowUs).1.nodeId = m.nodeId ∧
      (m.checkTimeout nowUs).1.timeoutMs = m.timeoutMs := by
  unfold checkTimeout
  split
  · split_ifs <;> exact ⟨rfl, rfl⟩
  · exact ⟨rfl, rfl⟩

end HeartbeatMonitor
end Canopen
