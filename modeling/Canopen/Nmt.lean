import Canopen.Transport

/-!
# Network management

The NMT state machine of `nmt.rs`: the four states, the five commands of the
master and the transition each command causes.
-/

namespace Canopen

inductive NmtState
  | initializing
  | preOperational
  | operational
  | stopped
  deriving DecidableEq, Repr

namespace NmtState

def heartbeatByte : NmtState → UInt8
  | .initializing => 0x00
  | .stopped => 0x04
  | .operational => 0x05
  | .preOperational => 0x7F

def fromHeartbeatByte (byte : UInt8) : Option NmtState :=
  if byte = 0x00 then some .initializing
  else if byte = 0x04 then some .stopped
  else if byte = 0x05 then some .operational
  else if byte = 0x7F then some .preOperational
  else none

/-- SDO and EMCY services are available in these states only. -/
def servesSdo : NmtState → Bool
  | .preOperational => true
  | .operational => true
  | _ => false

end NmtState

inductive NmtCommand
  | startRemoteNode
  | stopRemoteNode
  | enterPreOperational
  | resetNode
  | resetCommunication
  deriving DecidableEq, Repr

def NmtCommand.fromByte (b : UInt8) : Option NmtCommand :=
  if b = 0x01 then some .startRemoteNode
  else if b = 0x02 then some .stopRemoteNode
  else if b = 0x80 then some .enterPreOperational
  else if b = 0x81 then some .resetNode
  else if b = 0x82 then some .resetCommunication
  else none

/-- What the node has to do after a command. -/
inductive NmtTransition
  | none
  | stateChanged
  | resetApplication
  | resetCommunication
  deriving DecidableEq, Repr

structure NmtHandler where
  state : NmtState
  deriving DecidableEq, Repr

namespace NmtHandler

def new : NmtHandler := ⟨.initializing⟩

def bootComplete (_ : NmtHandler) : NmtHandler := ⟨.preOperational⟩

def newState : NmtCommand → NmtState
  | .startRemoteNode => .operational
  | .stopRemoteNode => .stopped
  | .enterPreOperational => .preOperational
  | .resetNode | .resetCommunication => .initializing

/-- Initialization ends through `bootComplete`, not through a command: while
Initializing only a Reset Node is still honoured. -/
def processCommand (h : NmtHandler) (cmd : NmtCommand) (target : UInt8) (ourNode : NodeId) :
    NmtHandler × NmtTransition :=
  if target ≠ 0 ∧ target ≠ ourNode.raw then (h, .none)
  else if h.state = .initializing then
    match cmd with
    | .resetNode => (h, .resetApplication)
    | _ => (h, .none)
  else if h.state = newState cmd then (h, .none)
  else
    (⟨newState cmd⟩,
      match cmd with
      | .resetNode => .resetApplication
      | .resetCommunication => .resetCommunication
      | _ => .stateChanged)

/-- Everything a command can do, by the transition it reports. -/
theorem processCommand_cases (h : NmtHandler) (cmd : NmtCommand) (target : UInt8)
    (ourNode : NodeId) :
    (h.processCommand cmd target ourNode = (h, .none)) ∨
    (∃ s, s ≠ .initializing ∧ s ≠ h.state ∧ h.state ≠ .initializing ∧ s = newState cmd ∧
      h.processCommand cmd target ourNode = (⟨s⟩, .stateChanged)) ∨
    (h.processCommand cmd target ourNode = (⟨.initializing⟩, .resetApplication)) ∨
    (h.processCommand cmd target ourNode = (⟨.initializing⟩, .resetCommunication)) := by
  unfold processCommand
  by_cases ht : target ≠ 0 ∧ target ≠ ourNode.raw
  · simp [ht]
  by_cases hi : h.state = .initializing
  · have hh : h = ⟨.initializing⟩ := by cases h; simp_all
    cases cmd <;> simp [ht, hh]
  by_cases hs : h.state = newState cmd
  · simp [ht, hs, newState] at hi ⊢
    simp [hi]
  · have hs' : newState cmd ≠ h.state := fun e => hs e.symm
    rw [if_neg ht, if_neg hi, if_neg hs]
    cases cmd <;> simp_all [newState]

theorem processCommand_initializing {h : NmtHandler} (hi : h.state = .initializing)
    {cmd : NmtCommand} (hc : cmd ≠ .resetNode) (target : UInt8) (ourNode : NodeId) :
    h.processCommand cmd target ourNode = (h, .none) := by
  unfold processCommand
  by_cases ht : target ≠ 0 ∧ target ≠ ourNode.raw
  · simp [ht]
  · cases cmd <;> simp_all

end NmtHandler
end Canopen
