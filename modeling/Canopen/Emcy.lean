import Canopen.Lib.Deque
import Canopen.Lib.LittleEndian
import Canopen.Transport

/-!
# Emergency producer

The error register and the queue of emergency frames (`emcy.rs`).
-/

namespace Canopen

open LittleEndian

/-- `error_register::GENERIC`, set together with every other category. -/
def errorGeneric : UInt8 := 1

def buildEmcyFrame (nodeId : NodeId) (errorCode : UInt16) (errorRegister : UInt8)
    (vendorData : List UInt8) : CanFrame where
  id := CobId.emergency nodeId
  data := leBytes16 errorCode ++ errorRegister ::
    (vendorData.take 5 ++ List.replicate (5 - (vendorData.take 5).length) 0)
  id_le := CobId.emergency_le nodeId
  length_le := by simp [leBytes16]

structure EmcyProducer where
  nodeId : NodeId
  errorRegister : UInt8
  pending : Deque CanFrame 4
  dropped : UInt32
  deriving DecidableEq, Repr

namespace EmcyProducer

def new (nodeId : NodeId) : EmcyProducer := ⟨nodeId, 0, .empty, 0⟩

/-- Queue an announcement; a full queue loses its oldest frame and counts it. -/
def queue (p : EmcyProducer) (frame : CanFrame) : EmcyProducer :=
  { p with
    pending := p.pending.pushEvict frame
    dropped := if p.pending.isFull then UInt32.ofNat (min (p.dropped.toNat + 1) 0xFFFFFFFF)
      else p.dropped }

def setError (p : EmcyProducer) (errorCode : UInt16) (registerBits : UInt8)
    (vendorData : List UInt8) : EmcyProducer :=
  let register := p.errorRegister ||| (registerBits ||| errorGeneric)
  { p with errorRegister := register }.queue
    (buildEmcyFrame p.nodeId errorCode register vendorData)

/-- GENERIC goes with the last category and stays while another one is active. -/
def clearError (p : EmcyProducer) (registerBits : UInt8) : EmcyProducer :=
  let before := p.errorRegister
  let clearedCategories := before &&& registerBits &&& ~~~errorGeneric
  let rest := before &&& ~~~registerBits
  let register :=
    if rest &&& ~~~errorGeneric ≠ 0 then rest ||| errorGeneric
    else if clearedCategories ≠ 0 then 0
    else rest
  let p' := { p with errorRegister := register }
  if before ≠ 0 ∧ register = 0 then p'.queue (buildEmcyFrame p.nodeId 0 0 []) else p'

def clearAll (p : EmcyProducer) : EmcyProducer :=
  { p with errorRegister := 0 }.queue (buildEmcyFrame p.nodeId 0 0 [])

def peekPending (p : EmcyProducer) : Option CanFrame := p.pending.items.head?

def takePending (p : EmcyProducer) : EmcyProducer := { p with pending := p.pending.popFront }

end EmcyProducer
end Canopen
