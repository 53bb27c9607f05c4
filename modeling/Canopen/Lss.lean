import Canopen.Lib.LittleEndian
import Canopen.Transport

/-!
# LSS slave

The layer setting services of `lss.rs`: global and selective mode switching, node
id configuration, store and identity inquiry.
-/

namespace Canopen

open LittleEndian

def lssRequestCob : UInt16 := 0x7E5

def lssResponseCob : UInt16 := 0x7E4

/-- Identity of a node (0x1018). -/
structure LssIdentity where
  vendorId : UInt32
  productCode : UInt32
  revision : UInt32
  serial : UInt32
  deriving DecidableEq, Repr

inductive LssMode
  | waiting
  | configuration
  deriving DecidableEq, Repr

inductive LssEvent
  | nodeIdConfigured (id : UInt8)
  | storeConfiguration
  deriving DecidableEq, Repr

structure LssSlave where
  identity : LssIdentity
  nodeId : UInt8
  mode : LssMode
  /-- Consecutive matching selection requests seen so far. -/
  selectiveStep : UInt8
  pendingEvent : Option LssEvent
  deriving DecidableEq, Repr

namespace LssSlave

def new (identity : LssIdentity) (nodeId : UInt8) : LssSlave := ⟨identity, nodeId, .waiting, 0, none⟩

/-- An eight-byte response starting with `data`. -/
def makeResponse (data : List UInt8) (h : data.length ≤ 8) : CanFrame where
  id := lssResponseCob
  data := data ++ List.replicate (8 - data.length) 0
  id_le := by decide
  length_le := by simp; omega

/-- Step of a selection request in the ordered sequence, and the value it has to carry. -/
def selection (s : LssSlave) (cmd : UInt8) : UInt8 × UInt32 :=
  if cmd = 0x40 then (0, s.identity.vendorId)
  else if cmd = 0x41 then (1, s.identity.productCode)
  else if cmd = 0x42 then (2, s.identity.revision)
  else (3, s.identity.serial)

/-- One selection request. A request out of order or with a foreign value restarts the
sequence. -/
def processSelection (s : LssSlave) (cmd : UInt8) (val : UInt32) : LssSlave × Option CanFrame :=
  let (step, expected) := s.selection cmd
  let current := if step = 0 then 0 else s.selectiveStep
  if current ≠ step ∨ val ≠ expected then ({ s with selectiveStep := 0 }, none)
  else if step < 3 then ({ s with selectiveStep := step + 1 }, none)
  else
    ({ s with selectiveStep := 0, mode := .configuration },
      some (makeResponse [0x44] (by simp)))

/-- Configure the node id; 0xFF stands for unconfigured. -/
def configureNodeId (s : LssSlave) (newId : UInt8) : LssSlave × Option CanFrame :=
  if (1 ≤ newId ∧ newId ≤ 127) ∨ newId = 0xFF then
    ({ s with nodeId := newId, pendingEvent := some (.nodeIdConfigured newId) },
      some (makeResponse [0x11, 0] (by simp)))
  else (s, some (makeResponse [0x11, 1] (by simp)))

/-- The reply to an inquiry for a 32-bit identity field. -/
def inquireReply (cmd : UInt8) (value : UInt32) : Option CanFrame :=
  some (makeResponse (cmd :: leBytes32 value) (by simp))

def process (s : LssSlave) (frame : CanFrame) : LssSlave × Option CanFrame :=
  if frame.id ≠ lssRequestCob ∨ frame.rawDlc < 8 then (s, none)
  else
    let data := frame.data
    let cmd := data.getD 0 0
    let configuring := s.mode = .configuration
    if cmd = 0x04 then
      if data.getD 1 0 = 0 then ({ s with mode := .waiting, selectiveStep := 0 }, none)
      else if data.getD 1 0 = 1 then ({ s with mode := .configuration }, none)
      else (s, none)
    else if 0x40 ≤ cmd ∧ cmd ≤ 0x43 ∧ s.mode = .waiting then
      s.processSelection cmd
        (ofLe32 (data.getD 1 0) (data.getD 2 0) (data.getD 3 0) (data.getD 4 0))
    else if cmd = 0x11 ∧ configuring then s.configureNodeId (data.getD 1 0)
    else if cmd = 0x17 ∧ configuring then
      ({ s with pendingEvent := some .storeConfiguration },
        some (makeResponse [0x17, 0] (by simp)))
    else if cmd = 0x5A ∧ configuring then (s, inquireReply cmd s.identity.vendorId)
    else if cmd = 0x5B ∧ configuring then (s, inquireReply cmd s.identity.productCode)
    else if cmd = 0x5C ∧ configuring then (s, inquireReply cmd s.identity.revision)
    else if cmd = 0x5D ∧ configuring then (s, inquireReply cmd s.identity.serial)
    else if cmd = 0x5E ∧ configuring then (s, some (makeResponse [cmd, s.nodeId] (by simp)))
    else (s, none)

end LssSlave
end Canopen
