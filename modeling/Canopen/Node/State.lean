import Canopen.Emcy
import Canopen.Heartbeat
import Canopen.Lss
import Canopen.Pdo.Engine
import Canopen.Sdo.Server

/-!
# Node state

The state of a node (`node.rs`), the transport as it appears to the node, and the
record of what the node does. A transport answers every frame it is offered; the
answers of one processing call are given in advance, and one that is missing
counts as accepted. The trace only observes: no definition of the node reads it.
-/

namespace Canopen

open Pdo Sdo

/-! ## Observations -/

/-- Answer of the transport to an offered frame: accepted, transmit queue full, or
another error. -/
inductive TxResult
  | accepted
  | wouldBlock
  | failed
  deriving DecidableEq, Repr

inductive ResetType
  | application
  | communication
  deriving DecidableEq, Repr

/-- The service an offered frame belongs to. Channel 0 is the default SDO server. -/
inductive FrameKind
  | bootUp
  | heartbeat
  | lss
  | sync
  | emcy
  | sdo (channel : ℕ)
  | syncTpdo
  | eventTpdo (slot : ℕ) (application : Bool)
  deriving DecidableEq, Repr

/-- Why a response that was not accepted yet is given up, and when a limit was reached. -/
inductive DiscardReason
  | clientAbort
  | stopOrReset
  | residence (nowUs : UInt64)
  | inactivity (nowUs : UInt64)
  deriving DecidableEq, Repr

/-- An application event for transmit PDOs: a changed object, or a PDO whose mapped
values an `od_mut` guard found changed. -/
inductive AppEvent
  | changed (addr : UInt16 × UInt8)
  | odMut (slot : ℕ)
  deriving DecidableEq, Repr

inductive WriteSource
  | sdo (channel : ℕ)
  | rpdo
  deriving DecidableEq, Repr

/-- What can be observed of a node. -/
inductive Obs
  /-- A frame is offered to the transport in the given state. -/
  | offer (kind : FrameKind) (frame : CanFrame) (result : TxResult) (state : NmtState)
  /-- The state changes, with or without a download of PDO parameters in progress. -/
  | nmt (old new : NmtState) (pdoDownload : Bool)
  | reset (resetType : ResetType)
  | sdoRequest (channel : ℕ) (request : SdoFrame) (nowUs : UInt64)
  | sdoProduced (channel : ℕ) (data : SdoFrame) (nowUs : UInt64)
  /-- A pending response is given up; `idle` when no transfer is left on the channel. -/
  | sdoDiscarded (channel : ℕ) (frame : CanFrame) (reason : DiscardReason) (idle : Bool)
  | odWrite (source : WriteSource) (write : OdWrite) (state : NmtState)
  | rpdoReceived (slot : ℕ) (frame : CanFrame)
  | rpdoApplied (slot : ℕ) (frame : CanFrame)
  | deadlineExpired (slot : ℕ)
  /-- A synchronous acyclic PDO is due on a SYNC pulse because of an application event. -/
  | eventSampled (slot : ℕ)
  /-- A SYNC pulse and the transmit PDOs sampled on it. -/
  | pulse (sampled : List CanFrame)
  | appEvent (event : AppEvent)
  /-- An application event is latched for a transmit PDO. -/
  | latched (slot : ℕ) (event : AppEvent)
  deriving DecidableEq, Repr

/-- No guarded object is written by a receive PDO. -/
def Obs.spares (guarded : UInt16 → UInt8 → Bool) : Obs → Bool
  | .odWrite .rpdo w _ => !guarded w.index w.subindex
  | _ => true

/-- The transport during one processing call, and what has been observed so far. -/
structure Bus where
  answers : List TxResult
  trace : List Obs
  deriving DecidableEq, Repr

namespace Bus

def log (b : Bus) (obs : List Obs) : Bus := { b with trace := b.trace ++ obs }

def transmit (b : Bus) (state : NmtState) (kind : FrameKind) (frame : CanFrame) : TxResult × Bus :=
  let result := b.answers.headD .accepted
  (result, ⟨b.answers.tail, b.trace ++ [.offer kind frame result state]⟩)

/-- Offer the frames in order and keep the refused ones. -/
def transmitAll (state : NmtState) (kind : FrameKind) : List CanFrame → Bus → List CanFrame × Bus
  | [], b => ([], b)
  | frame :: frames, b =>
    let (result, b) := b.transmit state kind frame
    let (refused, b) := transmitAll state kind frames b
    (if result = .accepted then refused else frame :: refused, b)

end Bus

/-! ## SDO channels -/

/-- An SDO server with its COB-IDs and its one pending response. The source keeps
the additional servers in parallel arrays. -/
structure SdoChannel where
  server : SdoServer
  /-- The response not accepted yet, and since when. -/
  pending : Option (CanFrame × UInt64)
  refusedThisPoll : Bool
  cobRx : UInt16
  cobTx : UInt16
  deriving DecidableEq, Repr

namespace SdoChannel

def new (cobRx cobTx : UInt16) : SdoChannel := ⟨.new, none, false, cobRx, cobTx⟩

def queue (ch : SdoChannel) (data : SdoFrame) (nowUs : UInt64) : SdoChannel :=
  { ch with pending := (CanFrame.new ch.cobTx data.toList).map (·, nowUs) }

/-- The observation that the pending response is given up. -/
def discards (i : ℕ) (ch : SdoChannel) (reason : DiscardReason) (server : SdoServer) : List Obs :=
  match ch.pending with
  | some (frame, _) => [.sdoDiscarded i frame reason server.transfer.isNone]
  | none => []

/-- Abort the transfer and forget the pending response. -/
def abort (ch : SdoChannel) : SdoChannel :=
  { ch with server := ch.server.abortTransfer, pending := none, refusedThisPoll := false }

/-- Expire stale work. A response that stayed too long is not replayed; an idle
transfer is aborted towards the client. -/
def beginPoll (nowUs : UInt64) (i : ℕ) (ch : SdoChannel) (b : Bus) : SdoChannel × Bus :=
  if ch.pending.any (fun p => sdoTimeoutUs ≤ nowUs - p.2) then
    (ch.abort, b.log (ch.discards i (.residence nowUs) ch.server.abortTransfer))
  else
    match ch.server.checkTimeout nowUs with
    | (server, some data) =>
      ({ ch with server := server, refusedThisPoll := false }.queue data nowUs,
        b.log (ch.discards i (.inactivity nowUs) server ++ [.sdoProduced i data nowUs]))
    | (server, none) => ({ ch with server := server, refusedThisPoll := false }, b)

/-- Offer the pending response, once per poll when it is refused. -/
def trySend (state : NmtState) (i : ℕ) (ch : SdoChannel) (b : Bus) : SdoChannel × Bus :=
  match ch.refusedThisPoll, ch.pending with
  | false, some (frame, _) =>
    let (result, b) := b.transmit state (.sdo i) frame
    (if result = .accepted then { ch with pending := none } else { ch with refusedThisPoll := true }, b)
  | _, _ => (ch, b)

/-- Take the next block upload segment from the server and offer it. Nothing is taken
while a frame is pending. -/
def sendSegments (state : NmtState) (nowUs : UInt64) (i : ℕ) :
    ℕ → SdoChannel → Bus → SdoChannel × Bus
  | 0, ch, b => (ch, b)
  | n + 1, ch, b =>
    if ch.pending.isSome then (ch, b)
    else
      match ch.server.pollBlockUpload nowUs with
      | (_, none) => (ch, b)
      | (server, some data) =>
        let (ch, b) := trySend state i ({ ch with server := server }.queue data nowUs)
          (b.log [.sdoProduced i data nowUs])
        sendSegments state nowUs i n ch b

/-- Retry the pending response, then send at most one sub-block. -/
def service (state : NmtState) (nowUs : UInt64) (i : ℕ) (ch : SdoChannel) (b : Bus) :
    SdoChannel × Bus :=
  let (ch, b) := trySend state i ch b
  sendSegments state nowUs i 127 ch b

def pdoDownload (ch : SdoChannel) : Bool :=
  match ch.server.transfer with
  | some (.segmented t) => t.direction == .download && isPdoConfigIndex t.index
  | some (.blockDownload b) => isPdoConfigIndex b.index
  | _ => false

end SdoChannel

/-! ## The node -/

def maxHeartbeatMonitors : ℕ := 8

def reservedCobIdsCap : ℕ := 32

/-- A node over a dictionary, with `evt` places in its event queue and `dirty` in its
dirty set. The numbers of PDOs and SDO servers are the lengths of the lists; the
first SDO channel is the default server. -/
structure Node (OD : Type) (evt dirty : ℕ) where
  nodeId : NodeId
  od : OD
  nmt : NmtHandler
  sdo : List SdoChannel
  tpdo : TpdoEngine
  rpdo : RpdoEngine
  sync : SyncConsumer
  syncProducer : SyncProducer
  syncWindow : SyncWindow
  /-- Synchronous transmit PDOs refused by the transport. -/
  pendingSyncTpdo : List CanFrame
  syncTpdoLastAttemptUs : Option UInt64
  heartbeat : HeartbeatProducer
  hbMonitors : List (Option HeartbeatMonitor)
  hbEventQueue : Deque HeartbeatEvent 8
  emcy : EmcyProducer
  lss : LssSlave
  booted : Bool
  autoStart : Bool
  eventQueue : Deque OdEvent evt
  dirtySet : List (UInt16 × UInt8)
  eventOverflowCount : UInt32
  resetEvent : Option ResetType

/-- A node together with its transport. -/
structure Machine (OD : Type) (evt dirty : ℕ) where
  node : Node OD evt dirty
  bus : Bus

variable {OD : Type} {evt dirty : ℕ}

namespace Machine

def state (m : Machine OD evt dirty) : NmtState := m.node.nmt.state

def log (m : Machine OD evt dirty) (obs : List Obs) : Machine OD evt dirty :=
  { m with bus := m.bus.log obs }

def onChannel (m : Machine OD evt dirty) (i : ℕ) (f : SdoChannel → Bus → SdoChannel × Bus) :
    Machine OD evt dirty :=
  match m.node.sdo[i]? with
  | some ch => ⟨{ m.node with sdo := m.node.sdo.set i (f ch m.bus).1 }, (f ch m.bus).2⟩
  | none => m

/-- Work on the channels in order. -/
def onChannels (m : Machine OD evt dirty) (f : ℕ → SdoChannel → Bus → SdoChannel × Bus) :
    Machine OD evt dirty :=
  (List.range m.node.sdo.length).foldl (fun m i => m.onChannel i (f i)) m

end Machine
end Canopen
