import Canopen.Lib.Checked
import Canopen.Sdo.Server

/-!
# The server with its partial operations

`sdo/server.rs` once more, for the question whether it can panic. The transfer
records carry no bounds here, and every subtraction, addition on a machine
word, slice range, block copy, `unwrap` and `expect` is an operation that may
fail. A result of `none` is a panic; below it, a missing frame is the source's
`Err(())`, as in the model without panics.
-/

namespace Canopen.Sdo

open LittleEndian

/-- A frame as the array the source holds. -/
def SdoFrame.bytes (f : SdoFrame) : FixedBuffer UInt8 8 := ⟨f.toList, rfl⟩

def SdoFrame.ofBytes (b : FixedBuffer UInt8 8) : SdoFrame := .ofData b.cells

namespace Raw

structure SegmentedTransfer where
  index : UInt16
  subindex : UInt8
  toggle : Bool
  direction : Direction
  buf : FixedBuffer UInt8 889
  offset : ℕ
  totalLen : ℕ
  sizeIndicated : Bool
  lastActivityUs : UInt64
  deriving DecidableEq, Repr

structure BlockUploadState where
  index : UInt16
  subindex : UInt8
  buf : FixedBuffer UInt8 889
  totalLen : ℕ
  offset : ℕ
  subblockStartOffset : ℕ
  blksize : UInt8
  seqno : UInt8
  lastSeqno : UInt8
  crc : UInt16
  lastActivityUs : UInt64
  deriving DecidableEq, Repr

structure BlockDownloadState where
  index : UInt16
  subindex : UInt8
  buf : FixedBuffer UInt8 889
  offset : ℕ
  totalLen : ℕ
  sizeIndicated : Bool
  blksize : UInt8
  seqno : UInt8
  awaitingEnd : Bool
  crcEnabled : Bool
  lastActivityUs : UInt64
  deriving DecidableEq, Repr

inductive TransferState
  | segmented (t : SegmentedTransfer)
  | blockUpload (b : BlockUploadState)
  | blockDownload (b : BlockDownloadState)
  deriving DecidableEq, Repr

def TransferState.lastActivityUs : TransferState → UInt64
  | .segmented t => t.lastActivityUs
  | .blockUpload b => b.lastActivityUs
  | .blockDownload b => b.lastActivityUs

def TransferState.indexSub : TransferState → UInt16 × UInt8
  | .segmented t => (t.index, t.subindex)
  | .blockUpload b => (b.index, b.subindex)
  | .blockDownload b => (b.index, b.subindex)

structure SdoServer where
  transfer : Option TransferState
  committedWrite : Option (UInt16 × UInt8)
  deriving DecidableEq, Repr

/-! ## Encoders -/

/-- The outer `Option` is the panic, the inner one the `None` of the source. -/
def encodeUploadResponseExpedited (index : UInt16) (subindex : UInt8) (value : List UInt8) :
    Option (Option SdoFrame) :=
  if value.isEmpty || 4 < value.length then some none
  else do
    let n ← checkedSub 4 value.length
    let data := SdoFrame.initiate
      (Scs.initiateUploadResponse.toByte <<< 5 ||| n.toUInt8 <<< 2 ||| 0x02 ||| 0x01) index subindex []
    let data ← data.bytes.checkedCopy 4 (4 + value.length) value
    some (some (.ofBytes data))

/-- `checked_sub` gives the source's `None` for more than seven bytes. -/
def encodeUploadSegmentResponse (toggle : Bool) (segmentData : List UInt8) (last : Bool) :
    Option (Option SdoFrame) :=
  match checkedSub 7 segmentData.length with
  | none => some none
  | some n => do
    let data := SdoFrame.segment (segmentByte Scs.uploadSegmentResponse.toByte toggle n last) []
    let data ← data.bytes.checkedCopy 1 (1 + segmentData.length) segmentData
    some (some (.ofBytes data))

/-! ## Validation

Behind its guards each rule converts the data with `try_into().unwrap()` or
takes its first byte; the rest of the rule is total. -/

variable {OD : Type} [ObjectDictionary OD] {cap : ℕ}

/-- `u32::from_le_bytes(data.try_into().unwrap())`. -/
def wordOf (data : List UInt8) : Option UInt32 :=
  if data.length = 4 then some (word32 data) else none

def validateHeartbeatConsumerWrite (od : OD) (sdoCobs : SdoCobIds) (syncCobId : UInt16)
    (heartbeatConsumerCount : UInt8) (index : UInt16) (subindex : UInt8) (data : List UInt8) :
    Option (Except AbortCode Unit) :=
  if index ≠ 0x1016 ∨ subindex = 0 ∨ data.length ≠ 4 then some (.ok ())
  else do
    let raw ← wordOf data
    let _cob ← checkedAdd16 0x700 ((raw >>> 16) &&& 0xFF).toUInt16
    some (Sdo.validateHeartbeatConsumerWrite od sdoCobs syncCobId heartbeatConsumerCount index
      subindex data)

def validatePdoCobIdWrite (sdoCobs : SdoCobIds) (syncCobId : UInt16) (index : UInt16)
    (subindex : UInt8) (data : List UInt8) : Option (Except AbortCode Unit) :=
  if !isPdoCommIndex index || subindex != 1 || data.length != 4 then some (.ok ())
  else do
    let _raw ← wordOf data
    some (Sdo.validatePdoCobIdWrite sdoCobs syncCobId index subindex data)

def validateSyncCobIdWrite (sdoCobs : SdoCobIds) (reservedCobs : ReservedCobIds) (index : UInt16)
    (subindex : UInt8) (data : List UInt8) : Option (Except AbortCode Unit) :=
  if index ≠ 0x1005 ∨ subindex ≠ 0 ∨ data.length ≠ 4 then some (.ok ())
  else do
    let _raw ← wordOf data
    some (Sdo.validateSyncCobIdWrite sdoCobs reservedCobs index subindex data)

def validateSyncCounterOverflowWrite (index : UInt16) (subindex : UInt8) (data : List UInt8) :
    Option (Except AbortCode Unit) :=
  if index ≠ 0x1019 ∨ subindex ≠ 0 ∨ data.isEmpty then some (.ok ())
  else do
    let _first ← data[0]?
    some (Sdo.validateSyncCounterOverflowWrite index subindex data)

/-- The rules in order; the first that fails ends the validation. -/
def validateDownload (od : OD) (ctx : SdoContext) (index : UInt16) (subindex : UInt8)
    (data : List UInt8) : ExceptT SdoAbort Option Unit := do
  .mk ((validateHeartbeatConsumerWrite od ctx.cobIds ctx.syncCobId ctx.heartbeatConsumerCount index
    subindex data).map (·.mapError AbortCode.toAbort))
  .mk ((validatePdoCobIdWrite ctx.cobIds ctx.syncCobId index subindex data).map
    (·.mapError AbortCode.toAbort))
  .mk ((validateSyncCobIdWrite ctx.cobIds ctx.reservedCobIds index subindex data).map
    (·.mapError AbortCode.toAbort))
  .mk ((validateSyncCounterOverflowWrite index subindex data).map (·.mapError AbortCode.toAbort))
  .mk (some ((ObjectDictionary.validateWrite od index subindex data).mapError
    (odWriteAbort od index subindex data.length)))

namespace SdoServer

def new : SdoServer := ⟨none, none⟩

def abortTransfer (srv : SdoServer) : SdoServer := { srv with transfer := none }

def checkTimeout (srv : SdoServer) (nowUs : UInt64) : Option (SdoServer × Option SdoFrame) :=
  let timedOut : Bool := match srv.transfer with
    | some t => sdoTimeoutUs ≤ nowUs - t.lastActivityUs
    | none => false
  if timedOut then do
    let t ← srv.transfer
    some (srv.abortTransfer, some (encodeAbort t.indexSub.1 t.indexSub.2 .sdoProtocolTimeout))
  else some (srv, none)

def pollBlockUpload (srv : SdoServer) (nowUs : UInt64) : Option (SdoServer × Option SdoFrame) :=
  match srv.transfer with
  | some (.blockUpload b) =>
    if b.seqno = 0 then some (srv, none)
    else do
      let remaining ← checkedSub b.totalLen b.offset
      let segDataLen := min remaining 7
      let isLastSegment : Bool := remaining ≤ 7
      let isLastInSubblock : Bool := b.blksize ≤ b.seqno || isLastSegment
      let byte0 := if isLastSegment && isLastInSubblock then b.seqno ||| 0x80 else b.seqno
      let data ← b.buf.checkedSlice b.offset (b.offset + segDataLen)
      let frame ← (SdoFrame.segment byte0 []).bytes.checkedCopy 1 (1 + segDataLen) data
      let seqno ← if isLastInSubblock then some 0 else checkedAdd8 b.seqno 1
      some ({ srv with transfer := some (.blockUpload { b with
          crc := crc16CcittUpdate b.crc data
          offset := b.offset + segDataLen
          lastActivityUs := nowUs
          seqno := seqno
          lastSeqno := byte0 &&& 0x7F }) }, some (.ofBytes frame))
  | _ => some (srv, none)

def inBlockDownloadData (srv : SdoServer) : Bool :=
  match srv.transfer with
  | some (.blockDownload b) => !b.awaitingEnd
  | _ => false

def handleInitiateUpload (srv : SdoServer) (od : OD) (request : SdoFrame) (nowUs : UInt64) :
    Option (SdoServer × Option SdoFrame) :=
  let (index, subindex) := parseIndexSub request
  match ObjectDictionary.read od index subindex (FixedBuffer.filled 889 0) with
  | (.error e, _) => some (srv, some (encodeSdoAbort index subindex (odReadAbort od index e)))
  | (.ok len, buf) =>
    if 0 < len.1 ∧ len.1 ≤ 4 then do
      let data ← buf.checkedSlice 0 len
      let response ← encodeUploadResponseExpedited index subindex data
      let response ← response
      some (srv.abortTransfer, some response)
    else
      some ({ srv with transfer := some (.segmented {
          index := index, subindex := subindex, toggle := false, direction := .upload, buf := buf,
          offset := 0, totalLen := len, sizeIndicated := true, lastActivityUs := nowUs }) },
        some (encodeUploadResponseSegmented index subindex (UInt32.ofNat len)))

def handleUploadSegment (srv : SdoServer) (request : SdoFrame) (nowUs : UInt64) :
    Option (SdoServer × Option SdoFrame) :=
  match srv.transfer with
  | some (.segmented t) =>
    if t.direction = .upload then
      if toggleBit request.b0 ≠ t.toggle then
        some (srv.abortTransfer, some (encodeAbort t.index t.subindex .toggleBitNotAlternated))
      else do
        let remaining ← checkedSub t.totalLen t.offset
        let segLen := min remaining 7
        let last : Bool := remaining ≤ 7
        let data ← t.buf.checkedSlice t.offset (t.offset + segLen)
        let response ← encodeUploadSegmentResponse t.toggle data last
        let response ← response
        let t' := { t with
          offset := t.offset + segLen, toggle := !t.toggle, lastActivityUs := nowUs }
        some ({ srv with transfer := if last then none else some (.segmented t') }, some response)
    else some (srv, some (encodeAbort 0 0 .invalidCommandSpecifier))
  | _ => some (srv, some (encodeAbort 0 0 .invalidCommandSpecifier))

def blockUploadInitiate (srv : SdoServer) (od : OD) (request : SdoFrame) (nowUs : UInt64) :
    Option (SdoServer × Option SdoFrame) :=
  let (index, subindex) := parseIndexSub request
  let clientBlksize := request.b4
  if ¬(1 ≤ clientBlksize ∧ clientBlksize ≤ maxBlksize) then
    some (srv, some (encodeAbort index subindex .invalidBlockSize))
  else
    match ObjectDictionary.read od index subindex (FixedBuffer.filled 889 0) with
    | (.error e, _) => some (srv, some (encodeSdoAbort index subindex (odReadAbort od index e)))
    | (.ok len, buf) =>
      some ({ srv with transfer := some (.blockUpload {
          index := index, subindex := subindex, buf := buf, totalLen := len, offset := 0,
          subblockStartOffset := 0, blksize := clientBlksize, seqno := 0, lastSeqno := 0, crc := 0,
          lastActivityUs := nowUs }) },
        some (.initiate ((6 : UInt8) <<< 5 ||| 0x04 ||| 0x02) index subindex
          (leBytes32 (UInt32.ofNat len))))

def blockUploadStart (srv : SdoServer) (nowUs : UInt64) : Option (SdoServer × Option SdoFrame) :=
  match srv.transfer with
  | some (.blockUpload b) =>
    if b.seqno = 0 ∧ b.offset = 0 then
      let b' := { b with seqno := 1, lastActivityUs := nowUs }
      some ({ srv with transfer := some (.blockUpload b') }, none)
    else some (srv, some (encodeAbort 0 0 .invalidCommandSpecifier))
  | _ => some (srv, some (encodeAbort 0 0 .invalidCommandSpecifier))

/-- The end frame: `7 - total_len % 7` is a subtraction, too. -/
def blockUploadEndFrame (totalLen : ℕ) (crc : UInt16) : Option SdoFrame := do
  let nUnused ← if totalLen % 7 = 0 then some 0 else checkedSub 7 (totalLen % 7)
  some (.segment ((6 : UInt8) <<< 5 ||| 0x01 ||| (nUnused.toUInt8 &&& 0x07) <<< (2 : UInt8))
    [byte16 crc 0, byte16 crc 1])

def blockUploadAck (srv : SdoServer) (request : SdoFrame) (nowUs : UInt64) :
    Option (SdoServer × Option SdoFrame) :=
  match srv.transfer with
  | some (.blockUpload b) =>
    if b.seqno = 0 then
      let ackseq := request.b1
      let newBlksize := request.b2
      if ¬(1 ≤ newBlksize ∧ newBlksize ≤ maxBlksize) then
        some (srv.abortTransfer, some (encodeAbort b.index b.subindex .invalidBlockSize))
      else if b.lastSeqno < ackseq then
        some (srv.abortTransfer, some (encodeAbort b.index b.subindex .invalidSequenceNumber))
      else do
        let offset := min (b.subblockStartOffset + ackseq.toNat * 7) b.totalLen
        let sent ← b.buf.checkedSlice 0 offset
        let b' := { b with
          offset := offset, crc := crc16CcittUpdate 0 sent, subblockStartOffset := offset
          blksize := newBlksize, lastActivityUs := nowUs }
        if b'.totalLen ≤ b'.offset then do
          let frame ← blockUploadEndFrame b'.totalLen b'.crc
          some (srv.abortTransfer, some frame)
        else
          some ({ srv with transfer := some (.blockUpload { b' with seqno := 1, lastSeqno := 0 }) },
            none)
    else some (srv, none)
  | _ => some (srv, some (encodeAbort 0 0 .invalidCommandSpecifier))

def blockUploadEnd (srv : SdoServer) : Option (SdoServer × Option SdoFrame) :=
  match srv.transfer with
  | some (.blockUpload _) => some (srv.abortTransfer, none)
  | _ => some (srv, none)

def handleBlockUpload (srv : SdoServer) (od : OD) (request : SdoFrame) (nowUs : UInt64) :
    Option (SdoServer × Option SdoFrame) :=
  let subCmd := request.b0 &&& 0x03
  if subCmd = 0 then srv.blockUploadInitiate od request nowUs
  else if subCmd = 3 then srv.blockUploadStart nowUs
  else if subCmd = 2 then srv.blockUploadAck request nowUs
  else srv.blockUploadEnd

def blockDownloadInitiate (srv : SdoServer) (request : SdoFrame) (ctx : SdoContext) :
    Option (SdoServer × Option SdoFrame) :=
  let (index, subindex) := parseIndexSub request
  let sizeIndicated := (request.b0 &&& 0x02) != 0
  let crcEnabled := (request.b0 &&& 0x04) != 0
  if pdoConfigLocked ctx index then
    some (srv, some (encodeAbort index subindex .dataTransferDeviceState))
  else
    let totalLen := declaredLen request sizeIndicated
    if 889 < totalLen then some (srv, some (encodeAbort index subindex .outOfMemory))
    else
      some ({ srv with transfer := some (.blockDownload {
          index := index, subindex := subindex, buf := .filled 889 0, offset := 0,
          totalLen := totalLen, sizeIndicated := sizeIndicated, blksize := maxBlksize, seqno := 0,
          awaitingEnd := false, crcEnabled := crcEnabled, lastActivityUs := ctx.nowUs }) },
        some (.initiate ((5 : UInt8) <<< 5 ||| 0x04) index subindex [maxBlksize]))

/-- The expected sequence number is a `wrapping_add`. -/
def handleBlockDownloadSegment (srv : SdoServer) (request : SdoFrame) (nowUs : UInt64) :
    Option (SdoServer × Option SdoFrame) :=
  match srv.transfer with
  | some (.blockDownload b) =>
    let seqno := request.b0 &&& 0x7F
    let isLast := (request.b0 &&& 0x80) != 0
    if seqno = 0 ∨ seqno ≠ b.seqno + 1 then
      some (srv.abortTransfer, some (encodeAbort b.index b.subindex .invalidSequenceNumber))
    else do
      let space ← checkedSub 889 b.offset
      if space < 7 then
        some (srv.abortTransfer, some (encodeAbort b.index b.subindex .outOfMemory))
      else do
        let data ← request.bytes.checkedSlice 1 (1 + 7)
        let buf ← b.buf.checkedCopy b.offset (b.offset + 7) data
        let b' := { b with
          buf := buf, offset := b.offset + 7, seqno := seqno, lastActivityUs := nowUs }
        if isLast || b'.blksize ≤ seqno then
          some ({ srv with transfer := some (.blockDownload
              (if isLast then { b' with awaitingEnd := true } else { b' with seqno := 0 })) },
            some (.segment ((5 : UInt8) <<< 5 ||| 0x02) [seqno, b'.blksize]))
        else some ({ srv with transfer := some (.blockDownload b') }, none)
  | _ => some (srv, some (encodeAbort 0 0 .invalidCommandSpecifier))

end SdoServer

/-- What one call works on. -/
structure SdoState (OD : Type) (cap : ℕ) where
  server : SdoServer
  od : OD
  events : Deque OdEvent cap

namespace SdoState

def setTransfer (s : SdoState OD cap) (t : Option TransferState) : SdoState OD cap :=
  { s with server := { s.server with transfer := t } }

def serve (s : SdoState OD cap) (r : Option (SdoServer × Option SdoFrame)) :
    Option (SdoState OD cap × Option SdoFrame) :=
  r.map fun r => ({ s with server := r.1 }, r.2)

def commitDownload (s : SdoState OD cap) (ctx : SdoContext) (index : UInt16) (subindex : UInt8)
    (data : List UInt8) (success : SdoFrame) : Option (SdoState OD cap × Option SdoFrame) := do
  let s := s.setTransfer none
  match ← (validateDownload s.od ctx index subindex data).run with
  | .error code => some (s, some (encodeSdoAbort index subindex code))
  | .ok () =>
    match ObjectDictionary.write s.od index subindex data with
    | (.ok (), od) =>
      some ({ s with
          server := { s.server with committedWrite := some (index, subindex) }
          od := od
          events := s.events.pushEvict ⟨index, subindex, .sdo⟩ }, some success)
    | (.error e, od) =>
      some ({ s with od := od }, some (encodeSdoAbort index subindex
        (odWriteAbort od index subindex data.length e)))

/-- `4 - n` when the request indicates its size. -/
def expeditedLen (od : OD) (request : SdoFrame) : Option ℕ :=
  if (request.b0 &&& 0x01) != 0 then checkedSub 4 ((request.b0 >>> 2) &&& 0x03).toNat
  else
    match (ObjectDictionary.lookup od (parseIndexSub request).1 (parseIndexSub request).2).bind
      (·.dataType.size) with
    | some size => some (min size 4)
    | none => some 4

def handleInitiateDownload (s : SdoState OD cap) (request : SdoFrame) (ctx : SdoContext) :
    Option (SdoState OD cap × Option SdoFrame) :=
  let (index, subindex) := parseIndexSub request
  if pdoConfigLocked ctx index then
    some (s, some (encodeAbort index subindex .dataTransferDeviceState))
  else if (request.b0 &&& 0x02) != 0 then do
    let dataLen ← expeditedLen s.od request
    let data ← request.bytes.checkedSlice 4 (4 + dataLen)
    s.commitDownload ctx index subindex data (encodeDownloadResponse index subindex)
  else
    let sizeIndicated := (request.b0 &&& 0x01) != 0
    let totalLen := declaredLen request sizeIndicated
    if 889 < totalLen then some (s, some (encodeAbort index subindex .outOfMemory))
    else
      some (s.setTransfer (some (.segmented {
          index := index, subindex := subindex, toggle := false, direction := .download
          buf := .filled 889 0, offset := 0, totalLen := totalLen, sizeIndicated := sizeIndicated
          lastActivityUs := ctx.nowUs })),
        some (encodeDownloadResponse index subindex))

/-- The prefix of a transfer's buffer, copied out before the transfer is cleared. -/
def copyOut (buf : FixedBuffer UInt8 889) (dataLen : ℕ) : Option (List UInt8) := do
  let received ← buf.checkedSlice 0 dataLen
  let writeBuf ← (FixedBuffer.filled 889 (0 : UInt8)).checkedCopy 0 dataLen received
  writeBuf.checkedSlice 0 dataLen

def handleDownloadSegment (s : SdoState OD cap) (request : SdoFrame) (ctx : SdoContext) :
    Option (SdoState OD cap × Option SdoFrame) :=
  match s.server.transfer with
  | some (.segmented t) =>
    if t.direction = .download then
      if toggleBit request.b0 ≠ t.toggle then
        some (s.setTransfer none, some (encodeAbort t.index t.subindex .toggleBitNotAlternated))
      else do
        let last := lastBit request.b0
        let segLen ← checkedSub 7 (unusedBytes request.b0)
        let received := t.offset + segLen
        if t.sizeIndicated ∧ (t.totalLen < received ∨ (last ∧ received ≠ t.totalLen)) then
          some (s.setTransfer none, some (encodeAbort t.index t.subindex
            (lengthAbort received t.totalLen)))
        else if 889 < received then
          some (s.setTransfer none, some (encodeAbort t.index t.subindex .outOfMemory))
        else do
          let data ← request.bytes.checkedSlice 1 (1 + segLen)
          let buf ← t.buf.checkedCopy t.offset (t.offset + segLen) data
          let t' := { t with
            buf := buf, offset := t.offset + segLen, toggle := !t.toggle
            lastActivityUs := ctx.nowUs }
          if last then do
            let data ← copyOut t'.buf t'.offset
            s.commitDownload ctx t'.index t'.subindex data
              (encodeDownloadSegmentResponse (toggleBit request.b0))
          else
            some (s.setTransfer (some (.segmented t')),
              some (encodeDownloadSegmentResponse (toggleBit request.b0)))
    else some (s, some (encodeAbort 0 0 .invalidCommandSpecifier))
  | _ => some (s, some (encodeAbort 0 0 .invalidCommandSpecifier))

def blockDownloadEnd (s : SdoState OD cap) (request : SdoFrame) (ctx : SdoContext) :
    Option (SdoState OD cap × Option SdoFrame) :=
  match s.server.transfer with
  | some (.blockDownload b) =>
    let nUnused := ((request.b0 >>> 2) &&& 0x07).toNat
    let clientCrc := ofLe16 request.b1 request.b2
    if 6 < nUnused ∨ b.offset < nUnused then
      some (s.setTransfer none, some (encodeAbort b.index b.subindex .dataTransferError))
    else do
      let dataLen ← checkedSub b.offset nUnused
      let data ← copyOut b.buf dataLen
      if b.sizeIndicated ∧ dataLen ≠ b.totalLen then
        some (s.setTransfer none, some (encodeAbort b.index b.subindex
          (lengthAbort dataLen b.totalLen)))
      else if b.crcEnabled ∧ crc16CcittUpdate 0 data ≠ clientCrc then
        some (s.setTransfer none, some (encodeAbort b.index b.subindex .crcError))
      else s.commitDownload ctx b.index b.subindex data (.segment ((5 : UInt8) <<< 5 ||| 0x01) [])
  | _ => some (s, some (encodeAbort 0 0 .invalidCommandSpecifier))

def handleBlockDownload (s : SdoState OD cap) (request : SdoFrame) (ctx : SdoContext) :
    Option (SdoState OD cap × Option SdoFrame) :=
  if request.b0 &&& 0x01 = 0 then s.serve (s.server.blockDownloadInitiate request ctx)
  else s.blockDownloadEnd request ctx

def dispatch (s : SdoState OD cap) (request : SdoFrame) (ctx : SdoContext) :
    Option (SdoState OD cap × Option SdoFrame) :=
  let cs := commandSpecifier request.b0
  if cs = Ccs.initiateUpload.toByte then
    s.serve (s.server.handleInitiateUpload s.od request ctx.nowUs)
  else if cs = Ccs.uploadSegment.toByte then
    s.serve (s.server.handleUploadSegment request ctx.nowUs)
  else if cs = Ccs.initiateDownload.toByte then s.handleInitiateDownload request ctx
  else if cs = Ccs.downloadSegment.toByte then s.handleDownloadSegment request ctx
  else if cs = Ccs.blockUpload.toByte then
    s.serve (s.server.handleBlockUpload s.od request ctx.nowUs)
  else if cs = Ccs.blockDownload.toByte then s.handleBlockDownload request ctx
  else if cs = Ccs.abortTransfer.toByte then some (s.setTransfer none, none)
  else
    some (s, some (encodeAbort (parseIndexSub request).1 (parseIndexSub request).2
      .invalidCommandSpecifier))

def processWithContext (s : SdoState OD cap) (request : SdoFrame) (ctx : SdoContext) :
    Option (SdoState OD cap × Option SdoFrame) :=
  if s.server.inBlockDownloadData && request.b0 != 0x80 then
    s.serve (s.server.handleBlockDownloadSegment request ctx.nowUs)
  else do
    let (s', response) ← s.dispatch request ctx
    if response.any (·.b0 == 0x80) then some (s'.setTransfer none, response)
    else some (s', response)

end SdoState
end Raw
end Canopen.Sdo
