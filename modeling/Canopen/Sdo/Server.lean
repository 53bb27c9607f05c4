import Canopen.Lib.Deque
import Canopen.Sdo.Validation

/-!
# SDO server

The transfer state machine of `sdo/server.rs`: expedited, segmented and block
transfers in both directions, one at a time. The three transfer records carry
the bounds of their offsets. A call works on the server together with the
dictionary, the event queue and a log of the `write` calls made on the
dictionary; a result of `none` is the source's `Err(())`, no response.
-/

namespace Canopen.Sdo

open LittleEndian

/-- Inactivity limit of a segmented or block transfer. -/
def sdoTimeoutUs : UInt64 := 5000000

def maxBlksize : UInt8 := 127

inductive Direction
  | upload
  | download
  deriving DecidableEq, Repr

/-- A segmented transfer in progress. -/
structure SegmentedTransfer where
  index : UInt16
  subindex : UInt8
  toggle : Bool
  direction : Direction
  buf : FixedBuffer UInt8 889
  offset : ℕ
  totalLen : ℕ
  sizeIndicated : Bool
  lastActivityUs : UInt64
  offset_le : offset ≤ 889
  total_le : totalLen ≤ 889
  sent_le : direction = .upload → offset ≤ totalLen
  deriving DecidableEq, Repr

/-- A block upload in progress. `seqno` is zero while waiting for the client. -/
structure BlockUploadState where
  index : UInt16
  subindex : UInt8
  buf : FixedBuffer UInt8 889
  totalLen : ℕ
  offset : ℕ
  subblockStartOffset : ℕ
  blksize : UInt8
  seqno : UInt8
  lastSeqno : UInt8
  crc : UInt16
  lastActivityUs : UInt64
  offset_le : offset ≤ totalLen
  total_le : totalLen ≤ 889
  deriving DecidableEq, Repr

/-- A block download in progress. `awaitingEnd` is set by the final segment. -/
structure BlockDownloadState where
  index : UInt16
  subindex : UInt8
  buf : FixedBuffer UInt8 889
  offset : ℕ
  totalLen : ℕ
  sizeIndicated : Bool
  blksize : UInt8
  seqno : UInt8
  awaitingEnd : Bool
  crcEnabled : Bool
  lastActivityUs : UInt64
  offset_le : offset ≤ 889
  deriving DecidableEq, Repr

inductive TransferState
  | segmented (t : SegmentedTransfer)
  | blockUpload (b : BlockUploadState)
  | blockDownload (b : BlockDownloadState)
  deriving DecidableEq, Repr

def TransferState.lastActivityUs : TransferState → UInt64
  | .segmented t => t.lastActivityUs
  | .blockUpload b => b.lastActivityUs
  | .blockDownload b => b.lastActivityUs

def TransferState.indexSub : TransferState → UInt16 × UInt8
  | .segmented t => (t.index, t.subindex)
  | .blockUpload b => (b.index, b.subindex)
  | .blockDownload b => (b.index, b.subindex)

structure SdoServer where
  transfer : Option TransferState
  committedWrite : Option (UInt16 × UInt8)
  deriving DecidableEq, Repr

/-! ## CRC-16 -/

def crc16Shift (crc : UInt16) : UInt16 :=
  if crc &&& 0x8000 != 0 then (crc <<< 1) ^^^ 0x1021 else crc <<< 1

def crc16Byte (crc : UInt16) (byte : UInt8) : UInt16 :=
  crc16Shift^[8] (crc ^^^ (byte.toUInt16 <<< (8 : UInt16)))

/-- CRC-16/CCITT, polynomial 0x1021, continued over `data`. -/
def crc16CcittUpdate (crc : UInt16) (data : List UInt8) : UInt16 := data.foldl crc16Byte crc

/-! ## Steps of the transfer records -/

def SegmentedTransfer.newUpload (index : UInt16) (subindex : UInt8) (buf : FixedBuffer UInt8 889)
    (len : {k : ℕ // k ≤ 889}) (nowUs : UInt64) : SegmentedTransfer where
  index := index
  subindex := subindex
  toggle := false
  direction := .upload
  buf := buf
  offset := 0
  totalLen := len
  sizeIndicated := true
  lastActivityUs := nowUs
  offset_le := by omega
  total_le := len.2
  sent_le := by simp

def SegmentedTransfer.newDownload (index : UInt16) (subindex : UInt8) (totalLen : ℕ)
    (sizeIndicated : Bool) (nowUs : UInt64) (h : totalLen ≤ 889) : SegmentedTransfer where
  index := index
  subindex := subindex
  toggle := false
  direction := .download
  buf := .filled 889 0
  offset := 0
  totalLen := totalLen
  sizeIndicated := sizeIndicated
  lastActivityUs := nowUs
  offset_le := by omega
  total_le := h
  sent_le := by simp

/-- Length of the next upload segment. -/
def SegmentedTransfer.segLen (t : SegmentedTransfer) : ℕ := min (t.totalLen - t.offset) 7

def SegmentedTransfer.sent (t : SegmentedTransfer) (h : t.direction = .upload) (nowUs : UInt64) :
    SegmentedTransfer :=
  { t with
    offset := t.offset + t.segLen
    toggle := !t.toggle
    lastActivityUs := nowUs
    offset_le := by have := t.sent_le h; have := t.total_le; simp only [segLen]; omega
    sent_le := fun _ => by have := t.sent_le h; simp only [segLen]; omega }

def SegmentedTransfer.received (t : SegmentedTransfer) (data : List UInt8) (nowUs : UInt64)
    (h : t.direction = .download) (hd : t.offset + data.length ≤ 889) : SegmentedTransfer :=
  { t with
    buf := t.buf.write t.offset data
    offset := t.offset + data.length
    toggle := !t.toggle
    lastActivityUs := nowUs
    offset_le := hd
    sent_le := by simp [h] }

def BlockUploadState.nextSegment (b : BlockUploadState) (nowUs : UInt64) :
    BlockUploadState × SdoFrame :=
  let remaining := b.totalLen - b.offset
  let segDataLen := min remaining 7
  let isLastSegment : Bool := remaining ≤ 7
  let isLastInSubblock : Bool := b.blksize ≤ b.seqno || isLastSegment
  let data := b.buf.slice b.offset segDataLen
  let byte0 := if isLastSegment && isLastInSubblock then b.seqno ||| 0x80 else b.seqno
  ({ b with
      crc := crc16CcittUpdate b.crc data
      offset := b.offset + segDataLen
      lastActivityUs := nowUs
      seqno := if isLastInSubblock then 0 else b.seqno + 1
      lastSeqno := byte0 &&& 0x7F
      offset_le := by have := b.offset_le; simp only [segDataLen, remaining]; omega },
    .segment byte0 data)

/-- Rewind to the first unacknowledged byte and take over the new block size. -/
def BlockUploadState.acknowledged (b : BlockUploadState) (ackseq newBlksize : UInt8)
    (nowUs : UInt64) : BlockUploadState :=
  let offset := min (b.subblockStartOffset + ackseq.toNat * 7) b.totalLen
  { b with
    offset := offset
    crc := crc16CcittUpdate 0 (b.buf.front offset)
    subblockStartOffset := offset
    blksize := newBlksize
    lastActivityUs := nowUs
    offset_le := Nat.min_le_right _ _ }

/-- Store the seven data bytes of a block segment. -/
def BlockDownloadState.received (b : BlockDownloadState) (request : SdoFrame) (seqno : UInt8)
    (nowUs : UInt64) (h : 7 ≤ 889 - b.offset) : BlockDownloadState :=
  { b with
    buf := b.buf.write b.offset request.payload
    offset := b.offset + 7
    seqno := seqno
    lastActivityUs := nowUs
    offset_le := by omega }

/-- PDO parameters are locked while Operational. Tested when a download is initiated. -/
def pdoConfigLocked (ctx : SdoContext) (index : UInt16) : Bool :=
  ctx.nmtState == .operational && isPdoConfigIndex index

/-- The size an initiate request declares, 0 when it declares none. -/
def declaredLen (request : SdoFrame) (sizeIndicated : Bool) : ℕ :=
  if sizeIndicated then request.size.toNat else 0

/-- The abort code for a length other than the declared one. -/
def lengthAbort (received totalLen : ℕ) : AbortCode :=
  if totalLen < received then .lengthTooHigh else .lengthTooLow

namespace SdoServer

def new : SdoServer := ⟨none, none⟩

def takeCommittedWrite (srv : SdoServer) : SdoServer × Option (UInt16 × UInt8) :=
  ({ srv with committedWrite := none }, srv.committedWrite)

def abortTransfer (srv : SdoServer) : SdoServer := { srv with transfer := none }

/-- An abort frame for a transfer that has been idle too long. -/
def checkTimeout (srv : SdoServer) (nowUs : UInt64) : SdoServer × Option SdoFrame :=
  match srv.transfer with
  | some t =>
    if sdoTimeoutUs ≤ nowUs - t.lastActivityUs then
      (srv.abortTransfer, some (encodeAbort t.indexSub.1 t.indexSub.2 .sdoProtocolTimeout))
    else (srv, none)
  | none => (srv, none)

/-- The next block upload segment, if one is due. -/
def pollBlockUpload (srv : SdoServer) (nowUs : UInt64) : SdoServer × Option SdoFrame :=
  match srv.transfer with
  | some (.blockUpload b) =>
    if b.seqno = 0 then (srv, none)
    else
      ({ srv with transfer := some (.blockUpload (b.nextSegment nowUs).1) },
        some (b.nextSegment nowUs).2)
  | _ => (srv, none)

/-- Whether a block download is still receiving its segments. In this phase byte 0
of a request is a sequence number. -/
def inBlockDownloadData (srv : SdoServer) : Bool :=
  match srv.transfer with
  | some (.blockDownload b) => !b.awaitingEnd
  | _ => false

/-! ## Handlers that leave the dictionary alone -/

variable {OD : Type} [ObjectDictionary OD]

def handleInitiateUpload (srv : SdoServer) (od : OD) (request : SdoFrame) (nowUs : UInt64) :
    SdoServer × Option SdoFrame :=
  let (index, subindex) := parseIndexSub request
  match ObjectDictionary.read od index subindex (FixedBuffer.filled 889 0) with
  | (.error e, _) => (srv, some (encodeSdoAbort index subindex (odReadAbort od index e)))
  | (.ok len, buf) =>
    if 0 < len.1 ∧ len.1 ≤ 4 then
      (srv.abortTransfer, encodeUploadResponseExpedited index subindex (buf.front len))
    else
      ({ srv with transfer := some (.segmented (.newUpload index subindex buf len nowUs)) },
        some (encodeUploadResponseSegmented index subindex (UInt32.ofNat len)))

def handleUploadSegment (srv : SdoServer) (request : SdoFrame) (nowUs : UInt64) :
    SdoServer × Option SdoFrame :=
  match srv.transfer with
  | some (.segmented t) =>
    if h : t.direction = .upload then
      if toggleBit request.b0 ≠ t.toggle then
        (srv.abortTransfer, some (encodeAbort t.index t.subindex .toggleBitNotAlternated))
      else
        let last : Bool := t.totalLen - t.offset ≤ 7
        ({ srv with transfer := if last then none else some (.segmented (t.sent h nowUs)) },
          encodeUploadSegmentResponse t.toggle (t.buf.slice t.offset t.segLen) last)
    else (srv, some (encodeAbort 0 0 .invalidCommandSpecifier))
  | _ => (srv, some (encodeAbort 0 0 .invalidCommandSpecifier))

/-- Sub-command 0: initiate a block upload. -/
def blockUploadInitiate (srv : SdoServer) (od : OD) (request : SdoFrame) (nowUs : UInt64) :
    SdoServer × Option SdoFrame :=
  let (index, subindex) := parseIndexSub request
  let clientBlksize := request.b4
  if ¬(1 ≤ clientBlksize ∧ clientBlksize ≤ maxBlksize) then
    (srv, some (encodeAbort index subindex .invalidBlockSize))
  else
    match ObjectDictionary.read od index subindex (FixedBuffer.filled 889 0) with
    | (.error e, _) => (srv, some (encodeSdoAbort index subindex (odReadAbort od index e)))
    | (.ok len, buf) =>
      ({ srv with transfer := some (.blockUpload {
          index := index, subindex := subindex, buf := buf, totalLen := len, offset := 0,
          subblockStartOffset := 0, blksize := clientBlksize, seqno := 0, lastSeqno := 0, crc := 0,
          lastActivityUs := nowUs, offset_le := Nat.zero_le _, total_le := len.2 }) },
        some (.initiate ((6 : UInt8) <<< 5 ||| 0x04 ||| 0x02) index subindex
          (leBytes32 (UInt32.ofNat len))))

/-- Sub-command 3: the client starts the upload. -/
def blockUploadStart (srv : SdoServer) (nowUs : UInt64) : SdoServer × Option SdoFrame :=
  match srv.transfer with
  | some (.blockUpload b) =>
    if b.seqno = 0 ∧ b.offset = 0 then
      ({ srv with transfer := some (.blockUpload { b with seqno := 1, lastActivityUs := nowUs }) },
        none)
    else (srv, some (encodeAbort 0 0 .invalidCommandSpecifier))
  | _ => (srv, some (encodeAbort 0 0 .invalidCommandSpecifier))

/-- The end frame of a block upload: unused bytes of the last segment and CRC. -/
def blockUploadEndFrame (totalLen : ℕ) (crc : UInt16) : SdoFrame :=
  let nUnused := if totalLen % 7 = 0 then 0 else 7 - totalLen % 7
  .segment ((6 : UInt8) <<< 5 ||| 0x01 ||| (nUnused.toUInt8 &&& 0x07) <<< (2 : UInt8))
    [byte16 crc 0, byte16 crc 1]

/-- Sub-command 2: the client acknowledges a sub-block. An acknowledgement in the
middle of a sub-block is ignored. -/
def blockUploadAck (srv : SdoServer) (request : SdoFrame) (nowUs : UInt64) :
    SdoServer × Option SdoFrame :=
  match srv.transfer with
  | some (.blockUpload b) =>
    if b.seqno = 0 then
      let ackseq := request.b1
      let newBlksize := request.b2
      if ¬(1 ≤ newBlksize ∧ newBlksize ≤ maxBlksize) then
        (srv.abortTransfer, some (encodeAbort b.index b.subindex .invalidBlockSize))
      else if b.lastSeqno < ackseq then
        (srv.abortTransfer, some (encodeAbort b.index b.subindex .invalidSequenceNumber))
      else
        let b' := b.acknowledged ackseq newBlksize nowUs
        if b'.totalLen ≤ b'.offset then
          (srv.abortTransfer, some (blockUploadEndFrame b'.totalLen b'.crc))
        else
          ({ srv with transfer := some (.blockUpload { b' with seqno := 1, lastSeqno := 0 }) }, none)
    else (srv, none)
  | _ => (srv, some (encodeAbort 0 0 .invalidCommandSpecifier))

/-- Sub-command 1: the client confirms the end. Only a block upload is closed. -/
def blockUploadEnd (srv : SdoServer) : SdoServer × Option SdoFrame :=
  match srv.transfer with
  | some (.blockUpload _) => (srv.abortTransfer, none)
  | _ => (srv, none)

def handleBlockUpload (srv : SdoServer) (od : OD) (request : SdoFrame) (nowUs : UInt64) :
    SdoServer × Option SdoFrame :=
  let subCmd := request.b0 &&& 0x03
  if subCmd = 0 then srv.blockUploadInitiate od request nowUs
  else if subCmd = 3 then srv.blockUploadStart nowUs
  else if subCmd = 2 then srv.blockUploadAck request nowUs
  else srv.blockUploadEnd

/-- Sub-command 0: initiate a block download. -/
def blockDownloadInitiate (srv : SdoServer) (request : SdoFrame) (ctx : SdoContext) :
    SdoServer × Option SdoFrame :=
  let (index, subindex) := parseIndexSub request
  let sizeIndicated := (request.b0 &&& 0x02) != 0
  let crcEnabled := (request.b0 &&& 0x04) != 0
  if pdoConfigLocked ctx index then
    (srv, some (encodeAbort index subindex .dataTransferDeviceState))
  else
    let totalLen := declaredLen request sizeIndicated
    if 889 < totalLen then (srv, some (encodeAbort index subindex .outOfMemory))
    else
      ({ srv with transfer := some (.blockDownload {
          index := index, subindex := subindex, buf := .filled 889 0, offset := 0,
          totalLen := totalLen, sizeIndicated := sizeIndicated, blksize := maxBlksize, seqno := 0,
          awaitingEnd := false, crcEnabled := crcEnabled, lastActivityUs := ctx.nowUs,
          offset_le := Nat.zero_le _ }) },
        some (.initiate ((5 : UInt8) <<< 5 ||| 0x04) index subindex [maxBlksize]))

def handleBlockDownloadSegment (srv : SdoServer) (request : SdoFrame) (nowUs : UInt64) :
    SdoServer × Option SdoFrame :=
  match srv.transfer with
  | some (.blockDownload b) =>
    let seqno := request.b0 &&& 0x7F
    let isLast := (request.b0 &&& 0x80) != 0
    if seqno = 0 ∨ seqno ≠ b.seqno + 1 then
      (srv.abortTransfer, some (encodeAbort b.index b.subindex .invalidSequenceNumber))
    else if h : 889 - b.offset < 7 then
      (srv.abortTransfer, some (encodeAbort b.index b.subindex .outOfMemory))
    else
      let b' := b.received request seqno nowUs (by omega)
      if isLast || b'.blksize ≤ seqno then
        ({ srv with transfer := some (.blockDownload
            (if isLast then { b' with awaitingEnd := true } else { b' with seqno := 0 })) },
          some (.segment ((5 : UInt8) <<< 5 ||| 0x02) [seqno, b'.blksize]))
      else ({ srv with transfer := some (.blockDownload b') }, none)
  | _ => (srv, some (encodeAbort 0 0 .invalidCommandSpecifier))

end SdoServer

/-! ## Committing a download -/

/-- What one call of the server works on. -/
structure SdoState (OD : Type) (cap : ℕ) where
  server : SdoServer
  od : OD
  events : Deque OdEvent cap
  /-- The `write` calls made so far, oldest first. -/
  writes : List OdWrite

namespace SdoState

variable {OD : Type} [ObjectDictionary OD] {cap : ℕ}

def setTransfer (s : SdoState OD cap) (t : Option TransferState) : SdoState OD cap :=
  { s with server := { s.server with transfer := t } }

/-- Take over the result of a handler that only works on the server. -/
def serve (s : SdoState OD cap) (r : SdoServer × Option SdoFrame) :
    SdoState OD cap × Option SdoFrame :=
  ({ s with server := r.1 }, r.2)

def odWrite (s : SdoState OD cap) (index : UInt16) (subindex : UInt8) (data : List UInt8) :
    Except OdError Unit × SdoState OD cap :=
  let (result, od) := ObjectDictionary.write s.od index subindex data
  (result, { s with od := od, writes := s.writes ++ [⟨index, subindex, data, result.isOk⟩] })

/-- The commit shared by the three transfer types: end the transfer, validate,
write, and report the write through `committedWrite` and one event. -/
def commitDownload (s : SdoState OD cap) (ctx : SdoContext) (index : UInt16) (subindex : UInt8)
    (data : List UInt8) (success : SdoFrame) : SdoState OD cap × Option SdoFrame :=
  let s := s.setTransfer none
  match validateDownload s.od ctx index subindex data with
  | .error code => (s, some (encodeSdoAbort index subindex code))
  | .ok () =>
    match s.odWrite index subindex data with
    | (.ok (), s') =>
      ({ s' with
          server := { s'.server with committedWrite := some (index, subindex) }
          events := s'.events.pushEvict ⟨index, subindex, .sdo⟩ }, some success)
    | (.error e, s') =>
      (s', some (encodeSdoAbort index subindex
        (odWriteAbort s'.od index subindex data.length e)))

/-- Number of data bytes of an expedited request. Without a size the length of the
object is used, and all four bytes when that is unknown. -/
def expeditedLen (od : OD) (request : SdoFrame) : ℕ :=
  if (request.b0 &&& 0x01) != 0 then 4 - ((request.b0 >>> 2) &&& 0x03).toNat
  else
    match (ObjectDictionary.lookup od (parseIndexSub request).1 (parseIndexSub request).2).bind
      (·.dataType.size) with
    | some size => min size 4
    | none => 4

def handleInitiateDownload (s : SdoState OD cap) (request : SdoFrame) (ctx : SdoContext) :
    SdoState OD cap × Option SdoFrame :=
  let (index, subindex) := parseIndexSub request
  if pdoConfigLocked ctx index then
    (s, some (encodeAbort index subindex .dataTransferDeviceState))
  else if (request.b0 &&& 0x02) != 0 then
    s.commitDownload ctx index subindex (request.value.take (expeditedLen s.od request))
      (encodeDownloadResponse index subindex)
  else
    let sizeIndicated := (request.b0 &&& 0x01) != 0
    let totalLen := declaredLen request sizeIndicated
    if h : 889 < totalLen then (s, some (encodeAbort index subindex .outOfMemory))
    else
      (s.setTransfer (some (.segmented
          (.newDownload index subindex totalLen sizeIndicated ctx.nowUs (by omega)))),
        some (encodeDownloadResponse index subindex))

def handleDownloadSegment (s : SdoState OD cap) (request : SdoFrame) (ctx : SdoContext) :
    SdoState OD cap × Option SdoFrame :=
  match s.server.transfer with
  | some (.segmented t) =>
    if hd : t.direction = .download then
      if toggleBit request.b0 ≠ t.toggle then
        (s.setTransfer none, some (encodeAbort t.index t.subindex .toggleBitNotAlternated))
      else
        let last := lastBit request.b0
        let data := request.payload.take (7 - unusedBytes request.b0)
        let received := t.offset + data.length
        if t.sizeIndicated ∧ (t.totalLen < received ∨ (last ∧ received ≠ t.totalLen)) then
          (s.setTransfer none, some (encodeAbort t.index t.subindex
            (lengthAbort received t.totalLen)))
        else if h : 889 < received then
          (s.setTransfer none, some (encodeAbort t.index t.subindex .outOfMemory))
        else
          let t' := t.received data ctx.nowUs hd (by omega)
          if last then
            s.commitDownload ctx t'.index t'.subindex (t'.buf.front t'.offset)
              (encodeDownloadSegmentResponse (toggleBit request.b0))
          else
            (s.setTransfer (some (.segmented t')),
              some (encodeDownloadSegmentResponse (toggleBit request.b0)))
    else (s, some (encodeAbort 0 0 .invalidCommandSpecifier))
  | _ => (s, some (encodeAbort 0 0 .invalidCommandSpecifier))

/-- Sub-command 1: end a block download and commit it. -/
def blockDownloadEnd (s : SdoState OD cap) (request : SdoFrame) (ctx : SdoContext) :
    SdoState OD cap × Option SdoFrame :=
  match s.server.transfer with
  | some (.blockDownload b) =>
    let nUnused := ((request.b0 >>> 2) &&& 0x07).toNat
    let clientCrc := ofLe16 request.b1 request.b2
    if 6 < nUnused ∨ b.offset < nUnused then
      (s.setTransfer none, some (encodeAbort b.index b.subindex .dataTransferError))
    else
      let dataLen := b.offset - nUnused
      let data := b.buf.front dataLen
      if b.sizeIndicated ∧ dataLen ≠ b.totalLen then
        (s.setTransfer none, some (encodeAbort b.index b.subindex
          (lengthAbort dataLen b.totalLen)))
      else if b.crcEnabled ∧ crc16CcittUpdate 0 data ≠ clientCrc then
        (s.setTransfer none, some (encodeAbort b.index b.subindex .crcError))
      else s.commitDownload ctx b.index b.subindex data (.segment ((5 : UInt8) <<< 5 ||| 0x01) [])
  | _ => (s, some (encodeAbort 0 0 .invalidCommandSpecifier))

def handleBlockDownload (s : SdoState OD cap) (request : SdoFrame) (ctx : SdoContext) :
    SdoState OD cap × Option SdoFrame :=
  if request.b0 &&& 0x01 = 0 then s.serve (s.server.blockDownloadInitiate request ctx)
  else s.blockDownloadEnd request ctx

/-! ## Dispatch -/

/-- Route a request by its command specifier. -/
def dispatch (s : SdoState OD cap) (request : SdoFrame) (ctx : SdoContext) :
    SdoState OD cap × Option SdoFrame :=
  let cs := commandSpecifier request.b0
  if cs = Ccs.initiateUpload.toByte then
    s.serve (s.server.handleInitiateUpload s.od request ctx.nowUs)
  else if cs = Ccs.uploadSegment.toByte then
    s.serve (s.server.handleUploadSegment request ctx.nowUs)
  else if cs = Ccs.initiateDownload.toByte then s.handleInitiateDownload request ctx
  else if cs = Ccs.downloadSegment.toByte then s.handleDownloadSegment request ctx
  else if cs = Ccs.blockUpload.toByte then
    s.serve (s.server.handleBlockUpload s.od request ctx.nowUs)
  else if cs = Ccs.blockDownload.toByte then s.handleBlockDownload request ctx
  else if cs = Ccs.abortTransfer.toByte then (s.setTransfer none, none)
  else
    (s, some (encodeAbort (parseIndexSub request).1 (parseIndexSub request).2
      .invalidCommandSpecifier))

/-- Process one request. Every abort that `dispatch` returns ends the transfer. -/
def processWithContext (s : SdoState OD cap) (request : SdoFrame) (ctx : SdoContext) :
    SdoState OD cap × Option SdoFrame :=
  if s.server.inBlockDownloadData && request.b0 != 0x80 then
    s.serve (s.server.handleBlockDownloadSegment request ctx.nowUs)
  else
    let (s', response) := s.dispatch request ctx
    if response.any (·.b0 == 0x80) then (s'.setTransfer none, response) else (s', response)

/-- Process one request for a server with no node around it. -/
def process (s : SdoState OD cap) (request : SdoFrame) (nmtState : NmtState) (nowUs : UInt64) :
    SdoState OD cap × Option SdoFrame :=
  s.processWithContext request (.standalone nmtState nowUs)

end SdoState
end Canopen.Sdo
