import Canopen.Lib.FixedBuffer
import Canopen.Sdo.Protocol

/-!
# SDO client

The client state machine of `sdo/client.rs`: one expedited or segmented transfer
at a time, driven by the responses of a server. `BUF` is the size of the
transfer buffer.
-/

namespace Canopen.Sdo

open LittleEndian

inductive SdoClientResult
  | uploadComplete (dataLen : ℕ)
  | downloadComplete
  | sendNext (frame : CanFrame)
  | aborted (code : SdoAbort)
  | ignoredAbort
  | error
  deriving DecidableEq, Repr

inductive ClientState
  | idle
  | waitingUploadInitResponse (index : UInt16) (subindex : UInt8)
  | uploadSegmented (index : UInt16) (subindex : UInt8) (toggle : Bool)
  | waitingDownloadInitResponse (index : UInt16) (subindex : UInt8)
  | downloadSegmented (index : UInt16) (subindex : UInt8) (toggle : Bool)
  deriving DecidableEq, Repr

/-- The object the active transfer is about. -/
def ClientState.active : ClientState → Option (UInt16 × UInt8)
  | .idle => none
  | .waitingUploadInitResponse index subindex => some (index, subindex)
  | .uploadSegmented index subindex _ => some (index, subindex)
  | .waitingDownloadInitResponse index subindex => some (index, subindex)
  | .downloadSegmented index subindex _ => some (index, subindex)

structure SdoClient (BUF : ℕ) where
  targetNode : NodeId
  state : ClientState
  buf : FixedBuffer UInt8 BUF
  offset : ℕ
  totalLen : ℕ
  uploadLen : Option ℕ
  uploadSizeIndicated : Bool
  deriving DecidableEq, Repr

namespace SdoClient

variable {BUF : ℕ}

def new (target : NodeId) : SdoClient BUF := ⟨target, .idle, .filled BUF 0, 0, 0, none, false⟩

/-- The received data after an upload. -/
def data (c : SdoClient BUF) : List UInt8 := c.buf.front c.offset

/-- A frame to the server of the target node. -/
def request (c : SdoClient BUF) (f : SdoFrame) : CanFrame :=
  ⟨CobId.sdoRx c.targetNode, f.toList, CobId.sdoRx_le _, by simp⟩

def makeUploadSegmentRequest (c : SdoClient BUF) (toggle : Bool) : CanFrame :=
  c.request (.segment (Ccs.uploadSegment.toByte <<< 5 ||| (if toggle then 0x10 else 0 : UInt8)) [])

def makeDownloadSegment (c : SdoClient BUF) (toggle : Bool) : SdoClient BUF × CanFrame :=
  let remaining := c.totalLen - c.offset
  let segLen := min remaining 7
  ({ c with offset := c.offset + segLen },
    c.request (.segment (segmentByte Ccs.downloadSegment.toByte toggle (7 - segLen) (remaining ≤ 7))
      (c.buf.slice c.offset segLen)))

def startUpload (c : SdoClient BUF) (index : UInt16) (subindex : UInt8) :
    SdoClient BUF × CanFrame :=
  ({ c with
      state := .waitingUploadInitResponse index subindex
      offset := 0
      totalLen := 0
      uploadLen := none
      uploadSizeIndicated := false },
    c.request (.initiate (Ccs.initiateUpload.toByte <<< 5) index subindex []))

/-- CCS=1, n, e=1, s=1. -/
def expeditedDownload (index : UInt16) (subindex : UInt8) (value : List UInt8) : SdoFrame :=
  .initiate (Ccs.initiateDownload.toByte <<< 5 ||| (4 - value.length).toUInt8 <<< 2 ||| 0x02 ||| 0x01)
    index subindex value

/-- CCS=1, e=0, s=1. -/
def segmentedDownload (index : UInt16) (subindex : UInt8) (value : List UInt8) : SdoFrame :=
  .initiate (Ccs.initiateDownload.toByte <<< 5 ||| 0x01) index subindex
    (leBytes32 (UInt32.ofNat value.length))

/-- `none` if a segmented value does not fit the transfer buffer. One to four bytes
are sent expedited and do not need it. -/
def startDownload (c : SdoClient BUF) (index : UInt16) (subindex : UInt8) (value : List UInt8) :
    SdoClient BUF × Option CanFrame :=
  if 0 < value.length ∧ value.length ≤ 4 then
    ({ c with state := .waitingDownloadInitResponse index subindex, totalLen := value.length },
      some (c.request (expeditedDownload index subindex value)))
  else if BUF < value.length then
    ({ c with state := .idle, totalLen := 0, offset := 0 }, none)
  else
    ({ c with
        state := .waitingDownloadInitResponse index subindex
        buf := c.buf.write 0 value
        totalLen := value.length
        offset := 0 },
      some (c.request (segmentedDownload index subindex value)))

/-- Give up the transfer with a protocol error. -/
def fail (c : SdoClient BUF) : SdoClient BUF × SdoClientResult := ({ c with state := .idle }, .error)

def handleUploadInitResponse (c : SdoClient BUF) (index : UInt16) (subindex : UInt8)
    (response : SdoFrame) : SdoClient BUF × SdoClientResult :=
  let expedited := (response.b0 &&& 0x02) != 0
  let sizeIndicated := (response.b0 &&& 0x01) != 0
  if expedited then
    let n := if sizeIndicated then ((response.b0 >>> 2) &&& 0x03).toNat else 0
    let dataLen := 4 - n
    if BUF < dataLen then c.fail
    else
      ({ c with
          buf := c.buf.write 0 (response.value.take dataLen)
          offset := dataLen
          uploadSizeIndicated := sizeIndicated
          state := .idle }, .uploadComplete dataLen)
  else
    let c := { c with
      uploadLen := if sizeIndicated then some response.size.toNat else none
      uploadSizeIndicated := sizeIndicated }
    if c.uploadLen.any (BUF < ·) then c.fail
    else
      ({ c with state := .uploadSegmented index subindex false, offset := 0 },
        .sendNext (c.makeUploadSegmentRequest false))

def handleUploadSegmentResponse (c : SdoClient BUF) (index : UInt16) (subindex : UInt8)
    (expectedToggle : Bool) (response : SdoFrame) : SdoClient BUF × SdoClientResult :=
  if toggleBit response.b0 ≠ expectedToggle then c.fail
  else
    let last := lastBit response.b0
    let segLen := 7 - unusedBytes response.b0
    let received := c.offset + segLen
    if BUF < received ∨ c.uploadLen.any (fun len => len < received || (last && received != len)) then
      c.fail
    else
      let c := { c with
        buf := c.buf.write c.offset (response.payload.take segLen)
        offset := received }
      if last then ({ c with state := .idle }, .uploadComplete received)
      else
        ({ c with state := .uploadSegmented index subindex (!expectedToggle) },
          .sendNext (c.makeUploadSegmentRequest (!expectedToggle)))

/-- Send the first or next segment of a download. -/
def sendSegment (c : SdoClient BUF) (index : UInt16) (subindex : UInt8) (toggle : Bool) :
    SdoClient BUF × SdoClientResult :=
  let (c', frame) := { c with state := .downloadSegmented index subindex toggle }.makeDownloadSegment
    toggle
  (c', .sendNext frame)

def handleDownloadInitResponse (c : SdoClient BUF) (index : UInt16) (subindex : UInt8) :
    SdoClient BUF × SdoClientResult :=
  if 0 < c.totalLen ∧ c.totalLen ≤ 4 then ({ c with state := .idle }, .downloadComplete)
  else c.sendSegment index subindex false

def handleDownloadSegmentResponse (c : SdoClient BUF) (index : UInt16) (subindex : UInt8)
    (expectedToggle : Bool) (response : SdoFrame) : SdoClient BUF × SdoClientResult :=
  if toggleBit response.b0 ≠ expectedToggle then c.fail
  else if c.totalLen ≤ c.offset then ({ c with state := .idle }, .downloadComplete)
  else c.sendSegment index subindex (!expectedToggle)

/-- An abort frame. While a transfer is active, only an abort of its object or of the
whole channel (0x0000:00) ends it. -/
def handleAbort (c : SdoClient BUF) (response : SdoFrame) : SdoClient BUF × SdoClientResult :=
  let (abortIndex, abortSub) := parseIndexSub response
  let channelLevel : Bool := abortIndex = 0 ∧ abortSub = 0
  if c.state.active.any (fun a => !channelLevel && (abortIndex, abortSub) != a) then
    (c, .ignoredAbort)
  else ({ c with state := .idle }, .aborted ⟨response.size⟩)

/-- Whether the response belongs to the object asked for. -/
def answers (response : SdoFrame) (scs : Scs) (index : UInt16) (subindex : UInt8) : Bool :=
  commandSpecifier response.b0 == scs.toByte && parseIndexSub response == (index, subindex)

def processResponse (c : SdoClient BUF) (response : SdoFrame) : SdoClient BUF × SdoClientResult :=
  let cs := commandSpecifier response.b0
  if cs = Scs.abortTransfer.toByte then c.handleAbort response
  else
    match c.state with
    | .idle => (c, .error)
    | .waitingUploadInitResponse index subindex =>
      if answers response .initiateUploadResponse index subindex then
        c.handleUploadInitResponse index subindex response
      else c.fail
    | .uploadSegmented index subindex toggle =>
      if cs = Scs.uploadSegmentResponse.toByte then
        c.handleUploadSegmentResponse index subindex toggle response
      else c.fail
    | .waitingDownloadInitResponse index subindex =>
      if answers response .initiateDownloadResponse index subindex then
        c.handleDownloadInitResponse index subindex
      else c.fail
    | .downloadSegmented index subindex toggle =>
      if cs = Scs.downloadSegmentResponse.toByte then
        c.handleDownloadSegmentResponse index subindex toggle response
      else c.fail

end SdoClient
end Canopen.Sdo
