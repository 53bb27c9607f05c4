import Canopen.Lib.LittleEndian
import Canopen.Transport

/-!
# SDO frames

Command specifiers, abort codes and the frame encoders of `sdo/protocol.rs`. An
SDO frame is always eight bytes; `payload` and `value` are its two data areas
(bytes 1..8 of a segment, bytes 4..8 of an initiate frame).
-/

namespace Canopen.Sdo

open LittleEndian

/-- The eight bytes of an SDO frame. -/
structure SdoFrame where
  b0 : UInt8
  b1 : UInt8
  b2 : UInt8
  b3 : UInt8
  b4 : UInt8
  b5 : UInt8
  b6 : UInt8
  b7 : UInt8
  deriving DecidableEq, Repr

namespace SdoFrame

def toList (f : SdoFrame) : List UInt8 := [f.b0, f.b1, f.b2, f.b3, f.b4, f.b5, f.b6, f.b7]

/-- `frame[1..8]`. -/
def payload (f : SdoFrame) : List UInt8 := [f.b1, f.b2, f.b3, f.b4, f.b5, f.b6, f.b7]

/-- `frame[4..8]`. -/
def value (f : SdoFrame) : List UInt8 := [f.b4, f.b5, f.b6, f.b7]

def size (f : SdoFrame) : UInt32 := ofLe32 f.b4 f.b5 f.b6 f.b7

/-- The first eight bytes of a data slice, zero behind its end. -/
def ofData (l : List UInt8) : SdoFrame :=
  ⟨l.getD 0 0, l.getD 1 0, l.getD 2 0, l.getD 3 0, l.getD 4 0, l.getD 5 0, l.getD 6 0, l.getD 7 0⟩

/-- A segment frame: command byte and up to seven data bytes, zero padded. -/
def segment (b0 : UInt8) (l : List UInt8) : SdoFrame :=
  ⟨b0, l.getD 0 0, l.getD 1 0, l.getD 2 0, l.getD 3 0, l.getD 4 0, l.getD 5 0, l.getD 6 0⟩

/-- An initiate frame: command byte, object address and up to four data bytes. -/
def initiate (b0 : UInt8) (index : UInt16) (subindex : UInt8) (l : List UInt8) : SdoFrame :=
  ⟨b0, byte16 index 0, byte16 index 1, subindex,
    l.getD 0 0, l.getD 1 0, l.getD 2 0, l.getD 3 0⟩

@[simp] theorem length_toList (f : SdoFrame) : f.toList.length = 8 := rfl

@[simp] theorem length_payload (f : SdoFrame) : f.payload.length = 7 := rfl

@[simp] theorem length_value (f : SdoFrame) : f.value.length = 4 := rfl

@[simp] theorem ofData_toList (f : SdoFrame) : ofData f.toList = f := rfl

@[simp] theorem segment_b0 (b : UInt8) (l : List UInt8) : (segment b l).b0 = b := rfl

@[simp] theorem initiate_b0 (b : UInt8) (index : UInt16) (subindex : UInt8) (l : List UInt8) :
    (initiate b index subindex l).b0 = b := rfl

theorem take_getD_seven (l : List UInt8) (h : l.length ≤ 7) :
    [l.getD 0 0, l.getD 1 0, l.getD 2 0, l.getD 3 0, l.getD 4 0, l.getD 5 0, l.getD 6 0].take
      l.length = l := by
  match l, h with
  | [], _ => rfl
  | [_], _ => rfl
  | [_, _], _ => rfl
  | [_, _, _], _ => rfl
  | [_, _, _, _], _ => rfl
  | [_, _, _, _, _], _ => rfl
  | [_, _, _, _, _, _], _ => rfl
  | [_, _, _, _, _, _, _], _ => rfl
  | _ :: _ :: _ :: _ :: _ :: _ :: _ :: _ :: _, h => simp at h; omega

theorem take_payload_segment (b : UInt8) (l : List UInt8) (h : l.length ≤ 7) :
    (segment b l).payload.take l.length = l := take_getD_seven l h

theorem take_value_initiate (b : UInt8) (index : UInt16) (subindex : UInt8) (l : List UInt8)
    (h : l.length ≤ 4) : (initiate b index subindex l).value.take l.length = l := by
  match l, h with
  | [], _ => rfl
  | [_], _ => rfl
  | [_, _], _ => rfl
  | [_, _, _], _ => rfl
  | [_, _, _, _], _ => rfl
  | _ :: _ :: _ :: _ :: _ :: _, h => simp at h; omega

theorem size_initiate (b : UInt8) (index : UInt16) (subindex : UInt8) (v : UInt32) :
    (initiate b index subindex (leBytes32 v)).size = v := ofLe32_bytes v

end SdoFrame

/-- SDO abort codes (CiA 301 Table 22). -/
inductive AbortCode
  | toggleBitNotAlternated
  | sdoProtocolTimeout
  | invalidCommandSpecifier
  | invalidBlockSize
  | invalidSequenceNumber
  | crcError
  | outOfMemory
  | unsupportedAccess
  | writeOnlyObject
  | readOnlyObject
  | objectNotFound
  | objectCannotBeMapped
  | pdoLengthExceeded
  | parameterIncompatibility
  | generalInternalIncompatibility
  | hardwareError
  | dataTypeMismatch
  | lengthTooHigh
  | lengthTooLow
  | subindexNotFound
  | valueRangeExceeded
  | valueTooHigh
  | valueTooLow
  | maxLessThanMin
  | resourceNotAvailable
  | generalError
  | dataTransferError
  | dataTransferLocalControl
  | dataTransferDeviceState
  | odGenerationFailed
  | noDataAvailable
  deriving DecidableEq, Repr

def AbortCode.toU32 : AbortCode → UInt32
  | .toggleBitNotAlternated => 0x05030000
  | .sdoProtocolTimeout => 0x05040000
  | .invalidCommandSpecifier => 0x05040001
  | .invalidBlockSize => 0x05040002
  | .invalidSequenceNumber => 0x05040003
  | .crcError => 0x05040004
  | .outOfMemory => 0x05040005
  | .unsupportedAccess => 0x06010000
  | .writeOnlyObject => 0x06010001
  | .readOnlyObject => 0x06010002
  | .objectNotFound => 0x06020000
  | .objectCannotBeMapped => 0x06040041
  | .pdoLengthExceeded => 0x06040042
  | .parameterIncompatibility => 0x06040043
  | .generalInternalIncompatibility => 0x06040047
  | .hardwareError => 0x06060000
  | .dataTypeMismatch => 0x06070010
  | .lengthTooHigh => 0x06070012
  | .lengthTooLow => 0x06070013
  | .subindexNotFound => 0x06090011
  | .valueRangeExceeded => 0x06090030
  | .valueTooHigh => 0x06090031
  | .valueTooLow => 0x06090032
  | .maxLessThanMin => 0x06090036
  | .resourceNotAvailable => 0x060A0023
  | .generalError => 0x08000000
  | .dataTransferError => 0x08000020
  | .dataTransferLocalControl => 0x08000021
  | .dataTransferDeviceState => 0x08000022
  | .odGenerationFailed => 0x08000023
  | .noDataAvailable => 0x08000024

/-- Raw SDO abort code, preserved exactly as it appears on the wire. -/
structure SdoAbort where
  raw : UInt32
  deriving DecidableEq, Repr

def AbortCode.toAbort (code : AbortCode) : SdoAbort := ⟨code.toU32⟩

instance : Coe AbortCode SdoAbort := ⟨AbortCode.toAbort⟩

/-- Client command specifier, the upper three bits of byte 0. -/
inductive Ccs
  | downloadSegment
  | initiateDownload
  | initiateUpload
  | uploadSegment
  | abortTransfer
  | blockUpload
  | blockDownload
  deriving DecidableEq, Repr

def Ccs.toByte : Ccs → UInt8
  | .downloadSegment => 0
  | .initiateDownload => 1
  | .initiateUpload => 2
  | .uploadSegment => 3
  | .abortTransfer => 4
  | .blockUpload => 5
  | .blockDownload => 6

/-- Server command specifier, the upper three bits of byte 0. -/
inductive Scs
  | uploadSegmentResponse
  | downloadSegmentResponse
  | initiateUploadResponse
  | initiateDownloadResponse
  | abortTransfer
  deriving DecidableEq, Repr

def Scs.toByte : Scs → UInt8
  | .uploadSegmentResponse => 0
  | .downloadSegmentResponse => 1
  | .initiateUploadResponse => 2
  | .initiateDownloadResponse => 3
  | .abortTransfer => 4

/-- The upper three bits of byte 0. -/
def commandSpecifier (byte0 : UInt8) : UInt8 := (byte0 >>> 5) &&& 0x07

def parseIndexSub (data : SdoFrame) : UInt16 × UInt8 := (ofLe16 data.b1 data.b2, data.b3)

@[simp] theorem parseIndexSub_initiate (b : UInt8) (index : UInt16) (subindex : UInt8)
    (l : List UInt8) : parseIndexSub (SdoFrame.initiate b index subindex l) = (index, subindex) := by
  simp [parseIndexSub, SdoFrame.initiate]

def encodeSdoAbort (index : UInt16) (subindex : UInt8) (code : SdoAbort) : SdoFrame :=
  .initiate (Scs.abortTransfer.toByte <<< 5) index subindex (leBytes32 code.raw)

def encodeAbort (index : UInt16) (subindex : UInt8) (code : AbortCode) : SdoFrame :=
  encodeSdoAbort index subindex code

def encodeUploadResponseExpedited (index : UInt16) (subindex : UInt8) (value : List UInt8) :
    Option SdoFrame :=
  if value.isEmpty || 4 < value.length then none
  else
    let n := 4 - value.length
    some (.initiate (Scs.initiateUploadResponse.toByte <<< 5 ||| n.toUInt8 <<< 2 ||| 0x02 ||| 0x01)
      index subindex value)

def encodeUploadResponseSegmented (index : UInt16) (subindex : UInt8) (totalSize : UInt32) :
    SdoFrame :=
  .initiate (Scs.initiateUploadResponse.toByte <<< 5 ||| 0x01) index subindex (leBytes32 totalSize)

/-- Command byte of a segment: specifier, toggle bit, unused bytes, last flag. -/
def segmentByte (cs : UInt8) (toggle : Bool) (n : ℕ) (last : Bool) : UInt8 :=
  cs <<< 5 ||| (if toggle then 0x10 else 0 : UInt8) ||| n.toUInt8 <<< 1 |||
    (if last then 0x01 else 0 : UInt8)

/-- Upload segment response, `none` for more than seven bytes. -/
def encodeUploadSegmentResponse (toggle : Bool) (segmentData : List UInt8) (last : Bool) :
    Option SdoFrame :=
  if segmentData.length ≤ 7 then
    some (.segment (segmentByte Scs.uploadSegmentResponse.toByte toggle (7 - segmentData.length) last)
      segmentData)
  else none

def encodeDownloadResponse (index : UInt16) (subindex : UInt8) : SdoFrame :=
  .initiate (Scs.initiateDownloadResponse.toByte <<< 5) index subindex []

def encodeDownloadSegmentResponse (toggle : Bool) : SdoFrame :=
  .segment (Scs.downloadSegmentResponse.toByte <<< 5 ||| (if toggle then 0x10 else 0 : UInt8)) []

/-! ## Reading the command byte -/

def toggleBit (b : UInt8) : Bool := (b &&& 0x10) != 0

def lastBit (b : UInt8) : Bool := (b &&& 0x01) != 0

/-- The `n` field of a segment: unused bytes at its end. -/
def unusedBytes (b : UInt8) : ℕ := ((b >>> 1) &&& 0x07).toNat

theorem unusedBytes_le (b : UInt8) : unusedBytes b ≤ 7 := by
  unfold unusedBytes
  rw [UInt8.toNat_and]
  exact Nat.and_le_right

/-- What a receiver reads from the command byte of a segment is what the sender
put there. The command specifiers in use are 0 and 3. -/
theorem segmentByte_spec (toggle last : Bool) {n : ℕ} (hn : n ≤ 7) :
    commandSpecifier (segmentByte 0 toggle n last) = 0 ∧
      toggleBit (segmentByte 0 toggle n last) = toggle ∧
      unusedBytes (segmentByte 0 toggle n last) = n ∧
      lastBit (segmentByte 0 toggle n last) = last := by
  have h : ∀ n : Fin 8, commandSpecifier (segmentByte 0 toggle n last) = 0 ∧
      toggleBit (segmentByte 0 toggle n last) = toggle ∧
      unusedBytes (segmentByte 0 toggle n last) = n ∧
      lastBit (segmentByte 0 toggle n last) = last := by
    revert toggle last
    decide
  exact h ⟨n, by omega⟩

@[simp] theorem encodeSdoAbort_b0 (index : UInt16) (subindex : UInt8) (code : SdoAbort) :
    (encodeSdoAbort index subindex code).b0 = 0x80 := rfl

@[simp] theorem encodeAbort_b0 (index : UInt16) (subindex : UInt8) (code : AbortCode) :
    (encodeAbort index subindex code).b0 = 0x80 := rfl

@[simp] theorem encodeDownloadResponse_b0 (index : UInt16) (subindex : UInt8) :
    (encodeDownloadResponse index subindex).b0 = 0x60 := rfl

theorem encodeDownloadSegmentResponse_b0 (toggle : Bool) :
    (encodeDownloadSegmentResponse toggle).b0 = if toggle then 0x30 else 0x20 := by
  cases toggle <;> rfl

@[simp] theorem encodeUploadResponseSegmented_b0 (index : UInt16) (subindex : UInt8)
    (totalSize : UInt32) : (encodeUploadResponseSegmented index subindex totalSize).b0 = 0x41 := rfl

end Canopen.Sdo
