import Canopen.Sdo.ClientProgress
import Canopen.Sdo.Safety

/-!
# The client with its partial operations

`sdo/client.rs` once more, for the question whether a server can make it panic. Every
subtraction, slice range, block copy and `unreachable!` is an operation that may fail, and
a result of `none` is a panic. The client's own invariant keeps all of them in range,
whatever it receives.
-/

namespace Canopen.Sdo

open LittleEndian

variable {BUF : ℕ}

/-! ## Partial operations -/

namespace Raw

/-- The received data after an upload. -/
def data (c : SdoClient BUF) : Option (List UInt8) := c.buf.checkedSlice 0 c.offset

def startDownload (c : SdoClient BUF) (index : UInt16) (subindex : UInt8) (value : List UInt8) :
    Option (SdoClient BUF × Option CanFrame) :=
  if 0 < value.length ∧ value.length ≤ 4 then do
    let n ← checkedSub 4 value.length
    let data := SdoFrame.initiate
      (Ccs.initiateDownload.toByte <<< 5 ||| n.toUInt8 <<< 2 ||| 0x02 ||| 0x01) index subindex []
    let data ← data.bytes.checkedCopy 4 (4 + value.length) value
    some ({ c with state := .waitingDownloadInitResponse index subindex, totalLen := value.length },
      some (c.request (.ofBytes data)))
  else if BUF < value.length then
    some ({ c with state := .idle, totalLen := 0, offset := 0 }, none)
  else do
    let buf ← c.buf.checkedCopy 0 value.length value
    let data := SdoFrame.initiate (Ccs.initiateDownload.toByte <<< 5 ||| 0x01) index subindex []
    let data ← data.bytes.checkedCopy 4 8 (leBytes32 (UInt32.ofNat value.length))
    some ({ c with
        state := .waitingDownloadInitResponse index subindex
        buf := buf
        totalLen := value.length
        offset := 0 },
      some (c.request (.ofBytes data)))

def makeDownloadSegment (c : SdoClient BUF) (toggle : Bool) : Option (SdoClient BUF × CanFrame) := do
  let remaining ← checkedSub c.totalLen c.offset
  let segLen := min remaining 7
  let n ← checkedSub 7 segLen
  let data := SdoFrame.segment (segmentByte Ccs.downloadSegment.toByte toggle n (remaining ≤ 7)) []
  let segment ← c.buf.checkedSlice c.offset (c.offset + segLen)
  let data ← data.bytes.checkedCopy 1 (1 + segLen) segment
  some ({ c with offset := c.offset + segLen }, c.request (.ofBytes data))

def sendSegment (c : SdoClient BUF) (index : UInt16) (subindex : UInt8) (toggle : Bool) :
    Option (SdoClient BUF × SdoClientResult) := do
  let (c, frame) ← makeDownloadSegment { c with state := .downloadSegmented index subindex toggle } toggle
  some (c, .sendNext frame)

def handleUploadInitResponse (c : SdoClient BUF) (response : SdoFrame) :
    Option (SdoClient BUF × SdoClientResult) :=
  let expedited := (response.b0 &&& 0x02) != 0
  let sizeIndicated := (response.b0 &&& 0x01) != 0
  if expedited then do
    let n := if sizeIndicated then ((response.b0 >>> 2) &&& 0x03).toNat else 0
    let dataLen ← checkedSub 4 n
    if BUF < dataLen then some c.fail
    else
      let bytes ← response.bytes.checkedSlice 4 (4 + dataLen)
      let buf ← c.buf.checkedCopy 0 dataLen bytes
      some ({ c with
          buf := buf
          offset := dataLen
          uploadSizeIndicated := sizeIndicated
          state := .idle }, .uploadComplete dataLen)
  else
    let c := { c with
      uploadLen := if sizeIndicated then some response.size.toNat else none
      uploadSizeIndicated := sizeIndicated }
    if c.uploadLen.any (BUF < ·) then some c.fail
    else
      match c.state with
      | .waitingUploadInitResponse index subindex =>
        some ({ c with state := .uploadSegmented index subindex false, offset := 0 },
          .sendNext (c.makeUploadSegmentRequest false))
      | _ => none

def handleUploadSegmentResponse (c : SdoClient BUF) (response : SdoFrame) :
    Option (SdoClient BUF × SdoClientResult) :=
  match c.state with
  | .uploadSegmented index subindex expectedToggle =>
    if toggleBit response.b0 ≠ expectedToggle then some c.fail
    else do
      let last := lastBit response.b0
      let segLen ← checkedSub 7 (unusedBytes response.b0)
      let received := c.offset + segLen
      if BUF < received ∨ c.uploadLen.any (fun len => len < received || (last && received != len)) then
        some c.fail
      else
        let bytes ← response.bytes.checkedSlice 1 (1 + segLen)
        let buf ← c.buf.checkedCopy c.offset (c.offset + segLen) bytes
        let c := { c with buf := buf, offset := received }
        if last then some ({ c with state := .idle }, .uploadComplete received)
        else
          some ({ c with state := .uploadSegmented index subindex (!expectedToggle) },
            .sendNext (c.makeUploadSegmentRequest (!expectedToggle)))
  | _ => some (c, .error)

def handleDownloadInitResponse (c : SdoClient BUF) : Option (SdoClient BUF × SdoClientResult) :=
  if 0 < c.totalLen ∧ c.totalLen ≤ 4 then some ({ c with state := .idle }, .downloadComplete)
  else
    match c.state with
    | .waitingDownloadInitResponse index subindex => sendSegment c index subindex false
    | _ => none

def handleDownloadSegmentResponse (c : SdoClient BUF) (response : SdoFrame) :
    Option (SdoClient BUF × SdoClientResult) :=
  match c.state with
  | .downloadSegmented index subindex expectedToggle =>
    if toggleBit response.b0 ≠ expectedToggle then some c.fail
    else if c.totalLen ≤ c.offset then some ({ c with state := .idle }, .downloadComplete)
    else sendSegment c index subindex (!expectedToggle)
  | _ => some (c, .error)

def processResponse (c : SdoClient BUF) (response : SdoFrame) :
    Option (SdoClient BUF × SdoClientResult) :=
  let cs := commandSpecifier response.b0
  if cs = Scs.abortTransfer.toByte then some (c.handleAbort response)
  else
    match c.state with
    | .idle => some (c, .error)
    | .waitingUploadInitResponse index subindex =>
      if SdoClient.answers response .initiateUploadResponse index subindex then
        handleUploadInitResponse c response
      else some c.fail
    | .uploadSegmented _ _ _ =>
      if cs = Scs.uploadSegmentResponse.toByte then handleUploadSegmentResponse c response
      else some c.fail
    | .waitingDownloadInitResponse index subindex =>
      if SdoClient.answers response .initiateDownloadResponse index subindex then
        handleDownloadInitResponse c
      else some c.fail
    | .downloadSegmented _ _ _ =>
      if cs = Scs.downloadSegmentResponse.toByte then handleDownloadSegmentResponse c response
      else some c.fail

end Raw

/-! ## The invariant -/

namespace SdoClient

/-- What the client knows of its own counters. An expedited download does not use the
offset, which may be left from an earlier transfer. -/
structure Sound (c : SdoClient BUF) : Prop where
  offset_le : c.offset ≤ BUF
  waiting : ∀ index subindex, c.state = .waitingDownloadInitResponse index subindex →
    ¬(0 < c.totalLen ∧ c.totalLen ≤ 4) → c.offset = 0 ∧ c.totalLen ≤ BUF
  sending : ∀ index subindex toggle, c.state = .downloadSegmented index subindex toggle →
    c.offset ≤ c.totalLen ∧ c.totalLen ≤ BUF

theorem sound_idle {c : SdoClient BUF} (state : c.state = .idle) (h : c.offset ≤ BUF) : c.Sound where
  offset_le := h
  waiting := by
    intro index subindex hstate
    cases state.symm.trans hstate
  sending := by
    intro index subindex toggle hstate
    cases state.symm.trans hstate

theorem sound_upload {c : SdoClient BUF} {index : UInt16} {subindex : UInt8} {toggle : Bool}
    (state : c.state = .uploadSegmented index subindex toggle) (h : c.offset ≤ BUF) : c.Sound where
  offset_le := h
  waiting := by
    intro index subindex hstate
    cases state.symm.trans hstate
  sending := by
    intro index subindex toggle hstate
    cases state.symm.trans hstate

theorem sound_new (target : NodeId) : (SdoClient.new target : SdoClient BUF).Sound :=
  sound_idle rfl (Nat.zero_le BUF)

theorem Sound.startUpload {c : SdoClient BUF} (index : UInt16) (subindex : UInt8) :
    (c.startUpload index subindex).1.Sound where
  offset_le := Nat.zero_le BUF
  waiting := nofun
  sending := nofun

theorem Sound.startDownload {c : SdoClient BUF} (h : c.Sound) (index : UInt16) (subindex : UInt8)
    (value : List UInt8) : (c.startDownload index subindex value).1.Sound := by
  unfold SdoClient.startDownload
  split_ifs with hshort hlarge
  · exact ⟨h.offset_le, fun _ _ _ hlong => absurd hshort hlong, nofun⟩
  · exact sound_idle rfl (Nat.zero_le BUF)
  · exact ⟨Nat.zero_le BUF, fun _ _ _ _ => ⟨rfl, Nat.le_of_not_lt hlarge⟩, nofun⟩

theorem Sound.advanced {c : SdoClient BUF} {index : UInt16} {subindex : UInt8} {toggle : Bool}
    (h : c.offset ≤ c.totalLen ∧ c.totalLen ≤ BUF) :
    ({ c.advanced with state := .downloadSegmented index subindex toggle } : SdoClient BUF).Sound := by
  have hoffset : c.offset + min (c.totalLen - c.offset) 7 ≤ c.totalLen := by omega
  exact ⟨hoffset.trans h.2, nofun, fun _ _ _ _ => ⟨hoffset, h.2⟩⟩

theorem Sound.processResponse {c : SdoClient BUF} (h : c.Sound) (response : SdoFrame) :
    (c.processResponse response).1.Sound := by
  have hstep := processResponse_cases c response
  generalize c.processResponse response = r at hstep
  obtain ⟨c', result⟩ := r
  cases hstep with
  | ignored => exact h
  | aborted => exact sound_idle rfl h.offset_le
  | failed _ _ idle offset => exact sound_idle idle (offset ▸ h.offset_le)
  | expedited state expected carries =>
    simp only [Expects, state, carries, if_true] at expected
    exact sound_idle rfl expected.2
  | opening => exact sound_upload rfl (Nat.zero_le BUF)
  | segment state expected =>
    simp only [Expects, state] at expected
    exact sound_upload rfl expected.2.2.1
  | lastSegment state expected =>
    simp only [Expects, state] at expected
    exact sound_idle rfl expected.2.2.1
  | written => exact sound_idle rfl h.offset_le
  | sending state _ long =>
    obtain ⟨hzero, hfits⟩ := h.waiting _ _ state long
    exact Sound.advanced ⟨hzero ▸ Nat.zero_le _, hfits⟩
  | sent => exact sound_idle rfl h.offset_le
  | sendingOn state => exact Sound.advanced (h.sending _ _ _ state)

end SdoClient
/-! ## No panic -/

section NoPanic

variable {c : SdoClient BUF}

theorem startDownload_raw (c : SdoClient BUF) (index : UInt16) (subindex : UInt8)
    (value : List UInt8) : Raw.startDownload c index subindex value =
      some (c.startDownload index subindex value) := by
  unfold Raw.startDownload SdoClient.startDownload
  by_cases hshort : 0 < value.length ∧ value.length ≤ 4
  · rw [if_pos hshort, if_pos hshort, checkedSub_of_le hshort.2]
    simp only [Option.bind_eq_bind, Option.bind_some]
    have hframe : 4 + value.length ≤ 8 := by omega
    rw [FixedBuffer.checkedCopy_add _ rfl hframe, Option.bind_some, ofBytes_initiate _ _ _ hshort.2]
    rfl
  · rw [if_neg hshort, if_neg hshort]
    by_cases hlarge : BUF < value.length
    · rw [if_pos hlarge, if_pos hlarge]
    · have hbuf : c.buf.checkedCopy 0 (0 + value.length) value = some (c.buf.write 0 value) :=
        c.buf.checkedCopy_add rfl (by omega)
      rw [Nat.zero_add] at hbuf
      have hlen : (leBytes32 (UInt32.ofNat value.length)).length = 4 := rfl
      rw [if_neg hlarge, if_neg hlarge, hbuf]
      simp only [Option.bind_eq_bind, Option.bind_some]
      rw [@FixedBuffer.checkedCopy_add _ _ _ 4 4 _ hlen (by decide), Option.bind_some,
        ofBytes_initiate _ _ _ hlen.le]
      rfl

theorem sendSegment_raw (index : UInt16) (subindex : UInt8) (toggle : Bool)
    (h : c.offset ≤ c.totalLen ∧ c.totalLen ≤ BUF) :
    Raw.sendSegment c index subindex toggle = some (c.sendSegment index subindex toggle) := by
  have hseven : min (c.totalLen - c.offset) 7 ≤ 7 := Nat.min_le_right _ _
  have hfits : c.offset + min (c.totalLen - c.offset) 7 ≤ BUF := by omega
  have hlen := c.buf.length_slice hfits
  have hframe : 1 + min (c.totalLen - c.offset) 7 ≤ 8 := by omega
  unfold Raw.sendSegment Raw.makeDownloadSegment SdoClient.sendSegment SdoClient.makeDownloadSegment
  dsimp only
  simp only [checkedSub_of_le h.1, checkedSub_of_le hseven, Option.bind_eq_bind, Option.bind_some,
    c.buf.checkedSlice_add hfits]
  rw [FixedBuffer.checkedCopy_add _ hlen hframe, Option.bind_some,
    ofBytes_segment _ (by rw [hlen]; exact hseven)]
  rfl

theorem handleUploadInitResponse_raw {index : UInt16} {subindex : UInt8}
    (state : c.state = .waitingUploadInitResponse index subindex) (response : SdoFrame) :
    Raw.handleUploadInitResponse c response =
      some (c.handleUploadInitResponse index subindex response) := by
  have hbits : (if (response.b0 &&& 0x01) != 0 then ((response.b0 >>> 2) &&& 0x03).toNat else 0) ≤ 4 := by
    split_ifs
    · rw [UInt8.toNat_and]
      exact (Nat.and_le_right).trans (by decide)
    · exact Nat.zero_le 4
  unfold Raw.handleUploadInitResponse SdoClient.handleUploadInitResponse
  dsimp only
  rw [checkedSub_of_le hbits]
  have hle : 4 - (if (response.b0 &&& 0x01) != 0 then ((response.b0 >>> 2) &&& 0x03).toNat else 0) ≤ 4 :=
    Nat.sub_le _ _
  generalize 4 - (if (response.b0 &&& 0x01) != 0 then ((response.b0 >>> 2) &&& 0x03).toNat else 0) =
    dataLen at hle
  by_cases hexpedited : ((response.b0 &&& 0x02) != 0) = true
  · rw [if_pos hexpedited, if_pos hexpedited]
    simp only [Option.bind_eq_bind, Option.bind_some]
    by_cases hlarge : BUF < dataLen
    · rw [if_pos hlarge, if_pos hlarge]
    · have hbytes : response.bytes.checkedSlice 4 (4 + dataLen) = some (response.value.take dataLen) :=
        response.bytes.checkedSlice_add (by omega)
      have hlen : (response.value.take dataLen).length = dataLen := by simp [hle]
      have hbuf : c.buf.checkedCopy 0 (0 + dataLen) (response.value.take dataLen) = _ :=
        c.buf.checkedCopy_add hlen (by omega)
      rw [Nat.zero_add] at hbuf
      rw [if_neg hlarge, if_neg hlarge, hbytes, Option.bind_some, hbuf, Option.bind_some]
  · rw [if_neg hexpedited, if_neg hexpedited, state]
    by_cases hlarge : (if (response.b0 &&& 0x01) != 0 then some response.size.toNat else none).any
        (BUF < ·) = true
    · rw [if_pos hlarge, if_pos hlarge]
    · rw [if_neg hlarge, if_neg hlarge]

theorem handleUploadSegmentResponse_raw {index : UInt16} {subindex : UInt8} {toggle : Bool}
    (state : c.state = .uploadSegmented index subindex toggle) (response : SdoFrame) :
    Raw.handleUploadSegmentResponse c response =
      some (c.handleUploadSegmentResponse index subindex toggle response) := by
  have hlen := length_take_payload response (unusedBytes response.b0)
  have hbytes : response.bytes.checkedSlice 1 (1 + (7 - unusedBytes response.b0)) =
      some (response.payload.take (7 - unusedBytes response.b0)) :=
    response.bytes.checkedSlice_add (by omega)
  unfold Raw.handleUploadSegmentResponse SdoClient.handleUploadSegmentResponse
  rw [state]
  dsimp only
  by_cases htoggle : toggleBit response.b0 ≠ toggle
  · rw [if_pos htoggle, if_pos htoggle]
  rw [if_neg htoggle, if_neg htoggle, checkedSub_of_le (unusedBytes_le response.b0)]
  simp only [Option.bind_eq_bind, Option.bind_some]
  by_cases hlarge : BUF < c.offset + (7 - unusedBytes response.b0) ∨ c.uploadLen.any (fun len =>
      len < c.offset + (7 - unusedBytes response.b0) ||
        (lastBit response.b0 && c.offset + (7 - unusedBytes response.b0) != len)) = true
  · rw [if_pos hlarge, if_pos hlarge]
  · have hfits : c.offset + (7 - unusedBytes response.b0) ≤ BUF := by
      by_contra hgt
      exact hlarge (.inl (Nat.lt_of_not_le hgt))
    rw [if_neg hlarge, if_neg hlarge, hbytes, Option.bind_some, c.buf.checkedCopy_add hlen hfits,
      Option.bind_some]
    cases lastBit response.b0 <;> rfl

/-- A sound client meets no operand out of range. -/
theorem processResponse_raw (h : c.Sound) (response : SdoFrame) :
    Raw.processResponse c response = some (c.processResponse response) := by
  unfold Raw.processResponse SdoClient.processResponse
  dsimp only
  by_cases service : commandSpecifier response.b0 = Scs.abortTransfer.toByte
  · rw [if_pos service, if_pos service]
  rw [if_neg service, if_neg service]
  cases state : c.state with
  | idle => rfl
  | waitingUploadInitResponse index subindex =>
    dsimp only
    split_ifs
    · exact handleUploadInitResponse_raw state response
    · rfl
  | uploadSegmented index subindex toggle =>
    dsimp only
    split_ifs
    · exact handleUploadSegmentResponse_raw state response
    · rfl
  | waitingDownloadInitResponse index subindex =>
    dsimp only
    split_ifs
    · unfold Raw.handleDownloadInitResponse SdoClient.handleDownloadInitResponse
      by_cases hshort : 0 < c.totalLen ∧ c.totalLen ≤ 4
      · rw [if_pos hshort, if_pos hshort]
      · obtain ⟨hzero, hfits⟩ := h.waiting _ _ state hshort
        rw [if_neg hshort, if_neg hshort, state]
        exact sendSegment_raw index subindex false ⟨hzero ▸ Nat.zero_le _, hfits⟩
    · rfl
  | downloadSegmented index subindex toggle =>
    dsimp only
    split_ifs
    · unfold Raw.handleDownloadSegmentResponse SdoClient.handleDownloadSegmentResponse
      rw [state]
      dsimp only
      split_ifs
      · rfl
      · rfl
      · exact sendSegment_raw index subindex (!toggle) (h.sending _ _ _ state)
    · rfl

end NoPanic

/-! ## Calls -/

/-- Everything the owner of a client can do with it. -/
inductive ClientCall
  | start (transfer : Transfer)
  | respond (response : SdoFrame)
  deriving DecidableEq, Repr

def SdoClient.call (c : SdoClient BUF) : ClientCall → SdoClient BUF
  | .start transfer => c.start transfer
  | .respond response => (c.processResponse response).1

def SdoClient.run (c : SdoClient BUF) (calls : List ClientCall) : SdoClient BUF :=
  calls.foldl SdoClient.call c

namespace Raw

def call (c : SdoClient BUF) : ClientCall → Option (SdoClient BUF)
  | .start (.upload index subindex) => some (c.startUpload index subindex).1
  | .start (.download index subindex value) => (startDownload c index subindex value).map (·.1)
  | .respond response => (processResponse c response).map (·.1)

def run (c : SdoClient BUF) (calls : List ClientCall) : Option (SdoClient BUF) := calls.foldlM call c

end Raw

theorem call_raw {c : SdoClient BUF} (h : c.Sound) (call : ClientCall) :
    Raw.call c call = some (c.call call) ∧ (c.call call).Sound := by
  cases call with
  | start transfer =>
    cases transfer with
    | upload index subindex => exact ⟨rfl, .startUpload index subindex⟩
    | download index subindex value =>
      refine ⟨?_, h.startDownload index subindex value⟩
      rw [Raw.call, startDownload_raw]
      rfl
  | respond response =>
    refine ⟨?_, h.processResponse response⟩
    rw [Raw.call, processResponse_raw h]
    rfl

theorem run_raw_client {c : SdoClient BUF} (h : c.Sound) (calls : List ClientCall) :
    Raw.run c calls = some (c.run calls) ∧ (c.run calls).Sound := by
  induction calls generalizing c with
  | nil => exact ⟨rfl, h⟩
  | cons call calls ih =>
    obtain ⟨hraw, hsound⟩ := call_raw h call
    obtain ⟨hrest, hsound'⟩ := ih hsound
    refine ⟨?_, hsound'⟩
    unfold Raw.run
    rw [List.foldlM_cons, hraw]
    exact hrest

/-! ## Completed uploads -/

section Complete

variable {c c' : SdoClient BUF} {responses : List SdoFrame} {frames : List CanFrame} {n : ℕ}

theorem drive_rest {c₁ : SdoClient BUF} {response : SdoFrame} {rest : List SdoFrame}
    {frame : CanFrame} {result : Option SdoClientResult}
    (hdrive : c.drive (response :: rest) =
      ((c₁.drive rest).1, frame :: (c₁.drive rest).2.1, (c₁.drive rest).2.2))
    (h : c.drive (response :: rest) = (c', frames, result)) :
    c₁.drive rest = (c', (c₁.drive rest).2.1, result) := by
  rw [hdrive] at h
  obtain ⟨hc, hrest⟩ := Prod.mk.inj h
  exact Prod.ext hc (Prod.ext rfl (Prod.mk.inj hrest).2)

theorem uploadLen_of_sendNext {index : UInt16} {subindex : UInt8} {toggle : Bool}
    {response : SdoFrame} {frame : CanFrame}
    (state : c.state = .uploadSegmented index subindex toggle)
    (h : c.processResponse response = (c', .sendNext frame)) :
    c'.state = .uploadSegmented index subindex (!toggle) ∧ c'.uploadLen = c.uploadLen := by
  have hstep := SdoClient.processResponse_cases c response
  rw [h] at hstep
  cases hstep with
  | opening state' => cases state.symm.trans state'
  | sending state' => cases state.symm.trans state'
  | sendingOn state' => cases state.symm.trans state'
  | segment state' =>
    cases state.symm.trans state'
    exact ⟨rfl, rfl⟩

theorem announced_of_sendNext {index : UInt16} {subindex : UInt8} {response : SdoFrame}
    {frame : CanFrame} (state : c.state = .waitingUploadInitResponse index subindex)
    (h : c.processResponse response = (c', .sendNext frame)) :
    c'.state = .uploadSegmented index subindex false ∧ c'.uploadLen = announcedSize response := by
  have hstep := SdoClient.processResponse_cases c response
  rw [h] at hstep
  cases hstep with
  | segment state' => cases state.symm.trans state'
  | sending state' => cases state.symm.trans state'
  | sendingOn state' => cases state.symm.trans state'
  | opening state' =>
    cases state.symm.trans state'
    exact ⟨rfl, rfl⟩

/-- What a completed upload delivers is in the buffer. -/
theorem offset_of_complete (h : c.drive responses = (c', frames, some (.uploadComplete n))) :
    c'.offset = n ∧ n ≤ BUF := by
  induction responses generalizing c frames with
  | nil => cases h
  | cons response rest ih =>
    rcases SdoClient.drive_cases c response rest with ⟨c₁, frame, hr, hdrive⟩ | ⟨-, -, -, hdrive⟩ |
      ⟨c₁, result, hr, -, -, hdrive⟩
    · exact ih (drive_rest hdrive h)
    · exact ih (hdrive.symm.trans h)
    · rw [hdrive] at h
      cases h
      have hstep := SdoClient.processResponse_cases c response
      rw [hr] at hstep
      cases hstep with
      | expedited state expected carries =>
        simp only [SdoClient.Expects, state, carries, if_true] at expected
        exact ⟨rfl, expected.2⟩
      | lastSegment state expected =>
        simp only [SdoClient.Expects, state] at expected
        exact ⟨rfl, expected.2.2.1⟩

/-- The size announced for an upload in segments is the size delivered. -/
theorem announced_of_complete {index : UInt16} {subindex : UInt8} {toggle : Bool} {len : ℕ}
    (state : c.state = .uploadSegmented index subindex toggle) (hlen : c.uploadLen = some len)
    (h : c.drive responses = (c', frames, some (.uploadComplete n))) : n = len := by
  induction responses generalizing c frames toggle with
  | nil => cases h
  | cons response rest ih =>
    rcases SdoClient.drive_cases c response rest with ⟨c₁, frame, hr, hdrive⟩ | ⟨-, -, -, hdrive⟩ |
      ⟨c₁, result, hr, -, -, hdrive⟩
    · obtain ⟨state', hsame⟩ := uploadLen_of_sendNext state hr
      exact ih state' (hsame.trans hlen) (drive_rest hdrive h)
    · exact ih state hlen (hdrive.symm.trans h)
    · rw [hdrive] at h
      cases h
      have hstep := SdoClient.processResponse_cases c response
      rw [hr] at hstep
      cases hstep with
      | expedited state' => cases state.symm.trans state'
      | lastSegment state' expected last =>
        simp only [SdoClient.Expects, state'] at expected
        exact (expected.2.2.2 len hlen).2 last

/-- An upload whose first answer announces segments and a size delivers that size. -/
theorem size_of_complete {index : UInt16} {subindex : UInt8}
    (h : (c.start (.upload index subindex)).drive responses = (c', frames, some (.uploadComplete n)))
    {first : SdoFrame} (hfirst : (SdoClient.own (index, subindex) responses).head? = some first)
    (hsegmented : isExpedited first = false) (hsize : indicatesSize first = true) :
    n = first.size.toNat := by
  have hactive : (c.start (.upload index subindex)).state.active = some (index, subindex) := rfl
  have hhead : ∀ r ∈ SdoClient.own (index, subindex) responses,
      isForeignAbort (index, subindex) r = false := own_mem
  rw [← SdoClient.drive_own hactive] at h
  cases hown : SdoClient.own (index, subindex) responses with
  | nil =>
    rw [hown] at hfirst
    cases hfirst
  | cons response rest =>
    rw [hown] at hfirst h hhead
    cases hfirst
    rcases SdoClient.drive_cases (c.start (.upload index subindex)) first rest with
      ⟨c₁, frame, hr, hdrive⟩ | ⟨object, hobject, hforeign, -⟩ | ⟨c₁, result, hr, -, -, hdrive⟩
    · obtain ⟨state', hsame⟩ := announced_of_sendNext rfl hr
      have hannounced : announcedSize first = some first.size.toNat := if_pos hsize
      exact announced_of_complete state' (hsame.trans hannounced) (drive_rest hdrive h)
    · cases hactive.symm.trans hobject
      rw [hhead first List.mem_cons_self] at hforeign
      cases hforeign
    · rw [hdrive] at h
      cases h
      have hstep := SdoClient.processResponse_cases (c.start (.upload index subindex)) first
      rw [hr] at hstep
      cases hstep with
      | expedited _ _ carries => exact absurd carries (by simp [hsegmented])
      | lastSegment state => cases state

end Complete

/-! ## Safety -/

namespace SdoClient

/-- The download at hand is sent in segments. -/
def sendsSegments (c : SdoClient BUF) : Prop :=
  (∃ index subindex toggle, c.state = .downloadSegmented index subindex toggle) ∨
    (∃ index subindex, c.state = .waitingDownloadInitResponse index subindex) ∧
      ¬(0 < c.totalLen ∧ c.totalLen ≤ 4)

theorem Sound.offset_le_totalLen {c : SdoClient BUF} (h : c.Sound) (hsends : c.sendsSegments) :
    c.offset ≤ c.totalLen := by
  rcases hsends with ⟨index, subindex, toggle, state⟩ | ⟨⟨index, subindex, state⟩, hlong⟩
  · exact (h.sending _ _ _ state).1
  · rw [(h.waiting _ _ state hlong).1]
    exact Nat.zero_le _

/-- A response the client does not wait for ends the transfer. -/
theorem unexpected_ends (c : SdoClient BUF) {response : SdoFrame} (h : ¬c.Expects response)
    (hown : ∀ object, c.state.active = some object → isForeignAbort object response = false) :
    (c.processResponse response).1.state = .idle ∧
      ((c.processResponse response).2 = .error ∨
        ∃ code, (c.processResponse response).2 = .aborted code) := by
  have hstep := processResponse_cases c response
  generalize c.processResponse response = r at hstep ⊢
  obtain ⟨c', result⟩ := r
  cases hstep with
  | ignored active foreign =>
    rw [hown _ active] at foreign
    cases foreign
  | aborted => exact ⟨rfl, .inr ⟨_, rfl⟩⟩
  | failed _ _ idle => exact ⟨idle, .inl rfl⟩
  | expedited _ expected => exact absurd expected h
  | opening _ expected => exact absurd expected h
  | segment _ expected => exact absurd expected h
  | lastSegment _ expected => exact absurd expected h
  | written _ expected => exact absurd expected h
  | sending _ expected => exact absurd expected h
  | sent _ expected => exact absurd expected h
  | sendingOn _ expected => exact absurd expected h

end SdoClient

/-- Whatever a client receives, and in whichever order its transfers are started, it does
not panic, its offset stays within the buffer and within a download in segments, and an
upload delivers the size announced for it. An abort for another object leaves no trace,
and everything else the client does not wait for ends the transfer. -/
theorem client_is_safe (target : NodeId) (calls : List ClientCall) :
    let c : SdoClient BUF := (SdoClient.new target).run calls
    (Raw.run (SdoClient.new target : SdoClient BUF) calls = some c ∧
      (∀ response, Raw.processResponse c response = some (c.processResponse response)) ∧
      (∀ index subindex value,
        Raw.startDownload c index subindex value = some (c.startDownload index subindex value)) ∧
      Raw.data c = some c.data) ∧
    (c.offset ≤ BUF ∧ (c.sendsSegments → c.offset ≤ c.totalLen)) ∧
    (∀ index subindex responses c' frames n,
      (c.start (.upload index subindex)).drive responses = (c', frames, some (.uploadComplete n)) →
      c'.data.length = n ∧
        ∀ first, (SdoClient.own (index, subindex) responses).head? = some first →
          isExpedited first = false → indicatesSize first = true → n = first.size.toNat) ∧
    (∀ object response, c.state.active = some object → isForeignAbort object response = true →
      c.processResponse response = (c, .ignoredAbort) ∧
        ∀ before after, c.drive (before ++ response :: after) = c.drive (before ++ after)) ∧
    ∀ response, ¬c.Expects response →
      (∀ object, c.state.active = some object → isForeignAbort object response = false) →
      (c.processResponse response).1.state = .idle ∧
        ((c.processResponse response).2 = .error ∨
          ∃ code, (c.processResponse response).2 = .aborted code) := by
  dsimp only
  obtain ⟨hraw, hsound⟩ :=
    run_raw_client (SdoClient.sound_new target : (SdoClient.new target : SdoClient BUF).Sound) calls
  generalize (SdoClient.new target : SdoClient BUF).run calls = c at hraw hsound ⊢
  refine ⟨⟨hraw, processResponse_raw hsound, startDownload_raw c,
    c.buf.checkedSlice_front hsound.offset_le⟩, ⟨hsound.offset_le, hsound.offset_le_totalLen⟩, ?_, ?_,
    fun response => c.unexpected_ends⟩
  · intro index subindex responses c' frames n h
    obtain ⟨hoffset, hle⟩ := offset_of_complete h
    refine ⟨?_, fun first => size_of_complete h⟩
    unfold SdoClient.data
    rw [hoffset, FixedBuffer.length_front _ hle]
  · intro object response hactive hforeign
    refine ⟨SdoClient.processResponse_foreign hactive hforeign, fun before after => ?_⟩
    rw [← SdoClient.drive_own hactive, ← SdoClient.drive_own hactive (before ++ after)]
    simp [SdoClient.own, hforeign]

/-- An expedited download leaves the offset of the upload before it, which is larger than
the download. -/
theorem client_is_safe_offset_left :
    let c : SdoClient 8 := (SdoClient.new ⟨5, by decide, by decide⟩).run [
      .start (.upload 0x2000 0), .respond (.initiate 0x43 0x2000 0 [1, 2, 3, 4]),
      .start (.download 0x2000 0 [1])]
    c.state = .waitingDownloadInitResponse 0x2000 0 ∧ ¬c.offset ≤ c.totalLen := by
  decide

end Canopen.Sdo
