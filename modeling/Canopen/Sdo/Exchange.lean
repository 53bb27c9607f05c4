import Canopen.Sdo.Client
import Canopen.Sdo.Commit

/-!
# Client against server

An `SdoClient` and an `SdoServer` connected frame by frame. The two machines are
written independently; here they are shown to agree: an upload delivers exactly
the bytes the dictionary returned, a download writes exactly the value once or
is aborted, and the exchange always ends.
-/

namespace Canopen.Sdo

open LittleEndian

variable {OD : Type} [ObjectDictionary OD] {cap BUF : ℕ}

/-- How an exchange ended. A result of `none` means the server gave no response. -/
structure Outcome (OD : Type) (cap BUF : ℕ) where
  result : Option SdoClientResult
  client : SdoClient BUF
  state : SdoState OD cap

/-- Pass frames back and forth until the client stops returning `sendNext`. Frame `i`
is processed in context `ctx i`; `none` means the fuel ran out. -/
def exchange (ctx : ℕ → SdoContext) :
    ℕ → ℕ → SdoClient BUF → SdoState OD cap → CanFrame → Option (Outcome OD cap BUF)
  | 0, _, _, _, _ => none
  | fuel + 1, i, client, s, frame =>
    match s.processWithContext (.ofData frame.data) (ctx i) with
    | (s', none) => some ⟨none, client, s'⟩
    | (s', some response) =>
      match client.processResponse response with
      | (client', .sendNext next) => exchange ctx fuel (i + 1) client' s' next
      | (client', result) => some ⟨some result, client', s'⟩

theorem exchange_next {ctx : ℕ → SdoContext} {fuel i : ℕ} {client client' : SdoClient BUF}
    {s s' : SdoState OD cap} {frame next : CanFrame} {response : SdoFrame}
    (hs : s.processWithContext (.ofData frame.data) (ctx i) = (s', some response))
    (hc : client.processResponse response = (client', .sendNext next)) :
    exchange ctx (fuel + 1) i client s frame = exchange ctx fuel (i + 1) client' s' next := by
  rw [exchange, hs]
  dsimp only
  rw [hc]

theorem exchange_last {ctx : ℕ → SdoContext} {fuel i : ℕ} {client client' : SdoClient BUF}
    {s s' : SdoState OD cap} {frame : CanFrame} {response : SdoFrame} {result : SdoClientResult}
    (hs : s.processWithContext (.ofData frame.data) (ctx i) = (s', some response))
    (hc : client.processResponse response = (client', result))
    (hr : ∀ next, result ≠ .sendNext next) :
    exchange ctx (fuel + 1) i client s frame = some ⟨some result, client', s'⟩ := by
  rw [exchange, hs]
  dsimp only
  rw [hc]
  cases result with
  | sendNext next => exact absurd rfl (hr next)
  | _ => rfl

/-! ## One frame -/

theorem processResponse_abort (client : SdoClient BUF) (index : UInt16) (subindex : UInt8)
    (h : client.state.active = some (index, subindex)) (code : SdoAbort) :
    client.processResponse (encodeSdoAbort index subindex code) =
      ({ client with state := .idle }, .aborted code) := by
  have hcs : commandSpecifier (encodeSdoAbort index subindex code).b0 = Scs.abortTransfer.toByte := by
    rw [encodeSdoAbort_b0]
    decide
  rw [SdoClient.processResponse, if_pos hcs]
  simp [SdoClient.handleAbort, encodeSdoAbort, SdoFrame.size_initiate, h]

omit [ObjectDictionary OD] in
theorem setTransfer_none_of {s : SdoState OD cap} (h : s.server.transfer = none) :
    s.setTransfer none = s := by
  obtain ⟨⟨transfer, committed⟩, od, events, writes⟩ := s
  cases h
  rfl

/-- Outside the data phase of a block download, a response that is no abort is what
`dispatch` returns. -/
theorem processWithContext_of_dispatch {s s' : SdoState OD cap} {request response : SdoFrame}
    {ctx : SdoContext} (free : s.server.inBlockDownloadData = false)
    (h : s.dispatch request ctx = (s', some response))
    (hr : response.b0 = 0x80 → s'.server.transfer = none) :
    s.processWithContext request ctx = (s', some response) := by
  unfold SdoState.processWithContext
  rw [free, Bool.false_and, if_neg (by simp), h]
  dsimp only
  split_ifs with ha
  · rw [setTransfer_none_of (hr (by simpa using ha))]
  · rfl

theorem processWithContext_of_abort {s s' : SdoState OD cap} {request : SdoFrame}
    {ctx : SdoContext} {index : UInt16} {subindex : UInt8} {code : SdoAbort}
    (free : s.server.inBlockDownloadData = false)
    (h : s.dispatch request ctx = (s', some (encodeSdoAbort index subindex code))) :
    s.processWithContext request ctx =
      (s'.setTransfer none, some (encodeSdoAbort index subindex code)) := by
  unfold SdoState.processWithContext
  rw [free, Bool.false_and, if_neg (by simp), h]
  dsimp only
  rw [if_pos (by simp)]

/-- The command byte of an expedited frame says how many data bytes it carries. The
command specifiers in use are 1 (download request) and 2 (upload response). -/
theorem expeditedByte_spec (cs : UInt8) (hcs : cs = 1 ∨ cs = 2) {len : ℕ} (h0 : 0 < len)
    (h4 : len ≤ 4) :
    let b := cs <<< 5 ||| (4 - len).toUInt8 <<< 2 ||| 0x02 ||| 0x01
    commandSpecifier b = cs ∧ (b &&& 0x02 != 0) = true ∧ (b &&& 0x01 != 0) = true ∧
      4 - ((b >>> 2) &&& 0x03).toNat = len := by
  rcases hcs with rfl | rfl <;> interval_cases len <;> decide

theorem toNat_ofNat_of_le {len : ℕ} (h : len ≤ 889) : (UInt32.ofNat len).toNat = len := by
  rw [UInt32.toNat_ofNat']
  omega

theorem uploadRequest_spec (toggle : Bool) :
    commandSpecifier (Ccs.uploadSegment.toByte <<< 5 ||| (if toggle then 0x10 else 0 : UInt8)) = 3 ∧
      toggleBit (Ccs.uploadSegment.toByte <<< 5 ||| (if toggle then 0x10 else 0 : UInt8)) =
        toggle := by
  cases toggle <;> decide

/-! ## Uploads -/

theorem encodeUploadResponseExpedited_eq (index : UInt16) (subindex : UInt8) (value : List UInt8)
    (h0 : 0 < value.length) (h4 : value.length ≤ 4) :
    encodeUploadResponseExpedited index subindex value =
      some (.initiate (Scs.initiateUploadResponse.toByte <<< 5 |||
        (4 - value.length).toUInt8 <<< 2 ||| 0x02 ||| 0x01) index subindex value) := by
  have hne : value ≠ [] := List.ne_nil_of_length_pos h0
  unfold encodeUploadResponseExpedited
  rw [if_neg (by simp [hne]; omega)]

theorem processWithContext_uploadRequest {s : SdoState OD cap} (request : SdoFrame)
    (ctx : SdoContext) (free : s.server.inBlockDownloadData = false)
    (hcs : commandSpecifier request.b0 = Ccs.initiateUpload.toByte) {index : UInt16}
    {subindex : UInt8} (haddr : parseIndexSub request = (index, subindex)) :
    s.processWithContext request ctx =
      match ObjectDictionary.read s.od index subindex (FixedBuffer.filled 889 0) with
      | (.error e, _) =>
        (s.setTransfer none, some (encodeSdoAbort index subindex (odReadAbort s.od index e)))
      | (.ok len, buf) =>
        if 0 < len.1 ∧ len.1 ≤ 4 then
          (s.setTransfer none, encodeUploadResponseExpedited index subindex (buf.front len))
        else
          (s.setTransfer (some (.segmented (.newUpload index subindex buf len ctx.nowUs))),
            some (encodeUploadResponseSegmented index subindex (UInt32.ofNat len))) := by
  have hd : s.dispatch request ctx =
      s.serve (s.server.handleInitiateUpload s.od request ctx.nowUs) := by
    simp [SdoState.dispatch, hcs]
  unfold SdoServer.handleInitiateUpload at hd
  simp only [haddr] at hd
  rcases hread : ObjectDictionary.read s.od index subindex (FixedBuffer.filled 889 0) with
    ⟨e | len, buf⟩
  · simp only [hread] at hd ⊢
    exact processWithContext_of_abort free hd
  · simp only [hread] at hd ⊢
    split_ifs at hd ⊢ with hlen
    · have hfront : (buf.front len.1).length = len.1 := buf.length_front len.2
      rw [encodeUploadResponseExpedited_eq index subindex _ (by omega) (by omega)] at hd ⊢
      exact processWithContext_of_dispatch free hd (fun _ => rfl)
    · refine processWithContext_of_dispatch free hd (fun h => ?_)
      rw [encodeUploadResponseSegmented_b0] at h
      exact absurd h (by decide)

theorem processWithContext_uploadSegment {s : SdoState OD cap} (request : SdoFrame)
    (ctx : SdoContext) {t : SegmentedTransfer}
    (htr : s.server.transfer = some (.segmented t)) (hdir : t.direction = .upload)
    (hcs : commandSpecifier request.b0 = Ccs.uploadSegment.toByte)
    (htog : toggleBit request.b0 = t.toggle) :
    s.processWithContext request ctx =
      (s.setTransfer (if t.totalLen - t.offset ≤ 7 then none
          else some (.segmented (t.sent hdir ctx.nowUs))),
        some (.segment (segmentByte 0 t.toggle (7 - t.segLen) (t.totalLen - t.offset ≤ 7))
          (t.buf.slice t.offset t.segLen))) := by
  have hlen : (t.buf.slice t.offset t.segLen).length = t.segLen := by
    have := t.sent_le hdir
    have := t.total_le
    exact t.buf.length_slice (by simp only [SegmentedTransfer.segLen]; omega)
  have hseg : t.segLen ≤ 7 := Nat.min_le_right _ _
  have hspec := segmentByte_spec t.toggle (decide (t.totalLen - t.offset ≤ 7))
    (Nat.sub_le 7 t.segLen)
  have hd : s.dispatch request ctx =
      s.serve (s.server.handleUploadSegment request ctx.nowUs) := by
    simp [SdoState.dispatch, hcs, Ccs.toByte]
  refine processWithContext_of_dispatch (by simp [SdoServer.inBlockDownloadData, htr]) ?_ ?_
  · rw [hd, SdoServer.handleUploadSegment, htr]
    simp [hdir, htog, encodeUploadSegmentResponse, hlen, hseg, SdoState.serve,
      SdoState.setTransfer, Scs.toByte]
  · intro h
    rw [SdoFrame.segment_b0] at h
    rw [h] at hspec
    exact absurd hspec.1 (by decide)

/-- Client and server agree on the part of the object transferred so far. -/
structure UploadAligned (client : SdoClient BUF) (t : SegmentedTransfer)
    (buf : FixedBuffer UInt8 889) (len : ℕ) : Prop where
  direction : t.direction = .upload
  buf_eq : t.buf = buf
  total : t.totalLen = len
  state : ∃ index subindex, client.state = .uploadSegmented index subindex t.toggle
  offset : client.offset = t.offset
  received : client.buf.front t.offset = buf.front t.offset
  uploadLen : client.uploadLen = some len
  fits : len ≤ BUF

/-- The client's reaction to the segment it asked for. -/
theorem processResponse_uploadSegment {client : SdoClient BUF} {index : UInt16} {subindex : UInt8}
    {toggle : Bool} {len : ℕ} (data : List UInt8) (last : Bool)
    (hstate : client.state = .uploadSegmented index subindex toggle)
    (hdata : data.length ≤ 7) (hup : client.uploadLen = some len) (hfits : len ≤ BUF)
    (hle : client.offset + data.length ≤ len)
    (hlast : last = true → client.offset + data.length = len) :
    client.processResponse (.segment (segmentByte 0 toggle (7 - data.length) last) data) =
      if last then
        ({ client with
            buf := client.buf.write client.offset data
            offset := client.offset + data.length
            state := .idle }, .uploadComplete (client.offset + data.length))
      else
        ({ client with
            buf := client.buf.write client.offset data
            offset := client.offset + data.length
            state := .uploadSegmented index subindex (!toggle) },
          .sendNext (client.makeUploadSegmentRequest (!toggle))) := by
  obtain ⟨hcs, htog, hun, hl⟩ := segmentByte_spec toggle last (Nat.sub_le 7 data.length)
  have hseven : 7 - (7 - data.length) = data.length := by omega
  have hfit : ¬(BUF < client.offset + data.length) := by omega
  have hsize : ¬(len < client.offset + data.length) := by omega
  rw [SdoClient.processResponse]
  simp only [SdoFrame.segment_b0, hcs, hstate]
  rw [if_neg (by decide), if_pos (by decide)]
  simp only [SdoClient.handleUploadSegmentResponse, SdoFrame.segment_b0, htog, hun, hl, hseven,
    SdoFrame.take_payload_segment _ _ hdata, hup, ne_eq, not_true, if_false]
  rw [if_neg (by cases last <;> simp_all)]
  cases last <;> rfl

/-- From an aligned state the exchange ends with the whole object delivered. -/
theorem exchange_uploadLoop (ctx : ℕ → SdoContext) (buf : FixedBuffer UInt8 889) (len n : ℕ) :
    ∀ (i : ℕ) (client : SdoClient BUF) (s : SdoState OD cap) (t : SegmentedTransfer),
      len - t.offset = n → s.server.transfer = some (.segmented t) →
      UploadAligned client t buf len →
      ∃ fuel client', exchange ctx fuel i client s (client.makeUploadSegmentRequest t.toggle) =
        some ⟨some (.uploadComplete len), client', s.setTransfer none⟩ ∧
        client'.data = buf.front len ∧ client'.uploadSizeIndicated = client.uploadSizeIndicated := by
  induction n using Nat.strong_induction_on with
  | _ n ih =>
    intro i client s t hn htr hal
    obtain ⟨index, subindex, hstate⟩ := hal.state
    have hsent := t.sent_le hal.direction
    have htotal := t.total_le
    have hoff := hal.offset
    have hlen := hal.total
    have hfits := hal.fits
    have hseg : t.segLen = min (len - t.offset) 7 := by rw [SegmentedTransfer.segLen, hlen]
    have hdata : (t.buf.slice t.offset t.segLen).length = t.segLen :=
      t.buf.length_slice (by omega)
    obtain ⟨hcs, htog⟩ := uploadRequest_spec t.toggle
    have hserver := processWithContext_uploadSegment (.segment (Ccs.uploadSegment.toByte <<< 5 |||
      (if t.toggle then 0x10 else 0 : UInt8)) []) (ctx i) htr hal.direction hcs htog
    have hclient := processResponse_uploadSegment (t.buf.slice t.offset t.segLen)
      (decide (t.totalLen - t.offset ≤ 7)) hstate (by omega) hal.uploadLen hal.fits
      (by omega) (by simp; omega)
    rw [hdata, hoff] at hclient
    -- the bytes the client holds after this segment
    have hgrown : (client.buf.write t.offset (t.buf.slice t.offset t.segLen)).front
        (t.offset + t.segLen) = buf.front (t.offset + t.segLen) := by
      have hw := client.buf.front_write t.offset (t.buf.slice t.offset t.segLen) (by omega)
      rw [hdata] at hw
      rw [hw, hal.received, hal.buf_eq, buf.front_append_slice]
    by_cases hlast : t.totalLen - t.offset ≤ 7
    · have hend : t.offset + t.segLen = len := by omega
      rw [decide_eq_true hlast, if_pos rfl, hend] at hclient
      rw [decide_eq_true hlast, if_pos hlast] at hserver
      rw [hend] at hgrown
      exact ⟨1, _, exchange_last hserver hclient (by simp), hgrown, rfl⟩
    · have hseven : t.segLen = 7 := by omega
      rw [decide_eq_false hlast, if_neg (by simp)] at hclient
      rw [decide_eq_false hlast, if_neg hlast] at hserver
      have hnext : UploadAligned
          { client with
            buf := client.buf.write t.offset (t.buf.slice t.offset t.segLen)
            offset := t.offset + t.segLen
            state := .uploadSegmented index subindex (!t.toggle) }
          (t.sent hal.direction (ctx i).nowUs) buf len :=
        ⟨hal.direction, hal.buf_eq, hal.total, ⟨index, subindex, rfl⟩, rfl, hgrown, hal.uploadLen,
          hal.fits⟩
      obtain ⟨fuel, client', hrun, hdone⟩ := ih (len - (t.offset + t.segLen)) (by omega) (i + 1)
        _ (s.setTransfer (some (.segmented (t.sent hal.direction (ctx i).nowUs)))) _ rfl rfl hnext
      exact ⟨fuel + 1, client', (exchange_next hserver hclient).trans hrun, hdone⟩

/-- The client's reaction to an expedited answer. -/
theorem processResponse_uploadExpedited (client : SdoClient BUF) {index : UInt16} {subindex : UInt8}
    (hstate : client.state = .waitingUploadInitResponse index subindex) (data : List UInt8)
    (h0 : 0 < data.length) (h4 : data.length ≤ 4) :
    client.processResponse (.initiate (Scs.initiateUploadResponse.toByte <<< 5 |||
        (4 - data.length).toUInt8 <<< 2 ||| 0x02 ||| 0x01) index subindex data) =
      if BUF < data.length then client.fail
      else
        ({ client with
            buf := client.buf.write 0 data
            offset := data.length
            uploadSizeIndicated := true
            state := .idle }, .uploadComplete data.length) := by
  obtain ⟨hcs, hexp, hsize, hn⟩ :=
    expeditedByte_spec Scs.initiateUploadResponse.toByte (.inr rfl) h0 h4
  have hans : SdoClient.answers (.initiate (Scs.initiateUploadResponse.toByte <<< 5 |||
      (4 - data.length).toUInt8 <<< 2 ||| 0x02 ||| 0x01) index subindex data)
      .initiateUploadResponse index subindex = true := by
    simp only [SdoClient.answers, parseIndexSub_initiate, SdoFrame.initiate_b0, hcs]
    simp
  rw [SdoClient.processResponse]
  simp only [SdoFrame.initiate_b0, hcs, hstate]
  rw [if_neg (by decide), if_pos hans]
  simp only [SdoClient.handleUploadInitResponse, SdoFrame.initiate_b0, hexp, hsize, if_true, hn,
    SdoFrame.take_value_initiate _ _ _ _ h4]

/-- The client's reaction to the announcement of a segmented upload. -/
theorem processResponse_uploadSegmented (client : SdoClient BUF) {index : UInt16} {subindex : UInt8}
    (hstate : client.state = .waitingUploadInitResponse index subindex) {len : ℕ} (h : len ≤ 889) :
    client.processResponse (encodeUploadResponseSegmented index subindex (UInt32.ofNat len)) =
      if BUF < len then
        ({ client with uploadLen := some len, uploadSizeIndicated := true, state := .idle }, .error)
      else
        ({ client with
            uploadLen := some len
            uploadSizeIndicated := true
            state := .uploadSegmented index subindex false
            offset := 0 }, .sendNext (client.makeUploadSegmentRequest false)) := by
  have hans : SdoClient.answers (encodeUploadResponseSegmented index subindex (UInt32.ofNat len))
      .initiateUploadResponse index subindex = true := by
    simp only [SdoClient.answers, encodeUploadResponseSegmented, parseIndexSub_initiate,
      SdoFrame.initiate_b0, beq_self_eq_true, Bool.and_true]
    decide
  rw [SdoClient.processResponse]
  simp only [encodeUploadResponseSegmented_b0, hstate]
  rw [if_neg (by decide), if_pos hans]
  have hexp : ((0x41 : UInt8) &&& 0x02 != 0) = false := by decide
  have hsize : ((0x41 : UInt8) &&& 0x01 != 0) = true := by decide
  have hval : (encodeUploadResponseSegmented index subindex (UInt32.ofNat len)).size.toNat = len := by
    rw [encodeUploadResponseSegmented, SdoFrame.size_initiate, toNat_ofNat_of_le h]
  simp only [SdoClient.handleUploadInitResponse, encodeUploadResponseSegmented_b0, hexp, hsize,
    if_true, hval]
  by_cases hfit : BUF < len
  · simp [hfit, SdoClient.fail]
  · simp [hfit]
    rfl

/-- How an upload ends, by what the dictionary returned and by the size of the client's buffer. -/
def UploadOutcome (s : SdoState OD cap) (index : UInt16) (result : SdoClientResult) (client : SdoClient BUF)
    (transfer : Option TransferState) : Except OdError {k : ℕ // k ≤ 889} × FixedBuffer UInt8 889 → Prop
  | (.error e, _) => result = .aborted (odReadAbort s.od index e) ∧ transfer = none
  | (.ok len, buf) =>
    if BUF < len.1 then result = .error
    else
      result = .uploadComplete len ∧ client.data = buf.front len ∧ client.uploadSizeIndicated = true ∧
        transfer = none

/-- Uploads: the exchange ends, and touches nothing but the transfer. -/
theorem exchange_upload_outcome (ctx : ℕ → SdoContext) (client : SdoClient BUF) (s : SdoState OD cap)
    (free : s.server.inBlockDownloadData = false) (index : UInt16) (subindex : UInt8) :
    ∃ fuel result client' transfer,
      exchange ctx fuel 0 (client.startUpload index subindex).1 s
          (client.startUpload index subindex).2 = some ⟨some result, client', s.setTransfer transfer⟩ ∧
      UploadOutcome s index result client' transfer
        (ObjectDictionary.read s.od index subindex (FixedBuffer.filled 889 0)) := by
  have hcs : commandSpecifier (Ccs.initiateUpload.toByte <<< 5) = Ccs.initiateUpload.toByte := by
    decide
  have hserver := processWithContext_uploadRequest
    (.initiate (Ccs.initiateUpload.toByte <<< 5) index subindex []) (ctx 0) free hcs
    (parseIndexSub_initiate ..)
  rcases hread : ObjectDictionary.read s.od index subindex (FixedBuffer.filled 889 0) with
    ⟨e | len, buf⟩
  · simp only [hread] at hserver
    have hclient := processResponse_abort (client.startUpload index subindex).1 index subindex rfl
      (odReadAbort s.od index e)
    exact ⟨1, _, _, _, exchange_last hserver hclient (by simp), rfl, rfl⟩
  simp only [hread] at hserver
  have hfront : (buf.front len.1).length = len.1 := buf.length_front len.2
  by_cases hexp : 0 < len.1 ∧ len.1 ≤ 4
  · have hstate : (client.startUpload index subindex).1.state =
        .waitingUploadInitResponse index subindex := rfl
    have hclient := processResponse_uploadExpedited _ hstate (buf.front len) (by omega) (by omega)
    have henc := encodeUploadResponseExpedited_eq index subindex (buf.front len) (by omega) (by omega)
    rw [if_pos hexp, henc] at hserver
    rw [hfront] at hserver hclient
    by_cases hfit : BUF < len.1
    · rw [if_pos hfit] at hclient
      exact ⟨1, _, _, _, exchange_last hserver hclient (by simp), by rw [UploadOutcome, if_pos hfit]⟩
    · rw [if_neg hfit] at hclient
      have hdata : (client.buf.write 0 (buf.front len)).front len = buf.front len := by
        have hw := client.buf.front_write 0 (buf.front len) (by omega)
        rw [hfront, Nat.zero_add] at hw
        simpa using hw
      refine ⟨1, _, _, _, exchange_last hserver hclient (by simp), ?_⟩
      rw [UploadOutcome, if_neg hfit]
      exact ⟨rfl, hdata, rfl, rfl⟩
  · have hstate : (client.startUpload index subindex).1.state =
        .waitingUploadInitResponse index subindex := rfl
    have hclient := processResponse_uploadSegmented _ hstate len.2
    rw [if_neg hexp] at hserver
    by_cases hfit : BUF < len.1
    · rw [if_pos hfit] at hclient
      exact ⟨1, _, _, _, exchange_last hserver hclient (by simp), by rw [UploadOutcome, if_pos hfit]⟩
    · rw [if_neg hfit] at hclient
      obtain ⟨fuel, client', hrun, hdata, hsize⟩ := exchange_uploadLoop ctx buf len.1 _ 1
        { (client.startUpload index subindex).1 with
          uploadLen := some len.1
          uploadSizeIndicated := true
          state := .uploadSegmented index subindex false
          offset := 0 }
        (s.setTransfer (some (.segmented (.newUpload index subindex buf len (ctx 0).nowUs)))) _
        rfl rfl ⟨rfl, rfl, rfl, ⟨index, subindex, rfl⟩, rfl, rfl, rfl, by omega⟩
      refine ⟨fuel + 1, _, client', none, (exchange_next hserver hclient).trans hrun, ?_⟩
      rw [UploadOutcome, if_neg hfit]
      exact ⟨rfl, hdata, hsize, rfl⟩

/-- Uploads: the exchange ends; it delivers exactly the bytes the dictionary returned
whenever they fit the client's buffer, and never any others. -/
theorem exchange_upload (ctx : ℕ → SdoContext) (client : SdoClient BUF) (s : SdoState OD cap)
    (free : s.server.inBlockDownloadData = false) (index : UInt16) (subindex : UInt8) :
    ∃ fuel result client' s',
      exchange ctx fuel 0 (client.startUpload index subindex).1 s
          (client.startUpload index subindex).2 = some ⟨some result, client', s'⟩ ∧
      (∀ len buf, ObjectDictionary.read s.od index subindex (FixedBuffer.filled 889 0) =
          (.ok len, buf) → len.1 ≤ BUF →
        result = .uploadComplete len ∧ client'.data = buf.front len) ∧
      ∀ n, result = .uploadComplete n → ∃ len buf,
        ObjectDictionary.read s.od index subindex (FixedBuffer.filled 889 0) = (.ok len, buf) ∧
          n = len ∧ client'.data = buf.front len := by
  obtain ⟨fuel, result, client', transfer, hrun, hout⟩ := exchange_upload_outcome ctx client s free index subindex
  refine ⟨fuel, result, client', _, hrun, ?_, ?_⟩
  · intro len buf hread hle
    rw [hread, UploadOutcome, if_neg (by omega)] at hout
    exact ⟨hout.1, hout.2.1⟩
  · rintro n rfl
    rcases hread : ObjectDictionary.read s.od index subindex (FixedBuffer.filled 889 0) with
      ⟨e | len, buf⟩
    · rw [hread, UploadOutcome] at hout
      cases hout.1
    · rw [hread, UploadOutcome] at hout
      split at hout
      · cases hout
      · cases hout.1
        exact ⟨len, buf, rfl, rfl, hout.2.1⟩

/-! ## Downloads -/

/-- How a download ends: written exactly once, or aborted without a successful write. -/
def DownloadOutcome (accepted : Prop) (s s' : SdoState OD cap) (index : UInt16) (subindex : UInt8)
    (value : List UInt8) (result : SdoClientResult) : Prop :=
  (accepted → result = .downloadComplete ∧
    s'.writes = s.writes ++ [⟨index, subindex, value, true⟩] ∧
    s'.od = (ObjectDictionary.write s.od index subindex value).2) ∧
  (¬accepted → (∃ code, result = .aborted code) ∧
    ((s'.writes = s.writes ∧ s'.od = s.od) ∨
      (s'.writes = s.writes ++ [⟨index, subindex, value, false⟩] ∧
        s'.od = (ObjectDictionary.write s.od index subindex value).2)))

/-- Validation and dictionary both accept the value. -/
def Accepts (od : OD) (ctx : SdoContext) (index : UInt16) (subindex : UInt8) (value : List UInt8) :
    Prop :=
  validateDownload od ctx index subindex value = .ok () ∧
    (ObjectDictionary.write od index subindex value).1 = .ok ()

/-- The end of a download, with no transfer left at the server. -/
structure DownloadEnds (accepted : Prop) (s s' : SdoState OD cap) (index : UInt16) (subindex : UInt8)
    (value : List UInt8) (result : SdoClientResult) : Prop where
  outcome : DownloadOutcome accepted s s' index subindex value result
  idle : s'.server.transfer = none

theorem DownloadEnds.congr {accepted accepted' : Prop} {s s' : SdoState OD cap} {index : UInt16}
    {subindex : UInt8} {value : List UInt8} {result : SdoClientResult}
    (h : DownloadEnds accepted s s' index subindex value result) (hiff : accepted' ↔ accepted) :
    DownloadEnds accepted' s s' index subindex value result :=
  ⟨⟨fun ha => h.outcome.1 (hiff.mp ha), fun hna => h.outcome.2 fun ha => hna (hiff.mpr ha)⟩, h.idle⟩

theorem processWithContext_of_commit {s : SdoState OD cap} {request : SdoFrame} {ctx : SdoContext}
    {index : UInt16} {subindex : UInt8} {data : List UInt8} {success : SdoFrame}
    (free : s.server.inBlockDownloadData = false)
    (h : s.dispatch request ctx = s.commitDownload ctx index subindex data success) :
    s.processWithContext request ctx = s.commitDownload ctx index subindex data success := by
  have hnone := commitDownload_transfer s ctx index subindex data success
  rcases commitDownload_cases s ctx index subindex data success with
    ⟨code, -, hc⟩ | ⟨e, code, -, -, hc⟩ | ⟨-, -, hc⟩
  all_goals
    rw [hc] at h hnone ⊢
    exact processWithContext_of_dispatch free h (fun _ => hnone)

theorem exchange_commit {ctx : ℕ → SdoContext} {i : ℕ} {client client' : SdoClient BUF}
    {s : SdoState OD cap} (frame : CanFrame) {index : UInt16} {subindex : UInt8} {value : List UInt8}
    {success : SdoFrame}
    (hserver : s.processWithContext (.ofData frame.data) (ctx i) =
      s.commitDownload (ctx i) index subindex value success)
    (hactive : client.state.active = some (index, subindex))
    (hclient : client.processResponse success = (client', .downloadComplete)) :
    ∃ result client'' s', exchange ctx 1 i client s frame = some ⟨some result, client'', s'⟩ ∧
      DownloadEnds (Accepts s.od (ctx i) index subindex value) s s' index subindex value
        result := by
  rcases commitDownload_cases s (ctx i) index subindex value success with
    ⟨code, hv, hc⟩ | ⟨e, code, hv, hw, hc⟩ | ⟨hv, hw, hc⟩
  · have hna : ¬Accepts s.od (ctx i) index subindex value := by
      rintro ⟨hok, -⟩
      rw [hv] at hok
      cases hok
    refine ⟨_, _, _, exchange_last (hserver.trans hc) (processResponse_abort _ _ _ hactive code) (by simp),
      ⟨fun h => absurd h hna, fun _ => ⟨⟨code, rfl⟩, .inl ⟨rfl, rfl⟩⟩⟩, rfl⟩
  · have hna : ¬Accepts s.od (ctx i) index subindex value := by
      rintro ⟨-, hok⟩
      rw [hw] at hok
      cases hok
    refine ⟨_, _, _, exchange_last (hserver.trans hc) (processResponse_abort _ _ _ hactive code) (by simp),
      ⟨fun h => absurd h hna, fun _ => ⟨⟨code, rfl⟩, .inr ⟨rfl, rfl⟩⟩⟩, rfl⟩
  · refine ⟨_, _, _, exchange_last (hserver.trans hc) hclient (by simp),
      ⟨fun _ => ⟨rfl, rfl, rfl⟩, fun h => absurd ⟨hv, hw⟩ h⟩, rfl⟩

theorem exchange_refused {ctx : ℕ → SdoContext} {i : ℕ} {client : SdoClient BUF}
    {s : SdoState OD cap} (frame : CanFrame) {index : UInt16} {subindex : UInt8} (value : List UInt8)
    {code : SdoAbort} {accepted : Prop}
    (hserver : s.processWithContext (.ofData frame.data) (ctx i) =
      (s.setTransfer none, some (encodeSdoAbort index subindex code)))
    (hactive : client.state.active = some (index, subindex)) (hna : ¬accepted) :
    ∃ result client' s', exchange ctx 1 i client s frame = some ⟨some result, client', s'⟩ ∧
      DownloadEnds accepted s s' index subindex value result :=
  ⟨_, _, _, exchange_last hserver (processResponse_abort _ _ _ hactive code) (by simp),
    ⟨fun h => absurd h hna, fun _ => ⟨⟨code, rfl⟩, .inl ⟨rfl, rfl⟩⟩⟩, rfl⟩

/-! ### Expedited downloads -/

theorem dispatch_initiateDownload (s : SdoState OD cap) (request : SdoFrame) (ctx : SdoContext)
    (hcs : commandSpecifier request.b0 = Ccs.initiateDownload.toByte) :
    s.dispatch request ctx = s.handleInitiateDownload request ctx := by
  simp [SdoState.dispatch, hcs, Ccs.toByte]

theorem processResponse_downloadInit {client : SdoClient BUF} {index : UInt16} {subindex : UInt8}
    (hstate : client.state = .waitingDownloadInitResponse index subindex) :
    client.processResponse (encodeDownloadResponse index subindex) =
      client.handleDownloadInitResponse index subindex := by
  have hans : SdoClient.answers (encodeDownloadResponse index subindex)
      .initiateDownloadResponse index subindex = true := by
    simp only [SdoClient.answers, encodeDownloadResponse, parseIndexSub_initiate,
      SdoFrame.initiate_b0, beq_self_eq_true, Bool.and_true]
    decide
  rw [SdoClient.processResponse]
  simp only [encodeDownloadResponse_b0, hstate]
  rw [if_neg (by decide), if_pos hans]

theorem exchange_expeditedDownload_ends (ctx : ℕ → SdoContext) (client sender : SdoClient BUF)
    (s : SdoState OD cap) (free : s.server.inBlockDownloadData = false) (index : UInt16)
    (subindex : UInt8) {value : List UInt8} (h0 : 0 < value.length) (h4 : value.length ≤ 4)
    (hstate : client.state = .waitingDownloadInitResponse index subindex)
    (htotal : client.totalLen = value.length) :
    ∃ result client' s',
      exchange ctx 1 0 client s (sender.request (SdoClient.expeditedDownload index subindex value)) =
        some ⟨some result, client', s'⟩ ∧
      DownloadEnds (pdoConfigLocked (ctx 0) index = false ∧
        Accepts s.od (ctx 0) index subindex value) s s' index subindex value result := by
  obtain ⟨hcs, hexp, hsize, hn⟩ :=
    expeditedByte_spec Ccs.initiateDownload.toByte (.inl rfl) h0 h4
  have hactive : client.state.active = some (index, subindex) := by rw [hstate]; rfl
  have hlen : SdoState.expeditedLen s.od (SdoClient.expeditedDownload index subindex value) =
      value.length := by
    simp only [SdoState.expeditedLen, SdoClient.expeditedDownload, SdoFrame.initiate_b0, hsize,
      if_true, hn]
  have hvalue : (SdoClient.expeditedDownload index subindex value).value.take value.length = value :=
    SdoFrame.take_value_initiate _ _ _ _ h4
  have haddr : parseIndexSub (SdoClient.expeditedDownload index subindex value) =
      (index, subindex) := parseIndexSub_initiate ..
  have hexp' : ((SdoClient.expeditedDownload index subindex value).b0 &&& 0x02 != 0) = true := hexp
  have hd := dispatch_initiateDownload s (SdoClient.expeditedDownload index subindex value) (ctx 0)
    hcs
  unfold SdoState.handleInitiateDownload at hd
  simp only [haddr, hexp', if_true, hlen, hvalue] at hd
  by_cases hlock : pdoConfigLocked (ctx 0) index = true
  · rw [if_pos hlock] at hd
    exact exchange_refused _ value (processWithContext_of_abort free hd) hactive (by simp [hlock])
  · rw [if_neg hlock] at hd
    have hclient : client.processResponse (encodeDownloadResponse index subindex) =
        ({ client with state := .idle }, .downloadComplete) := by
      rw [processResponse_downloadInit hstate, SdoClient.handleDownloadInitResponse,
        if_pos (by omega)]
    obtain ⟨result, client', s', hrun, hout⟩ := exchange_commit
      (sender.request (SdoClient.expeditedDownload index subindex value))
      (processWithContext_of_commit free hd) hactive hclient
    exact ⟨result, client', s', hrun, hout.congr (and_iff_right (by simpa using hlock))⟩

theorem exchange_expeditedDownload (ctx : ℕ → SdoContext) (client sender : SdoClient BUF)
    (s : SdoState OD cap) (free : s.server.inBlockDownloadData = false) (index : UInt16)
    (subindex : UInt8) {value : List UInt8} (h0 : 0 < value.length) (h4 : value.length ≤ 4)
    (hstate : client.state = .waitingDownloadInitResponse index subindex)
    (htotal : client.totalLen = value.length) :
    ∃ result client' s',
      exchange ctx 1 0 client s (sender.request (SdoClient.expeditedDownload index subindex value)) =
        some ⟨some result, client', s'⟩ ∧
      DownloadOutcome (pdoConfigLocked (ctx 0) index = false ∧
        Accepts s.od (ctx 0) index subindex value) s s' index subindex value result := by
  obtain ⟨result, client', s', hrun, hends⟩ :=
    exchange_expeditedDownload_ends ctx client sender s free index subindex h0 h4 hstate htotal
  exact ⟨result, client', s', hrun, hends.outcome⟩

/-! ### Segmented downloads -/

/-- The segment of `value` that starts at `offset`. -/
def downloadSegment (value : List UInt8) (offset : ℕ) (toggle : Bool) : SdoFrame :=
  .segment (segmentByte 0 toggle (7 - min (value.length - offset) 7)
    (decide (value.length - offset ≤ 7))) ((value.drop offset).take 7)

/-- The number of the frame that completes a download. -/
def commitFrame (value : List UInt8) : ℕ :=
  if 0 < value.length ∧ value.length ≤ 4 then 0 else max 1 ((value.length + 6) / 7)

theorem length_segment (value : List UInt8) (offset : ℕ) :
    ((value.drop offset).take 7).length = min (value.length - offset) 7 := by
  simp [Nat.min_comm]

theorem downloadSegment_spec (value : List UInt8) (offset : ℕ) (toggle : Bool) :
    let f := downloadSegment value offset toggle
    commandSpecifier f.b0 = 0 ∧ toggleBit f.b0 = toggle ∧
      lastBit f.b0 = decide (value.length - offset ≤ 7) ∧
      f.payload.take (7 - unusedBytes f.b0) = (value.drop offset).take 7 := by
  obtain ⟨hcs, htog, hun, hl⟩ := segmentByte_spec toggle (decide (value.length - offset ≤ 7))
    (Nat.sub_le 7 (min (value.length - offset) 7))
  refine ⟨hcs, htog, hl, ?_⟩
  have hlen := length_segment value offset
  have htake := SdoFrame.take_payload_segment (segmentByte 0 toggle
    (7 - min (value.length - offset) 7) (decide (value.length - offset ≤ 7)))
    ((value.drop offset).take 7) (by omega)
  rw [hlen] at htake
  simp only [downloadSegment, SdoFrame.segment_b0, hun]
  rw [show 7 - (7 - min (value.length - offset) 7) = min (value.length - offset) 7 by omega]
  exact htake

/-- Client and server agree on the part of the value transferred so far. The client
has just sent the segment at `t.offset`, as frame `i`. -/
structure DownloadAligned (client : SdoClient BUF) (t : SegmentedTransfer) (index : UInt16)
    (subindex : UInt8) (value : List UInt8) (i : ℕ) : Prop where
  direction : t.direction = .download
  index_eq : t.index = index
  subindex_eq : t.subindex = subindex
  sizeIndicated : t.sizeIndicated = true
  total : t.totalLen = value.length % 2 ^ 32
  within : t.offset ≤ t.totalLen
  received : t.buf.front t.offset = value.take t.offset
  state : client.state = .downloadSegmented index subindex t.toggle
  clientTotal : client.totalLen = value.length
  clientBuf : client.buf.front value.length = value
  fits : value.length ≤ BUF
  sent : client.offset = t.offset + min (value.length - t.offset) 7
  pending : t.offset < value.length ∨ value.length = 0
  frame : t.offset + 7 = 7 * i

section

variable {s : SdoState OD cap} {t : SegmentedTransfer} {request : SdoFrame} (ctx : SdoContext)

theorem dispatch_downloadSegment (htr : s.server.transfer = some (.segmented t))
    (hcs : commandSpecifier request.b0 = 0) :
    s.server.inBlockDownloadData = false ∧
      s.dispatch request ctx = s.handleDownloadSegment request ctx := by
  refine ⟨by simp [SdoServer.inBlockDownloadData, htr], ?_⟩
  simp [SdoState.dispatch, hcs, Ccs.toByte]

theorem processWithContext_wrongLength (htr : s.server.transfer = some (.segmented t))
    (hdir : t.direction = .download) (hcs : commandSpecifier request.b0 = 0)
    (htog : toggleBit request.b0 = t.toggle) (hsize : t.sizeIndicated = true)
    (hbad : t.totalLen < t.offset + (request.payload.take (7 - unusedBytes request.b0)).length ∨
      (lastBit request.b0 = true ∧
        t.offset + (request.payload.take (7 - unusedBytes request.b0)).length ≠ t.totalLen)) :
    ∃ code, s.processWithContext request ctx =
      (s.setTransfer none, some (encodeSdoAbort t.index t.subindex code)) := by
  obtain ⟨free, hd⟩ := dispatch_downloadSegment ctx htr hcs
  unfold SdoState.handleDownloadSegment at hd
  simp only [htr, hdir, htog, ne_eq, not_true, if_false, dite_true] at hd
  rw [if_pos ⟨hsize, hbad⟩] at hd
  have h := processWithContext_of_abort free hd
  exact ⟨_, h⟩

/-- The last segment of the declared size commits the received bytes. -/
theorem processWithContext_lastSegment (htr : s.server.transfer = some (.segmented t))
    (hdir : t.direction = .download) (hcs : commandSpecifier request.b0 = 0)
    (htog : toggleBit request.b0 = t.toggle) (hlast : lastBit request.b0 = true)
    (hlen : t.offset + (request.payload.take (7 - unusedBytes request.b0)).length = t.totalLen) :
    s.processWithContext request ctx = s.commitDownload ctx t.index t.subindex
      (t.buf.front t.offset ++ request.payload.take (7 - unusedBytes request.b0))
      (encodeDownloadSegmentResponse t.toggle) := by
  obtain ⟨free, hd⟩ := dispatch_downloadSegment ctx htr hcs
  have hcap := t.total_le
  unfold SdoState.handleDownloadSegment at hd
  simp only [htr, hdir, htog, hlast, ne_eq, not_true, if_false, dite_true, if_true] at hd
  rw [if_neg (by rintro ⟨-, h | ⟨-, h⟩⟩ <;> omega), dif_neg (by omega)] at hd
  rw [← FixedBuffer.front_write _ _ _ (by omega)]
  exact processWithContext_of_commit free hd

/-- A segment before the last one is stored and confirmed. -/
theorem processWithContext_innerSegment (htr : s.server.transfer = some (.segmented t))
    (hdir : t.direction = .download) (hcs : commandSpecifier request.b0 = 0)
    (htog : toggleBit request.b0 = t.toggle) (hlast : lastBit request.b0 = false)
    {data : List UInt8} (hpay : request.payload.take (7 - unusedBytes request.b0) = data)
    (hlen : t.offset + data.length ≤ t.totalLen) :
    s.processWithContext request ctx =
      (s.setTransfer (some (.segmented (t.received data ctx.nowUs hdir (hlen.trans t.total_le)))),
        some (encodeDownloadSegmentResponse t.toggle)) := by
  subst hpay
  obtain ⟨free, hd⟩ := dispatch_downloadSegment ctx htr hcs
  have hcap := t.total_le
  unfold SdoState.handleDownloadSegment at hd
  simp only [htr, hdir, htog, hlast, ne_eq, not_true, if_false, dite_true, Bool.false_eq_true,
    false_and, or_false] at hd
  rw [if_neg (by omega), dif_neg (by omega)] at hd
  refine processWithContext_of_dispatch free hd (fun h => ?_)
  rw [encodeDownloadSegmentResponse_b0] at h
  cases ht : t.toggle <;> rw [ht] at h <;> exact absurd h (by decide)

end

theorem processResponse_downloadSegment {client : SdoClient BUF} {index : UInt16} {subindex : UInt8}
    {toggle : Bool} (hstate : client.state = .downloadSegmented index subindex toggle) :
    client.processResponse (encodeDownloadSegmentResponse toggle) =
      if client.totalLen ≤ client.offset then ({ client with state := .idle }, .downloadComplete)
      else client.sendSegment index subindex (!toggle) := by
  have hcs : commandSpecifier (encodeDownloadSegmentResponse toggle).b0 = 1 := by
    cases toggle <;> decide
  have htog : toggleBit (encodeDownloadSegmentResponse toggle).b0 = toggle := by
    cases toggle <;> decide
  rw [SdoClient.processResponse]
  simp only [hcs, hstate]
  rw [if_neg (by decide), if_pos (by decide), SdoClient.handleDownloadSegmentResponse, htog]
  simp

/-- The segment the client builds from its buffer. -/
theorem sendSegment_eq {client : SdoClient BUF} {value : List UInt8}
    (htotal : client.totalLen = value.length) (hbuf : client.buf.front value.length = value)
    (index : UInt16) (subindex : UInt8) (toggle : Bool) :
    client.sendSegment index subindex toggle =
      ({ client with
          state := .downloadSegmented index subindex toggle
          offset := client.offset + min (value.length - client.offset) 7 },
        .sendNext (client.request (downloadSegment value client.offset toggle))) := by
  have hslice : client.buf.slice client.offset (min (value.length - client.offset) 7) =
      (value.drop client.offset).take 7 := by
    by_cases hle : client.offset ≤ value.length
    · have hin : client.offset + min (value.length - client.offset) 7 ≤ value.length := by omega
      rw [← client.buf.slice_front hin, hbuf]
      rcases Nat.le_total (value.length - client.offset) 7 with h7 | h7
      · rw [Nat.min_eq_left h7, List.take_of_length_le (by simp),
          List.take_of_length_le (by simpa using h7)]
      · rw [Nat.min_eq_right h7]
    · rw [Nat.sub_eq_zero_of_le (by omega), List.drop_eq_nil_of_le (by omega)]
      simp [FixedBuffer.slice]
  simp only [SdoClient.sendSegment, SdoClient.makeDownloadSegment, htotal, hslice, downloadSegment]
  rfl

/-- Alignment after a segment that was not the last one. -/
theorem DownloadAligned.next {client : SdoClient BUF} {t : SegmentedTransfer} {index : UInt16}
    {subindex : UInt8} {value : List UInt8} {i : ℕ}
    (hal : DownloadAligned client t index subindex value i) (hmore : ¬value.length - t.offset ≤ 7)
    (hle : t.offset + ((value.drop t.offset).take 7).length ≤ t.totalLen) (nowUs : UInt64) :
    DownloadAligned
      { client with
        state := .downloadSegmented index subindex (!t.toggle)
        offset := client.offset + min (value.length - client.offset) 7 }
      (t.received ((value.drop t.offset).take 7) nowUs hal.direction (hle.trans t.total_le))
      index subindex value (i + 1) := by
  have hlen := length_segment value t.offset
  have hsent := hal.sent
  have hframe := hal.frame
  have hoff : (t.received ((value.drop t.offset).take 7) nowUs hal.direction
      (hle.trans t.total_le)).offset = client.offset := by
    rw [hsent, ← hlen]
    rfl
  refine ⟨hal.direction, hal.index_eq, hal.subindex_eq, hal.sizeIndicated, hal.total, hle, ?_, rfl,
    hal.clientTotal, hal.clientBuf, hal.fits, ?_, ?_, ?_⟩
  · have hcap := t.total_le
    have hseven : ((value.drop t.offset).take 7).length = 7 := by omega
    have hw := t.buf.front_write t.offset ((value.drop t.offset).take 7) (by omega)
    rw [hal.received, ← List.take_add] at hw
    exact hw.trans (congrArg (fun k => value.take (t.offset + k)) hseven.symm)
  · rw [hoff]
  · rw [hoff]
    omega
  · rw [hoff]
    omega

/-- From an aligned state the exchange ends, by the outcome of the commit or by an abort
for a declared size that does not fit. -/
theorem exchange_downloadLoop (ctx : ℕ → SdoContext) (index : UInt16) (subindex : UInt8)
    (value : List UInt8) (hlong : ¬(0 < value.length ∧ value.length ≤ 4)) (n : ℕ) :
    ∀ (i : ℕ) (client sender : SdoClient BUF) (s : SdoState OD cap) (t : SegmentedTransfer),
      value.length - t.offset = n → s.server.transfer = some (.segmented t) →
      DownloadAligned client t index subindex value i →
      ∃ fuel result client' s',
        exchange ctx fuel i client s (sender.request (downloadSegment value t.offset t.toggle)) =
          some ⟨some result, client', s'⟩ ∧
        DownloadEnds (value.length ≤ 889 ∧
          Accepts s.od (ctx (commitFrame value)) index subindex value) s s' index subindex value
          result := by
  induction n using Nat.strong_induction_on with
  | _ n ih =>
    intro i client sender s t hn htr hal
    obtain ⟨hcs, htog, hlast, hpay⟩ := downloadSegment_spec value t.offset t.toggle
    have hwithin := hal.within
    have hcap := t.total_le
    have htotal := hal.total
    have hpending := hal.pending
    have hframe := hal.frame
    have hactive : client.state.active = some (t.index, t.subindex) := by
      rw [hal.state, hal.index_eq, hal.subindex_eq]
      rfl
    have hdata := length_segment value t.offset
    by_cases hbad : t.totalLen < t.offset + min (value.length - t.offset) 7 ∨
        (value.length - t.offset ≤ 7 ∧
          t.offset + min (value.length - t.offset) 7 ≠ t.totalLen)
    · have hna : ¬(value.length ≤ 889 ∧
          Accepts s.od (ctx (commitFrame value)) index subindex value) := by
        rintro ⟨hle, -⟩
        rw [Nat.mod_eq_of_lt (by omega)] at htotal
        omega
      obtain ⟨code, hserver⟩ := processWithContext_wrongLength (ctx i) htr hal.direction hcs htog
        hal.sizeIndicated (by rw [hpay, hdata, hlast]; simpa using hbad)
      obtain ⟨result, client', s', hrun, hout⟩ := exchange_refused
        (sender.request (downloadSegment value t.offset t.toggle)) value hserver hactive hna
      rw [hal.index_eq, hal.subindex_eq] at hout
      exact ⟨1, result, client', s', hrun, hout⟩
    simp only [not_or, not_and, not_lt, not_not] at hbad
    obtain ⟨hle, hexact⟩ := hbad
    have hsent := hal.sent
    have hclientTotal := hal.clientTotal
    have hclient := processResponse_downloadSegment hal.state
    by_cases hend : value.length - t.offset ≤ 7
    · have hwhole : t.offset + min (value.length - t.offset) 7 = value.length := by omega
      have hlen : t.totalLen = value.length := by rw [← hexact hend, hwhole]
      have hnow : commitFrame value = i := by
        rw [commitFrame, if_neg hlong]
        omega
      have hvalue : t.buf.front t.offset ++ (value.drop t.offset).take 7 = value := by
        have hrest : (value.drop t.offset).length ≤ 7 := by simpa using hend
        rw [hal.received, List.take_of_length_le hrest, List.take_append_drop]
      have hserver := processWithContext_lastSegment (ctx i) htr hal.direction hcs htog
        (by rw [hlast]; simpa using hend) (by rw [hpay, hdata]; exact hexact hend)
      rw [hpay, hvalue] at hserver
      rw [if_pos (by omega)] at hclient
      obtain ⟨result, client', s', hrun, hout⟩ := exchange_commit
        (sender.request (downloadSegment value t.offset t.toggle)) hserver hactive hclient
      rw [hal.index_eq, hal.subindex_eq] at hout
      rw [hnow]
      exact ⟨1, result, client', s', hrun, hout.congr (and_iff_right (by omega))⟩
    · have hserver := processWithContext_innerSegment (ctx i) htr hal.direction hcs htog
        (by rw [hlast]; simpa using hend) hpay (by rw [hdata]; exact hle)
      rw [if_neg (by omega), sendSegment_eq hal.clientTotal hal.clientBuf] at hclient
      have hnext := hal.next hend (by rw [hdata]; exact hle) (ctx i).nowUs
      obtain ⟨fuel, result, client', s', hrun, hout⟩ := ih
        (value.length - (t.offset + ((value.drop t.offset).take 7).length)) (by omega) (i + 1) _ client
        (s.setTransfer (some (.segmented (t.received _ (ctx i).nowUs hal.direction _)))) _ rfl rfl hnext
      have hstep : client.offset = t.offset + ((value.drop t.offset).take 7).length := by
        rw [hsent, hdata]
      have hseg : downloadSegment value client.offset (!t.toggle) =
          downloadSegment value (t.offset + ((value.drop t.offset).take 7).length) (!t.toggle) := by
        rw [hstep]
      rw [hseg] at hclient
      exact ⟨fuel + 1, result, client', s', (exchange_next hserver hclient).trans hrun, hout.outcome, hout.idle⟩

theorem exchange_segmentedDownload_ends (ctx : ℕ → SdoContext) (client sender : SdoClient BUF)
    (s : SdoState OD cap) (free : s.server.inBlockDownloadData = false) (index : UInt16)
    (subindex : UInt8) {value : List UInt8} (hlong : ¬(0 < value.length ∧ value.length ≤ 4))
    (hfits : value.length ≤ BUF)
    (hstate : client.state = .waitingDownloadInitResponse index subindex)
    (htotal : client.totalLen = value.length) (hbuf : client.buf.front value.length = value)
    (hoffset : client.offset = 0) :
    ∃ fuel result client' s',
      exchange ctx fuel 0 client s
          (sender.request (SdoClient.segmentedDownload index subindex value)) =
        some ⟨some result, client', s'⟩ ∧
      DownloadEnds (pdoConfigLocked (ctx 0) index = false ∧ value.length ≤ 889 ∧
        Accepts s.od (ctx (commitFrame value)) index subindex value) s s' index subindex value
        result := by
  have hactive : client.state.active = some (index, subindex) := by rw [hstate]; rfl
  have hcs : commandSpecifier (SdoClient.segmentedDownload index subindex value).b0 =
      Ccs.initiateDownload.toByte := by
    rw [SdoClient.segmentedDownload, SdoFrame.initiate_b0]
    decide
  have haddr : parseIndexSub (SdoClient.segmentedDownload index subindex value) =
      (index, subindex) := parseIndexSub_initiate ..
  have hexp : ((SdoClient.segmentedDownload index subindex value).b0 &&& 0x02 != 0) = false := by
    rw [SdoClient.segmentedDownload, SdoFrame.initiate_b0]
    decide
  have hsize : ((SdoClient.segmentedDownload index subindex value).b0 &&& 0x01 != 0) = true := by
    rw [SdoClient.segmentedDownload, SdoFrame.initiate_b0]
    decide
  have hdecl : declaredLen (SdoClient.segmentedDownload index subindex value) true =
      value.length % 2 ^ 32 := by
    rw [declaredLen, if_pos rfl, SdoClient.segmentedDownload, SdoFrame.size_initiate,
      UInt32.toNat_ofNat']
  have hd := dispatch_initiateDownload s (SdoClient.segmentedDownload index subindex value) (ctx 0) hcs
  unfold SdoState.handleInitiateDownload at hd
  simp only [haddr, hexp, hsize, hdecl, Bool.false_eq_true, if_false] at hd
  by_cases hlock : pdoConfigLocked (ctx 0) index = true
  · rw [if_pos hlock] at hd
    obtain ⟨result, client', s', h⟩ := exchange_refused
      (sender.request (SdoClient.segmentedDownload index subindex value)) value
      (processWithContext_of_abort free hd) hactive
      (show ¬(pdoConfigLocked (ctx 0) index = false ∧ value.length ≤ 889 ∧
        Accepts s.od (ctx (commitFrame value)) index subindex value) by simp [hlock])
    exact ⟨1, result, client', s', h⟩
  rw [if_neg hlock] at hd
  by_cases hlen : 889 < value.length % 2 ^ 32
  · rw [dif_pos hlen] at hd
    obtain ⟨result, client', s', h⟩ := exchange_refused
      (sender.request (SdoClient.segmentedDownload index subindex value)) value
      (processWithContext_of_abort free hd) hactive
      (show ¬(pdoConfigLocked (ctx 0) index = false ∧ value.length ≤ 889 ∧
        Accepts s.od (ctx (commitFrame value)) index subindex value) by
          rintro ⟨-, hle, -⟩
          rw [Nat.mod_eq_of_lt (by omega)] at hlen
          omega)
    exact ⟨1, result, client', s', h⟩
  rw [dif_neg hlen] at hd
  have hserver := processWithContext_of_dispatch free hd (by
    intro h
    rw [encodeDownloadResponse_b0] at h
    exact absurd h (by decide))
  have hclient := processResponse_downloadInit hstate
  rw [SdoClient.handleDownloadInitResponse, htotal, if_neg hlong, sendSegment_eq htotal hbuf,
    hoffset] at hclient
  obtain ⟨fuel, result, client', s', hrun, hout⟩ := exchange_downloadLoop ctx index subindex value
    hlong _ 1
    { client with
      state := .downloadSegmented index subindex false
      offset := 0 + min (value.length - 0) 7 } client
    (s.setTransfer (some (.segmented (.newDownload index subindex (value.length % 2 ^ 32) true
      (ctx 0).nowUs (by omega))))) _ rfl rfl
    ⟨rfl, rfl, rfl, rfl, rfl, Nat.zero_le _, rfl, rfl, htotal, hbuf, hfits, rfl,
      show 0 < value.length ∨ _ by omega, rfl⟩
  have hends := hout.congr (and_iff_right (by simpa using hlock : pdoConfigLocked (ctx 0) index = false))
  exact ⟨fuel + 1, result, client', s', (exchange_next hserver hclient).trans hrun, hends.outcome, hends.idle⟩

theorem exchange_segmentedDownload (ctx : ℕ → SdoContext) (client sender : SdoClient BUF)
    (s : SdoState OD cap) (free : s.server.inBlockDownloadData = false) (index : UInt16)
    (subindex : UInt8) {value : List UInt8} (hlong : ¬(0 < value.length ∧ value.length ≤ 4))
    (hfits : value.length ≤ BUF)
    (hstate : client.state = .waitingDownloadInitResponse index subindex)
    (htotal : client.totalLen = value.length) (hbuf : client.buf.front value.length = value)
    (hoffset : client.offset = 0) :
    ∃ fuel result client' s',
      exchange ctx fuel 0 client s
          (sender.request (SdoClient.segmentedDownload index subindex value)) =
        some ⟨some result, client', s'⟩ ∧
      DownloadOutcome (pdoConfigLocked (ctx 0) index = false ∧ value.length ≤ 889 ∧
        Accepts s.od (ctx (commitFrame value)) index subindex value) s s' index subindex value
        result := by
  obtain ⟨fuel, result, client', s', hrun, hends⟩ := exchange_segmentedDownload_ends ctx client sender s free
    index subindex hlong hfits hstate htotal hbuf hoffset
  exact ⟨fuel, result, client', s', hrun, hends.outcome⟩

/-- Client and server agree. Whatever the dictionary, the object and the value, the
exchange ends. An upload delivers exactly the bytes read at the initiate request
whenever they fit, and never others. A download that the client accepts is written
exactly once, as it is and where it belongs, if the lock, the transfer limit, the
validation and the dictionary accept it; otherwise it ends in an abort without a
successful write. -/
theorem client_server_agree (ctx : ℕ → SdoContext) (client : SdoClient BUF) (s : SdoState OD cap)
    (free : s.server.inBlockDownloadData = false) (index : UInt16) (subindex : UInt8) :
    (∃ fuel result client' s',
      exchange ctx fuel 0 (client.startUpload index subindex).1 s
          (client.startUpload index subindex).2 = some ⟨some result, client', s'⟩ ∧
      (∀ len buf, ObjectDictionary.read s.od index subindex (FixedBuffer.filled 889 0) =
          (.ok len, buf) → len.1 ≤ BUF →
        result = .uploadComplete len ∧ client'.data = buf.front len) ∧
      ∀ n, result = .uploadComplete n → ∃ len buf,
        ObjectDictionary.read s.od index subindex (FixedBuffer.filled 889 0) = (.ok len, buf) ∧
          n = len ∧ client'.data = buf.front len) ∧
    ∀ value frame, (client.startDownload index subindex value).2 = some frame →
      ∃ fuel result client' s',
        exchange ctx fuel 0 (client.startDownload index subindex value).1 s frame =
          some ⟨some result, client', s'⟩ ∧
        DownloadOutcome (pdoConfigLocked (ctx 0) index = false ∧ value.length ≤ 889 ∧
          Accepts s.od (ctx (commitFrame value)) index subindex value) s s' index subindex value
          result := by
  refine ⟨exchange_upload ctx client s free index subindex, ?_⟩
  intro value frame hstart
  unfold SdoClient.startDownload at hstart ⊢
  by_cases hshort : 0 < value.length ∧ value.length ≤ 4
  · rw [if_pos hshort] at hstart ⊢
    cases hstart
    obtain ⟨result, client', s', hrun, hout⟩ := exchange_expeditedDownload ctx
      { client with
        state := .waitingDownloadInitResponse index subindex
        totalLen := value.length } client s free index subindex hshort.1 hshort.2 rfl rfl
    have hframe : commitFrame value = 0 := if_pos hshort
    rw [hframe]
    exact ⟨1, result, client', s', hrun, fun h => hout.1 ⟨h.1, h.2.2⟩,
      fun h => hout.2 fun ha => h ⟨ha.1, by omega, ha.2⟩⟩
  rw [if_neg hshort] at hstart ⊢
  by_cases hfit : BUF < value.length
  · rw [if_pos hfit] at hstart
    cases hstart
  · rw [if_neg hfit] at hstart ⊢
    cases hstart
    have hwritten := client.buf.front_write 0 value (by omega)
    rw [Nat.zero_add, FixedBuffer.front_zero, List.nil_append] at hwritten
    exact exchange_segmentedDownload ctx _ client s free index subindex hshort (by omega) rfl rfl
      hwritten rfl

/-- Ten bytes for the domain of the sample drive. -/
def sampleValue : List UInt8 := [1, 2, 3, 4, 5, 6, 7, 8, 9, 10]

def sampleWritten : Derive.GeneratedOd := (ObjectDictionary.write Derive.sampleOd 0x2020 0 sampleValue).2

/-- A fresh client and the sample drive in Pre-Operational: ten bytes go down in segments and come
up again. -/
theorem client_server_agree_sample :
    let client : SdoClient 32 := .new Derive.sampleNode
    let server (od : Derive.GeneratedOd) : SdoState Derive.GeneratedOd 4 := ⟨.new, od, .empty, []⟩
    let ctx : ℕ → SdoContext := fun _ => .standalone .preOperational 0
    (∃ frame fuel client' s', (client.startDownload 0x2020 0 sampleValue).2 = some frame ∧
      exchange ctx fuel 0 (client.startDownload 0x2020 0 sampleValue).1 (server Derive.sampleOd) frame =
        some ⟨some .downloadComplete, client', s'⟩ ∧
      s'.writes = [⟨0x2020, 0, sampleValue, true⟩] ∧ s'.od = sampleWritten) ∧
    ∃ fuel result client' s',
      exchange ctx fuel 0 (client.startUpload 0x2020 0).1 (server sampleWritten)
        (client.startUpload 0x2020 0).2 = some ⟨some result, client', s'⟩ ∧
      result = .uploadComplete 10 ∧ client'.data = sampleValue := by
  intro client server ctx
  refine ⟨?_, ?_⟩
  · obtain ⟨frame, hframe⟩ : ∃ frame, (client.startDownload 0x2020 0 sampleValue).2 = some frame :=
      ⟨_, rfl⟩
    obtain ⟨fuel, result, client', s', hrun, hout⟩ :=
      (client_server_agree ctx client (server Derive.sampleOd) rfl 0x2020 0).2 sampleValue frame hframe
    have haccepts : Accepts Derive.sampleOd (ctx (commitFrame sampleValue)) 0x2020 0 sampleValue :=
      ⟨by decide, by decide⟩
    obtain ⟨rfl, hwrites, hod⟩ := hout.1 ⟨by decide, by decide, haccepts⟩
    exact ⟨frame, fuel, client', s', hframe, hrun, hwrites, hod⟩
  · obtain ⟨fuel, result, client', s', hrun, hup, -⟩ :=
      (client_server_agree ctx client (server sampleWritten) rfl 0x2020 0).1
    have hread := hup ⟨10, by decide⟩ ((FixedBuffer.filled 889 0).write 0 sampleValue) rfl (by decide)
    exact ⟨fuel, result, client', s', hrun, hread.1, hread.2.trans (by decide)⟩

end Canopen.Sdo
