import Canopen.Derive.GeneratedOd
import Canopen.Sdo.Server

/-!
# What one request can do

A request either leaves dictionary, event queue, write log and commit signal
alone, or it is a commit: `CommitRequest` lists the three ways a download can
reach `commitDownload` and what has been checked by then. Everything about
committed data is derived from this case distinction.
-/

namespace Canopen.Sdo

open LittleEndian

variable {OD : Type} [ObjectDictionary OD] {cap : ℕ}

def SdoFrame.isAbort (f : SdoFrame) : Bool := f.b0 == 0x80

/-- Nothing outside the transfer slot has changed. -/
structure SameData (s s' : SdoState OD cap) : Prop where
  od : s'.od = s.od
  events : s'.events = s.events
  writes : s'.writes = s.writes
  committed : s'.server.committedWrite = s.server.committedWrite

section

omit [ObjectDictionary OD]

theorem sameData_refl (s : SdoState OD cap) : SameData s s := ⟨rfl, rfl, rfl, rfl⟩

theorem sameData_setTransfer (s : SdoState OD cap) (t : Option TransferState) :
    SameData s (s.setTransfer t) := ⟨rfl, rfl, rfl, rfl⟩

theorem SameData.trans {s s' s'' : SdoState OD cap} (h : SameData s s') (h' : SameData s' s'') :
    SameData s s'' :=
  ⟨h'.od.trans h.od, h'.events.trans h.events, h'.writes.trans h.writes,
    h'.committed.trans h.committed⟩

theorem sameData_serve {s : SdoState OD cap} {r : SdoServer × Option SdoFrame}
    (h : r.1.committedWrite = s.server.committedWrite) : SameData s (s.serve r).1 :=
  ⟨rfl, rfl, rfl, h⟩

end

/-- The request completes a download of `data`, to be answered by `success`. -/
inductive CommitRequest (s : SdoState OD cap) (request : SdoFrame) (ctx : SdoContext) :
    UInt16 → UInt8 → List UInt8 → SdoFrame → Prop
  | expedited
      (free : s.server.inBlockDownloadData = false)
      (service : commandSpecifier request.b0 = Ccs.initiateDownload.toByte)
      (expedited : request.b0 &&& 0x02 ≠ 0)
      (unlocked : pdoConfigLocked ctx (parseIndexSub request).1 = false) :
      CommitRequest s request ctx (parseIndexSub request).1 (parseIndexSub request).2
        (request.value.take (SdoState.expeditedLen s.od request))
        (encodeDownloadResponse (parseIndexSub request).1 (parseIndexSub request).2)
  | segmented {t : SegmentedTransfer}
      (transfer : s.server.transfer = some (.segmented t))
      (direction : t.direction = .download)
      (service : commandSpecifier request.b0 = Ccs.downloadSegment.toByte)
      (toggle : toggleBit request.b0 = t.toggle)
      (last : lastBit request.b0 = true)
      (size : t.sizeIndicated = true → t.offset + (7 - unusedBytes request.b0) = t.totalLen)
      (fits : t.offset + (7 - unusedBytes request.b0) ≤ 889) :
      CommitRequest s request ctx t.index t.subindex
        (t.buf.front t.offset ++ request.payload.take (7 - unusedBytes request.b0))
        (encodeDownloadSegmentResponse (toggleBit request.b0))
  | block {b : BlockDownloadState}
      (transfer : s.server.transfer = some (.blockDownload b))
      (awaiting : b.awaitingEnd = true)
      (service : commandSpecifier request.b0 = Ccs.blockDownload.toByte)
      (ending : request.b0 &&& 0x01 ≠ 0)
      (unused : ((request.b0 >>> 2) &&& 0x07).toNat ≤ 6)
      (unused_le : ((request.b0 >>> 2) &&& 0x07).toNat ≤ b.offset)
      (size : b.sizeIndicated = true →
        b.offset - ((request.b0 >>> 2) &&& 0x07).toNat = b.totalLen)
      (crc : b.crcEnabled = true →
        crc16CcittUpdate 0 (b.buf.front (b.offset - ((request.b0 >>> 2) &&& 0x07).toNat)) =
          ofLe16 request.b1 request.b2) :
      CommitRequest s request ctx b.index b.subindex
        (b.buf.front (b.offset - ((request.b0 >>> 2) &&& 0x07).toNat))
        (.segment ((5 : UInt8) <<< 5 ||| 0x01) [])

/-- The answer to a download that went through, by the service of the request. -/
def successResponse (request : SdoFrame) (index : UInt16) (subindex : UInt8) : SdoFrame :=
  if commandSpecifier request.b0 = Ccs.initiateDownload.toByte then
    encodeDownloadResponse index subindex
  else if commandSpecifier request.b0 = Ccs.downloadSegment.toByte then
    encodeDownloadSegmentResponse (toggleBit request.b0)
  else .segment ((5 : UInt8) <<< 5 ||| 0x01) []

theorem CommitRequest.success_eq {s : SdoState OD cap} {request : SdoFrame} {ctx : SdoContext}
    {index : UInt16} {subindex : UInt8} {data : List UInt8} {success : SdoFrame}
    (h : CommitRequest s request ctx index subindex data success) :
    success = successResponse request index subindex := by
  cases h with
  | expedited _ service => simp [successResponse, service]
  | segmented _ _ service => simp [successResponse, service, Ccs.toByte]
  | block _ _ service => simp [successResponse, service, Ccs.toByte]

theorem isAbort_successResponse (request : SdoFrame) (index : UInt16) (subindex : UInt8) :
    (successResponse request index subindex).isAbort = false := by
  unfold successResponse
  split_ifs
  · rfl
  · cases toggleBit request.b0 <;> rfl
  · rfl

/-! ## The commit itself -/

/-- The three outcomes of a commit: refused before the write, refused by the write,
or done. -/
theorem commitDownload_cases (s : SdoState OD cap) (ctx : SdoContext) (index : UInt16)
    (subindex : UInt8) (data : List UInt8) (success : SdoFrame) :
    (∃ code, validateDownload s.od ctx index subindex data = .error code ∧
      s.commitDownload ctx index subindex data success =
        (s.setTransfer none, some (encodeSdoAbort index subindex code))) ∨
    (∃ e code, validateDownload s.od ctx index subindex data = .ok () ∧
      (ObjectDictionary.write s.od index subindex data).1 = .error e ∧
      s.commitDownload ctx index subindex data success =
        ({ s.setTransfer none with
            od := (ObjectDictionary.write s.od index subindex data).2
            writes := s.writes ++ [⟨index, subindex, data, false⟩] },
          some (encodeSdoAbort index subindex code))) ∨
    (validateDownload s.od ctx index subindex data = .ok () ∧
      (ObjectDictionary.write s.od index subindex data).1 = .ok () ∧
      s.commitDownload ctx index subindex data success =
        (⟨⟨none, some (index, subindex)⟩, (ObjectDictionary.write s.od index subindex data).2,
            s.events.pushEvict ⟨index, subindex, .sdo⟩,
            s.writes ++ [⟨index, subindex, data, true⟩]⟩, some success)) := by
  rcases hv : validateDownload s.od ctx index subindex data with code | ⟨⟩
  · exact .inl ⟨code, rfl, by simp [SdoState.commitDownload, SdoState.setTransfer, hv]⟩
  rcases hw : ObjectDictionary.write s.od index subindex data with ⟨result, od'⟩
  cases result with
  | error e =>
    refine .inr (.inl ⟨e, odWriteAbort od' index subindex data.length e, rfl, rfl, ?_⟩)
    simp [SdoState.commitDownload, SdoState.setTransfer, SdoState.odWrite, hv, hw, Except.isOk,
      Except.toBool]
  | ok u =>
    refine .inr (.inr ⟨rfl, rfl, ?_⟩)
    simp [SdoState.commitDownload, SdoState.setTransfer, SdoState.odWrite, hv, hw, Except.isOk,
      Except.toBool]

theorem commitDownload_transfer (s : SdoState OD cap) (ctx : SdoContext) (index : UInt16)
    (subindex : UInt8) (data : List UInt8) (success : SdoFrame) :
    (s.commitDownload ctx index subindex data success).1.server.transfer = none := by
  rcases commitDownload_cases s ctx index subindex data success with
    ⟨code, -, h⟩ | ⟨e, code, -, -, h⟩ | ⟨-, -, h⟩ <;> simp [h, SdoState.setTransfer]

/-! ## Handlers without a commit -/

namespace SdoServer

theorem handleInitiateUpload_committed (srv : SdoServer) (od : OD) (request : SdoFrame)
    (nowUs : UInt64) :
    (srv.handleInitiateUpload od request nowUs).1.committedWrite = srv.committedWrite := by
  unfold handleInitiateUpload
  dsimp only
  split
  · rfl
  · split_ifs <;> rfl

theorem handleUploadSegment_committed (srv : SdoServer) (request : SdoFrame) (nowUs : UInt64) :
    (srv.handleUploadSegment request nowUs).1.committedWrite = srv.committedWrite := by
  unfold handleUploadSegment
  split
  · split_ifs <;> rfl
  · rfl

theorem blockUploadInitiate_committed (srv : SdoServer) (od : OD) (request : SdoFrame)
    (nowUs : UInt64) :
    (srv.blockUploadInitiate od request nowUs).1.committedWrite = srv.committedWrite := by
  unfold blockUploadInitiate
  dsimp only
  split
  · rfl
  · split <;> rfl

theorem blockUploadStart_committed (srv : SdoServer) (nowUs : UInt64) :
    (srv.blockUploadStart nowUs).1.committedWrite = srv.committedWrite := by
  unfold blockUploadStart
  split
  · split_ifs <;> rfl
  · rfl

theorem blockUploadAck_committed (srv : SdoServer) (request : SdoFrame) (nowUs : UInt64) :
    (srv.blockUploadAck request nowUs).1.committedWrite = srv.committedWrite := by
  unfold blockUploadAck
  split
  · dsimp only
    split_ifs <;> rfl
  · rfl

theorem blockUploadEnd_committed (srv : SdoServer) :
    srv.blockUploadEnd.1.committedWrite = srv.committedWrite := by
  unfold blockUploadEnd
  split <;> rfl

theorem handleBlockUpload_committed (srv : SdoServer) (od : OD) (request : SdoFrame)
    (nowUs : UInt64) :
    (srv.handleBlockUpload od request nowUs).1.committedWrite = srv.committedWrite := by
  unfold handleBlockUpload
  dsimp only
  split_ifs
  · exact blockUploadInitiate_committed ..
  · exact blockUploadStart_committed ..
  · exact blockUploadAck_committed ..
  · exact blockUploadEnd_committed ..

theorem blockDownloadInitiate_committed (srv : SdoServer) (request : SdoFrame) (ctx : SdoContext) :
    (srv.blockDownloadInitiate request ctx).1.committedWrite = srv.committedWrite := by
  unfold blockDownloadInitiate
  dsimp only
  split_ifs <;> rfl

theorem handleBlockDownloadSegment_committed (srv : SdoServer) (request : SdoFrame)
    (nowUs : UInt64) :
    (srv.handleBlockDownloadSegment request nowUs).1.committedWrite = srv.committedWrite := by
  unfold handleBlockDownloadSegment
  split
  · dsimp only
    split_ifs <;> rfl
  · rfl

end SdoServer

/-! ## Every request -/

theorem handleInitiateDownload_cases (s : SdoState OD cap) (request : SdoFrame) (ctx : SdoContext)
    (free : s.server.inBlockDownloadData = false)
    (service : commandSpecifier request.b0 = Ccs.initiateDownload.toByte) :
    SameData s (s.handleInitiateDownload request ctx).1 ∨
    ∃ index subindex data success, CommitRequest s request ctx index subindex data success ∧
      s.handleInitiateDownload request ctx =
        s.commitDownload ctx index subindex data success := by
  unfold SdoState.handleInitiateDownload
  dsimp only
  split_ifs with hlock hexp hlen
  · exact .inl (sameData_refl s)
  · exact .inr ⟨_, _, _, _, .expedited free service (by simpa using hexp)
      (by simpa using hlock), rfl⟩
  · exact .inl (sameData_refl s)
  · exact .inl (sameData_setTransfer s _)

theorem length_take_payload (request : SdoFrame) (n : ℕ) :
    (request.payload.take (7 - n)).length = 7 - n := by
  simp

theorem handleDownloadSegment_cases (s : SdoState OD cap) (request : SdoFrame) (ctx : SdoContext)
    (service : commandSpecifier request.b0 = Ccs.downloadSegment.toByte) :
    SameData s (s.handleDownloadSegment request ctx).1 ∨
    ∃ index subindex data success, CommitRequest s request ctx index subindex data success ∧
      s.handleDownloadSegment request ctx =
        s.commitDownload ctx index subindex data success := by
  unfold SdoState.handleDownloadSegment
  rcases htr : s.server.transfer with _ | (t | b | b)
  · exact .inl (sameData_refl s)
  · dsimp only
    split_ifs with hdir htog hsize hfit hlast
    · exact .inl (sameData_setTransfer s _)
    · exact .inl (sameData_setTransfer s _)
    · exact .inl (sameData_setTransfer s _)
    · rw [length_take_payload] at hfit hsize
      refine .inr ⟨t.index, t.subindex, _, _, .segmented htr hdir service (by simpa using htog)
        hlast (fun h => ?_) (by omega), ?_⟩
      · by_contra hne
        exact hsize ⟨h, .inr ⟨hlast, hne⟩⟩
      · congr 1
        rw [← FixedBuffer.front_write]
        · rfl
        · rw [length_take_payload]
          omega
    · exact .inl (sameData_setTransfer s _)
    · exact .inl (sameData_refl s)
  · exact .inl (sameData_refl s)
  · exact .inl (sameData_refl s)

theorem blockDownloadEnd_cases (s : SdoState OD cap) (request : SdoFrame) (ctx : SdoContext)
    (free : s.server.inBlockDownloadData = false)
    (service : commandSpecifier request.b0 = Ccs.blockDownload.toByte)
    (ending : request.b0 &&& 0x01 ≠ 0) :
    SameData s (s.blockDownloadEnd request ctx).1 ∨
    ∃ index subindex data success, CommitRequest s request ctx index subindex data success ∧
      s.blockDownloadEnd request ctx = s.commitDownload ctx index subindex data success := by
  unfold SdoState.blockDownloadEnd
  rcases htr : s.server.transfer with _ | (t | b | b)
  · exact .inl (sameData_refl s)
  · exact .inl (sameData_refl s)
  · exact .inl (sameData_refl s)
  · have hwait : b.awaitingEnd = true := by
      simpa [SdoServer.inBlockDownloadData, htr] using free
    dsimp only
    split_ifs with hun hsize hcrc
    · exact .inl (sameData_setTransfer s _)
    · exact .inl (sameData_setTransfer s _)
    · exact .inl (sameData_setTransfer s _)
    · simp only [not_or, not_lt] at hun
      exact .inr ⟨_, _, _, _, .block htr hwait service ending hun.1 hun.2
        (fun h => by simpa [h] using hsize) (fun h => by simpa [h] using hcrc), rfl⟩

theorem dispatch_cases (s : SdoState OD cap) (request : SdoFrame) (ctx : SdoContext)
    (free : s.server.inBlockDownloadData = false ∨ request.b0 = 0x80) :
    SameData s (s.dispatch request ctx).1 ∨
    ∃ index subindex data success, CommitRequest s request ctx index subindex data success ∧
      s.dispatch request ctx = s.commitDownload ctx index subindex data success := by
  unfold SdoState.dispatch
  dsimp only
  split_ifs with h1 h2 h3 h4 h5 h6 h7
  · exact .inl (sameData_serve (SdoServer.handleInitiateUpload_committed ..))
  · exact .inl (sameData_serve (SdoServer.handleUploadSegment_committed ..))
  · rcases free with free | h80
    · exact handleInitiateDownload_cases s request ctx free h3
    · rw [h80] at h3
      exact absurd h3 (by decide)
  · exact handleDownloadSegment_cases s request ctx h4
  · exact .inl (sameData_serve (SdoServer.handleBlockUpload_committed ..))
  · rcases free with free | h80
    · unfold SdoState.handleBlockDownload
      split_ifs with hsub
      · exact .inl (sameData_serve (SdoServer.blockDownloadInitiate_committed ..))
      · exact blockDownloadEnd_cases s request ctx free h6 hsub
    · rw [h80] at h6
      exact absurd h6 (by decide)
  · exact .inl (sameData_setTransfer s _)
  · exact .inl (sameData_refl s)

theorem handleBlockDownloadSegment_abort (srv : SdoServer) (request : SdoFrame) (nowUs : UInt64)
    (h : srv.inBlockDownloadData = true)
    (ha : (srv.handleBlockDownloadSegment request nowUs).2.any SdoFrame.isAbort) :
    (srv.handleBlockDownloadSegment request nowUs).1.transfer = none := by
  unfold SdoServer.handleBlockDownloadSegment at ha ⊢
  rcases htr : srv.transfer with _ | (t | b | b)
  · simp [SdoServer.inBlockDownloadData, htr] at h
  · simp [SdoServer.inBlockDownloadData, htr] at h
  · simp [SdoServer.inBlockDownloadData, htr] at h
  · rw [htr] at ha
    dsimp only at ha ⊢
    have hack : ¬((5 : UInt8) <<< 5 ||| 2 = 128) := by decide
    split_ifs at ha ⊢
    all_goals first | rfl | simp [SdoFrame.isAbort, hack] at ha

/-- Everything a request can do to the data around the transfer: nothing, or a commit.
An abort leaves no transfer behind. -/
theorem processWithContext_cases (s : SdoState OD cap) (request : SdoFrame) (ctx : SdoContext) :
    (SameData s (s.processWithContext request ctx).1 ∧
      ((s.processWithContext request ctx).2.any SdoFrame.isAbort →
        (s.processWithContext request ctx).1.server.transfer = none)) ∨
    ∃ index subindex data success, CommitRequest s request ctx index subindex data success ∧
      s.processWithContext request ctx = s.commitDownload ctx index subindex data success := by
  unfold SdoState.processWithContext
  split_ifs with hblk
  · rw [Bool.and_eq_true] at hblk
    exact .inl ⟨sameData_serve (SdoServer.handleBlockDownloadSegment_committed ..),
      handleBlockDownloadSegment_abort s.server request ctx.nowUs hblk.1⟩
  have hfree : s.server.inBlockDownloadData = false ∨ request.b0 = 0x80 := by
    simpa [or_iff_not_imp_left] using hblk
  rcases dispatch_cases s request ctx hfree with hsame | ⟨index, subindex, data, success, hreq, heq⟩
  · refine .inl ?_
    dsimp only
    split_ifs with habort
    · exact ⟨hsame.trans (sameData_setTransfer _ _), fun _ => rfl⟩
    · exact ⟨hsame, fun h => absurd h habort⟩
  · refine .inr ⟨index, subindex, data, success, hreq, ?_⟩
    dsimp only
    rw [heq]
    split_ifs
    · have hnone := commitDownload_transfer s ctx index subindex data success
      generalize s.commitDownload ctx index subindex data success = r at hnone
      obtain ⟨⟨⟨transfer, committed⟩, od, events, writes⟩, response⟩ := r
      cases hnone
      rfl
    · rfl

/-! ## Inputs of a server -/

/-- Everything the owner of a server can do with it. -/
inductive SdoInput
  | request (frame : SdoFrame) (ctx : SdoContext)
  | pollBlockUpload (nowUs : UInt64)
  | checkTimeout (nowUs : UInt64)
  | abortTransfer
  | takeCommittedWrite

def SdoState.step (s : SdoState OD cap) : SdoInput → SdoState OD cap × Option SdoFrame
  | .request frame ctx => s.processWithContext frame ctx
  | .pollBlockUpload nowUs => s.serve (s.server.pollBlockUpload nowUs)
  | .checkTimeout nowUs => s.serve (s.server.checkTimeout nowUs)
  | .abortTransfer => (s.setTransfer none, none)
  | .takeCommittedWrite => ({ s with server := s.server.takeCommittedWrite.1 }, none)

/-- Polling, time-outs and local aborts work on the transfer slot only. -/
theorem sameData_step {s : SdoState OD cap} {input : SdoInput}
    (hreq : ∀ frame ctx, input ≠ .request frame ctx) (htake : input ≠ .takeCommittedWrite) :
    SameData s (s.step input).1 := by
  cases input with
  | request frame ctx => exact absurd rfl (hreq frame ctx)
  | pollBlockUpload nowUs =>
    refine sameData_serve ?_
    unfold SdoServer.pollBlockUpload
    split
    · split_ifs <;> rfl
    · rfl
  | checkTimeout nowUs =>
    refine sameData_serve ?_
    unfold SdoServer.checkTimeout
    split
    · split_ifs <;> rfl
    · rfl
  | abortTransfer => exact sameData_setTransfer s none
  | takeCommittedWrite => exact absurd rfl htake

/-! ## Atomicity -/

/-- Exactly one write went through, and everything that reports it agrees. -/
structure Committed (s s' : SdoState OD cap) (response : Option SdoFrame) (request : SdoFrame)
    (index : UInt16) (subindex : UInt8) (data : List UInt8) : Prop where
  write : ObjectDictionary.write s.od index subindex data = (.ok (), s'.od)
  writes : s'.writes = s.writes ++ [⟨index, subindex, data, true⟩]
  events : s'.events.items =
    (if s.events.isFull then s.events.items.tail else s.events.items) ++ [⟨index, subindex, .sdo⟩]
  committed : s'.server.committedWrite = some (index, subindex)
  response : response = some (successResponse request index subindex)

/-- Dictionary, event queue and commit signal are as before; a write that was
tried has been refused. -/
structure Untouched (s s' : SdoState OD cap) : Prop where
  od : s'.od = s.od
  events : s'.events = s.events
  committed : s'.server.committedWrite = s.server.committedWrite
  writes : ∃ refused, s'.writes = s.writes ++ refused ∧ ∀ w ∈ refused, w.accepted = false

omit [ObjectDictionary OD] in
theorem SameData.untouched {s s' : SdoState OD cap} (h : SameData s s') : Untouched s s' :=
  ⟨h.od, h.events, h.committed, [], by simpa using h.writes, by simp⟩

/-- SDO commits are atomic: a call either changes nothing outside the transfer slot
or performs one successful write, reported by one event, the commit signal and the
success response of the service. Every abort leaves the channel without a
transfer, and no other operation of the server touches the dictionary. -/
theorem processWithContext_atomic (hcap : 0 < cap)
    (hrefused : ∀ (od : OD) index subindex data e,
      (ObjectDictionary.write od index subindex data).1 = .error e →
      (ObjectDictionary.write od index subindex data).2 = od)
    (s : SdoState OD cap) (request : SdoFrame) (ctx : SdoContext) :
    (Untouched s (s.processWithContext request ctx).1 ∨
      ∃ index subindex data, Committed s (s.processWithContext request ctx).1
        (s.processWithContext request ctx).2 request index subindex data) ∧
    ((s.processWithContext request ctx).2 = none ∨
        (s.processWithContext request ctx).2.any SdoFrame.isAbort →
      Untouched s (s.processWithContext request ctx).1) ∧
    ((s.processWithContext request ctx).2.any SdoFrame.isAbort →
      (s.processWithContext request ctx).1.server.transfer = none) ∧
    ∀ input, (∀ frame ctx, input ≠ .request frame ctx) → input ≠ .takeCommittedWrite →
      SameData s (s.step input).1 := by
  refine ⟨?_, ?_, ?_, fun input => sameData_step⟩
  all_goals
    rcases processWithContext_cases s request ctx with
      ⟨hsame, habort⟩ | ⟨index, subindex, data, success, hreq, heq⟩
  · exact .inl hsame.untouched
  · rw [heq]
    rcases commitDownload_cases s ctx index subindex data success with
      ⟨code, -, h⟩ | ⟨e, code, -, hw, h⟩ | ⟨-, hw, h⟩ <;> rw [h]
    · exact .inl (sameData_setTransfer s none).untouched
    · exact .inl ⟨hrefused _ _ _ _ _ hw, rfl, rfl, _, rfl, by simp⟩
    · refine .inr ⟨index, subindex, data, Prod.ext hw rfl, rfl, ?_, rfl, by rw [hreq.success_eq]⟩
      exact Deque.pushEvict_items s.events hcap _
  · exact fun _ => hsame.untouched
  · intro hresp
    rw [heq] at hresp ⊢
    rcases commitDownload_cases s ctx index subindex data success with
      ⟨code, -, h⟩ | ⟨e, code, -, hw, h⟩ | ⟨-, hw, h⟩ <;> rw [h] at hresp ⊢
    · exact (sameData_setTransfer s none).untouched
    · exact ⟨hrefused _ _ _ _ _ hw, rfl, rfl, _, rfl, by simp⟩
    · simp [hreq.success_eq, isAbort_successResponse] at hresp
  · exact habort
  · intro _
    rw [heq]
    exact commitDownload_transfer s ctx index subindex data success

/-- Writing the control word of the sample drive, two bytes expedited. -/
theorem processWithContext_atomic_controlword :
    let s : SdoState Derive.GeneratedOd 4 := ⟨.new, Derive.sampleOd, .empty, []⟩
    let request := SdoFrame.initiate 0x2B 0x6040 0 [0x0F, 0x00]
    let ctx := SdoContext.standalone .operational 0
    (s.processWithContext request ctx).2 = some (encodeDownloadResponse 0x6040 0) ∧
      (Untouched s (s.processWithContext request ctx).1 ∨
        ∃ index subindex data, Committed s (s.processWithContext request ctx).1
          (s.processWithContext request ctx).2 request index subindex data) :=
  ⟨by decide, (processWithContext_atomic (by decide) Derive.write_refused _ _ _).1⟩

end Canopen.Sdo
