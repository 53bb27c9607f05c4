import Canopen.Sdo.Transfers

/-!
# Activity of a transfer

A transfer that survives a request counts it as activity, unless the request is ignored: an
acknowledgement of a block upload in the middle of a sub-block, or the confirmation of an upload
that is not there.
-/

namespace Canopen.Sdo

variable {OD : Type} [ObjectDictionary OD] {cap : ℕ}

def SdoFrame.isBlockConfirm (request : SdoFrame) : Bool :=
  commandSpecifier request.b0 == Ccs.blockUpload.toByte &&
    (request.b0 &&& 0x03 == 1 || request.b0 &&& 0x03 == 2)

/-- The transfer and the response a request leaves behind. -/
inductive ActivityStep (srv : SdoServer) (request : SdoFrame) (nowUs : UInt64) :
    Option TransferState → Option SdoFrame → Prop
  | ended (response : Option SdoFrame) : ActivityStep srv request nowUs none response
  | active {t : TransferState} (response : Option SdoFrame) (h : t.lastActivityUs = nowUs) :
    ActivityStep srv request nowUs (some t) response
  | ignored (h : request.isBlockConfirm = true) : ActivityStep srv request nowUs srv.transfer none

variable {srv : SdoServer} {request : SdoFrame} {nowUs : UInt64}

namespace ActivityStep

variable {transfer : Option TransferState} {response : Option SdoFrame}
  (h : ActivityStep srv request nowUs transfer response)
include h

theorem of_transfer {t : TransferState} (ht : transfer = some t) :
    t.lastActivityUs = nowUs ∨ request.isBlockConfirm = true ∧ srv.transfer = some t := by
  cases h with
  | ended response => cases ht
  | active response hactive =>
    cases ht
    exact .inl hactive
  | ignored hconfirm => exact .inr ⟨hconfirm, ht⟩

theorem of_response {t : TransferState} {data : SdoFrame} (ht : transfer = some t)
    (hr : response = some data) : t.lastActivityUs = nowUs := by
  cases h with
  | ended response => cases ht
  | active response hactive =>
    cases ht
    exact hactive
  | ignored hconfirm => cases hr

end ActivityStep

theorem handleInitiateUpload_activity (od : OD) :
    (srv.handleInitiateUpload od request nowUs).2.any SdoFrame.isAbort ∨
      ActivityStep srv request nowUs (srv.handleInitiateUpload od request nowUs).1.transfer
        (srv.handleInitiateUpload od request nowUs).2 := by
  unfold SdoServer.handleInitiateUpload
  dsimp only
  split
  · exact .inl rfl
  · split_ifs
    · exact .inr (.ended _)
    · exact .inr (.active _ rfl)

theorem handleUploadSegment_activity :
    (srv.handleUploadSegment request nowUs).2.any SdoFrame.isAbort ∨
      ActivityStep srv request nowUs (srv.handleUploadSegment request nowUs).1.transfer
        (srv.handleUploadSegment request nowUs).2 := by
  unfold SdoServer.handleUploadSegment
  split
  · split_ifs
    · exact .inl rfl
    · refine .inr ?_
      dsimp only
      split_ifs
      · exact .ended _
      · exact .active _ rfl
    · exact .inl rfl
  · exact .inl rfl

theorem handleBlockUpload_activity (od : OD)
    (service : commandSpecifier request.b0 = Ccs.blockUpload.toByte) :
    (srv.handleBlockUpload od request nowUs).2.any SdoFrame.isAbort ∨
      ActivityStep srv request nowUs (srv.handleBlockUpload od request nowUs).1.transfer
        (srv.handleBlockUpload od request nowUs).2 := by
  have hconfirm (h : request.b0 &&& 0x03 = 1 ∨ request.b0 &&& 0x03 = 2) :
      request.isBlockConfirm = true := by
    simpa [SdoFrame.isBlockConfirm, service] using h
  unfold SdoServer.handleBlockUpload
  dsimp only
  rcases and_three_cases request.b0 with h | h | h | h
  · rw [if_pos h]
    unfold SdoServer.blockUploadInitiate
    dsimp only
    split
    · exact .inl rfl
    · split
      · exact .inl rfl
      · exact .inr (.active _ rfl)
  · rw [if_neg (by rw [h]; decide), if_neg (by rw [h]; decide), if_neg (by rw [h]; decide)]
    unfold SdoServer.blockUploadEnd
    split
    · exact .inr (.ended _)
    · exact .inr (.ignored (hconfirm (.inl h)))
  · rw [if_neg (by rw [h]; decide), if_neg (by rw [h]; decide), if_pos h]
    unfold SdoServer.blockUploadAck
    split
    · dsimp only
      split_ifs
      · exact .inl rfl
      · exact .inr (.ended _)
      · exact .inr (.active _ rfl)
      · exact .inl rfl
      · exact .inr (.ignored (hconfirm (.inr h)))
    · exact .inl rfl
  · rw [if_neg (by rw [h]; decide), if_pos h]
    unfold SdoServer.blockUploadStart
    split
    · split_ifs
      · exact .inr (.active _ rfl)
      · exact .inl rfl
    · exact .inl rfl

theorem handleBlockDownloadSegment_activity (receiving : srv.inBlockDownloadData = true) :
    ActivityStep srv request nowUs (srv.handleBlockDownloadSegment request nowUs).1.transfer
      (srv.handleBlockDownloadSegment request nowUs).2 := by
  unfold SdoServer.handleBlockDownloadSegment
  split
  · dsimp only
    split_ifs
    · exact .ended _
    · exact .ended _
    · exact .active _ rfl
    · exact .active _ rfl
    · exact .active _ rfl
  · next hnone =>
    unfold SdoServer.inBlockDownloadData at receiving
    split at receiving
    · next b htransfer => exact absurd htransfer (hnone b)
    · cases receiving

variable {s : SdoState OD cap} {ctx : SdoContext}

theorem commitDownload_activity (index : UInt16) (subindex : UInt8) (data : List UInt8)
    (success : SdoFrame) :
    ActivityStep s.server request ctx.nowUs
      (s.commitDownload ctx index subindex data success).1.server.transfer
      (s.commitDownload ctx index subindex data success).2 := by
  rw [commitDownload_transfer]
  exact .ended _

theorem handleInitiateDownload_activity :
    (s.handleInitiateDownload request ctx).2.any SdoFrame.isAbort ∨
      ActivityStep s.server request ctx.nowUs (s.handleInitiateDownload request ctx).1.server.transfer
        (s.handleInitiateDownload request ctx).2 := by
  unfold SdoState.handleInitiateDownload
  dsimp only
  split_ifs
  · exact .inl rfl
  · exact .inr (commitDownload_activity ..)
  · exact .inl rfl
  · exact .inr (.active _ rfl)

theorem handleDownloadSegment_activity :
    (s.handleDownloadSegment request ctx).2.any SdoFrame.isAbort ∨
      ActivityStep s.server request ctx.nowUs (s.handleDownloadSegment request ctx).1.server.transfer
        (s.handleDownloadSegment request ctx).2 := by
  unfold SdoState.handleDownloadSegment
  split
  · dsimp only
    split_ifs
    · exact .inl rfl
    · exact .inl rfl
    · exact .inl rfl
    · exact .inr (commitDownload_activity ..)
    · exact .inr (.active _ rfl)
    · exact .inl rfl
  · exact .inl rfl

theorem handleBlockDownload_activity :
    (s.handleBlockDownload request ctx).2.any SdoFrame.isAbort ∨
      ActivityStep s.server request ctx.nowUs (s.handleBlockDownload request ctx).1.server.transfer
        (s.handleBlockDownload request ctx).2 := by
  unfold SdoState.handleBlockDownload
  split_ifs
  · unfold SdoServer.blockDownloadInitiate SdoState.serve
    dsimp only
    split_ifs
    · exact .inl rfl
    · exact .inl rfl
    · exact .inr (.active _ rfl)
  · unfold SdoState.blockDownloadEnd
    split
    · dsimp only
      split_ifs
      · exact .inl rfl
      · exact .inl rfl
      · exact .inl rfl
      · exact .inr (commitDownload_activity ..)
    · exact .inl rfl

/-- A request that a transfer survives is activity, or ignored. -/
theorem processWithContext_activity (s : SdoState OD cap) (request : SdoFrame) (ctx : SdoContext) :
    ActivityStep s.server request ctx.nowUs (s.processWithContext request ctx).1.server.transfer
      (s.processWithContext request ctx).2 := by
  unfold SdoState.processWithContext
  split_ifs with hblock
  · rw [Bool.and_eq_true] at hblock
    exact handleBlockDownloadSegment_activity hblock.1
  dsimp only
  split_ifs with habort
  · exact .ended _
  · refine Or.resolve_left ?_ habort
    change (s.dispatch request ctx).2.any SdoFrame.isAbort = true ∨ _
    unfold SdoState.dispatch
    dsimp only
    split_ifs with _ _ _ _ h
    · exact handleInitiateUpload_activity s.od
    · exact handleUploadSegment_activity
    · exact handleInitiateDownload_activity
    · exact handleDownloadSegment_activity
    · exact handleBlockUpload_activity s.od h
    · exact handleBlockDownload_activity
    · exact .inr (.ended _)
    · exact .inl rfl

theorem pollBlockUpload_activity {srv srv' : SdoServer} {data : SdoFrame}
    (h : srv.pollBlockUpload nowUs = (srv', some data)) :
    ∃ t, srv'.transfer = some t ∧ t.lastActivityUs = nowUs := by
  unfold SdoServer.pollBlockUpload at h
  split at h
  · next b _ =>
    split_ifs at h
    · cases h
    · obtain ⟨rfl, -⟩ := Prod.mk.inj h
      exact ⟨.blockUpload (b.nextSegment nowUs).1, rfl, rfl⟩
  · cases h

end Canopen.Sdo
