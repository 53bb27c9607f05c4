import Canopen.Sdo.Commit

/-!
# The life of a download transfer

`TransferStep` lists every transfer a request can leave behind. Download transfers
appear only through an unlocked initiate request and then only grow by segments
that continue them; every other request ends them, with the one exception of a
stray block-upload confirmation, which is ignored.
-/

namespace Canopen.Sdo

variable {OD : Type} [ObjectDictionary OD] {cap : ℕ}

def TransferState.isDownload : TransferState → Bool
  | .segmented t => t.direction == .download
  | .blockUpload _ => false
  | .blockDownload _ => true

def segmentData (request : SdoFrame) : List UInt8 :=
  request.payload.take (7 - unusedBytes request.b0)

/-- The sequence number of a block segment. -/
def segmentSeqno (request : SdoFrame) : UInt8 := request.b0 &&& 0x7F

/-- Whether a block segment is marked as the last one. -/
def isLastSegment (request : SdoFrame) : Bool := (request.b0 &&& 0x80) != 0

theorem zero_le_capacity : 0 ≤ 889 := Nat.zero_le _

/-- A block download after it was initiated by `request`. -/
def BlockDownloadState.initiated (request : SdoFrame) (nowUs : UInt64) : BlockDownloadState where
  index := (parseIndexSub request).1
  subindex := (parseIndexSub request).2
  buf := .filled 889 0
  offset := 0
  totalLen := declaredLen request ((request.b0 &&& 0x02) != 0)
  sizeIndicated := (request.b0 &&& 0x02) != 0
  blksize := maxBlksize
  seqno := 0
  awaitingEnd := false
  crcEnabled := (request.b0 &&& 0x04) != 0
  lastActivityUs := nowUs
  offset_le := zero_le_capacity

/-- A block download after a segment: the final one is followed by the end request, a
full sub-block by a new one. -/
def BlockDownloadState.advance (b : BlockDownloadState) (request : SdoFrame) (nowUs : UInt64)
    (h : 7 ≤ 889 - b.offset) : BlockDownloadState :=
  let b' := b.received request (segmentSeqno request) nowUs h
  if isLastSegment request then { b' with awaitingEnd := true }
  else if b.blksize ≤ segmentSeqno request then { b' with seqno := 0 }
  else b'

/-- The transfers a request can leave behind. -/
inductive TransferStep (s : SdoState OD cap) (request : SdoFrame) (ctx : SdoContext) :
    Option TransferState → Prop
  | ended : TransferStep s request ctx none
  | upload {t : TransferState} (h : t.isDownload = false) : TransferStep s request ctx (some t)
  | kept {t : TransferState} (transfer : s.server.transfer = some t)
      (free : s.server.inBlockDownloadData = false)
      (service : commandSpecifier request.b0 = Ccs.blockUpload.toByte)
      (confirm : request.b0 &&& 0x03 = 1) : TransferStep s request ctx (some t)
  | initiated
      (service : commandSpecifier request.b0 = Ccs.initiateDownload.toByte)
      (segmented : request.b0 &&& 0x02 = 0)
      (unlocked : pdoConfigLocked ctx (parseIndexSub request).1 = false)
      (h : declaredLen request ((request.b0 &&& 0x01) != 0) ≤ 889) :
      TransferStep s request ctx (some (.segmented (.newDownload (parseIndexSub request).1
        (parseIndexSub request).2 (declaredLen request ((request.b0 &&& 0x01) != 0))
        ((request.b0 &&& 0x01) != 0) ctx.nowUs h)))
  | segment {t : SegmentedTransfer}
      (transfer : s.server.transfer = some (.segmented t)) (direction : t.direction = .download)
      (service : commandSpecifier request.b0 = Ccs.downloadSegment.toByte)
      (toggle : toggleBit request.b0 = t.toggle)
      (h : t.offset + (segmentData request).length ≤ 889) :
      TransferStep s request ctx
        (some (.segmented (t.received (segmentData request) ctx.nowUs direction h)))
  | blockInitiated
      (service : commandSpecifier request.b0 = Ccs.blockDownload.toByte)
      (start : request.b0 &&& 0x01 = 0)
      (unlocked : pdoConfigLocked ctx (parseIndexSub request).1 = false) :
      TransferStep s request ctx (some (.blockDownload (.initiated request ctx.nowUs)))
  | blockSegment {b : BlockDownloadState}
      (transfer : s.server.transfer = some (.blockDownload b)) (receiving : b.awaitingEnd = false)
      (seqno : segmentSeqno request ≠ 0) (next : segmentSeqno request = b.seqno + 1)
      (h : 7 ≤ 889 - b.offset) :
      TransferStep s request ctx (some (.blockDownload (b.advance request ctx.nowUs h)))

theorem handleInitiateUpload_transfer (s : SdoState OD cap) (request : SdoFrame) (ctx : SdoContext) :
    (s.server.handleInitiateUpload s.od request ctx.nowUs).2.any SdoFrame.isAbort ∨
    TransferStep s request ctx (s.server.handleInitiateUpload s.od request ctx.nowUs).1.transfer := by
  unfold SdoServer.handleInitiateUpload
  dsimp only
  split
  · exact .inl rfl
  · split_ifs
    · exact .inr .ended
    · exact .inr (.upload rfl)

omit [ObjectDictionary OD] in
theorem handleUploadSegment_transfer (s : SdoState OD cap) (request : SdoFrame) (ctx : SdoContext) :
    (s.server.handleUploadSegment request ctx.nowUs).2.any SdoFrame.isAbort ∨
    TransferStep s request ctx (s.server.handleUploadSegment request ctx.nowUs).1.transfer := by
  unfold SdoServer.handleUploadSegment
  split
  · rename_i t htr
    split_ifs with hdir htog
    · exact .inl rfl
    · refine .inr ?_
      dsimp only
      split_ifs
      · exact .ended
      · exact .upload (by simp [TransferState.isDownload, SegmentedTransfer.sent, hdir])
    · exact .inl rfl
  · exact .inl rfl

theorem and_three_cases (x : UInt8) :
    x &&& 0x03 = 0 ∨ x &&& 0x03 = 1 ∨ x &&& 0x03 = 2 ∨ x &&& 0x03 = 3 := by
  have h : (x &&& 0x03).toNat = x.toNat % 4 := by
    rw [UInt8.toNat_and]
    exact Nat.and_two_pow_sub_one_eq_mod x.toNat 2
  simp only [← UInt8.toNat_inj, h]
  change _ = 0 ∨ _ = 1 ∨ _ = 2 ∨ _ = 3
  omega

theorem handleBlockUpload_transfer (s : SdoState OD cap) (request : SdoFrame) (ctx : SdoContext)
    (free : s.server.inBlockDownloadData = false)
    (service : commandSpecifier request.b0 = Ccs.blockUpload.toByte) :
    (s.server.handleBlockUpload s.od request ctx.nowUs).2.any SdoFrame.isAbort ∨
    TransferStep s request ctx (s.server.handleBlockUpload s.od request ctx.nowUs).1.transfer := by
  unfold SdoServer.handleBlockUpload
  dsimp only
  by_cases h0 : request.b0 &&& 0x03 = 0
  · rw [if_pos h0]
    unfold SdoServer.blockUploadInitiate
    dsimp only
    split
    · exact .inl rfl
    · split
      · exact .inl rfl
      · exact .inr (.upload rfl)
  by_cases h3 : request.b0 &&& 0x03 = 3
  · rw [if_neg h0, if_pos h3]
    unfold SdoServer.blockUploadStart
    split
    · split_ifs
      · exact .inr (.upload rfl)
      · exact .inl rfl
    · exact .inl rfl
  by_cases h2 : request.b0 &&& 0x03 = 2
  · rw [if_neg h0, if_neg h3, if_pos h2]
    unfold SdoServer.blockUploadAck
    split
    · rename_i b htr
      dsimp only
      split_ifs
      all_goals first
        | exact .inr .ended
        | exact .inr (.upload rfl)
        | exact .inr (htr ▸ .upload rfl)
    · exact .inl rfl
  · have h1 : request.b0 &&& 0x03 = 1 := by
      rcases and_three_cases request.b0 with h | h | h | h
      · exact absurd h h0
      · exact h
      · exact absurd h h2
      · exact absurd h h3
    rw [if_neg h0, if_neg h3, if_neg h2]
    unfold SdoServer.blockUploadEnd
    split
    · exact .inr .ended
    · rcases htr : s.server.transfer with _ | t
      · exact .inr .ended
      · exact .inr (.kept htr free service h1)

theorem commitDownload_transferStep (s : SdoState OD cap) (request : SdoFrame) (ctx : SdoContext)
    (index : UInt16) (subindex : UInt8) (data : List UInt8) (success : SdoFrame) :
    TransferStep s request ctx
      (s.commitDownload ctx index subindex data success).1.server.transfer := by
  rw [commitDownload_transfer]
  exact .ended

theorem handleInitiateDownload_transfer (s : SdoState OD cap) (request : SdoFrame)
    (ctx : SdoContext) (service : commandSpecifier request.b0 = Ccs.initiateDownload.toByte) :
    (s.handleInitiateDownload request ctx).2.any SdoFrame.isAbort ∨
    TransferStep s request ctx (s.handleInitiateDownload request ctx).1.server.transfer := by
  unfold SdoState.handleInitiateDownload
  dsimp only
  split_ifs with hlock hexp hlen
  · exact .inl rfl
  · exact .inr (commitDownload_transferStep ..)
  · exact .inl rfl
  · exact .inr (.initiated service (by simpa using hexp) (by simpa using hlock) (by omega))

theorem handleDownloadSegment_transfer (s : SdoState OD cap) (request : SdoFrame)
    (ctx : SdoContext) (service : commandSpecifier request.b0 = Ccs.downloadSegment.toByte) :
    (s.handleDownloadSegment request ctx).2.any SdoFrame.isAbort ∨
    TransferStep s request ctx (s.handleDownloadSegment request ctx).1.server.transfer := by
  unfold SdoState.handleDownloadSegment
  rcases htr : s.server.transfer with _ | (t | b | b)
  · exact .inl rfl
  · dsimp only
    split_ifs with hdir htog hsize hfit hlast
    · exact .inl rfl
    · exact .inl rfl
    · exact .inl rfl
    · exact .inr (commitDownload_transferStep ..)
    · exact .inr (.segment htr hdir service (by simpa using htog) _)
    · exact .inl rfl
  · exact .inl rfl
  · exact .inl rfl

theorem handleBlockDownload_transfer (s : SdoState OD cap) (request : SdoFrame) (ctx : SdoContext)
    (service : commandSpecifier request.b0 = Ccs.blockDownload.toByte) :
    (s.handleBlockDownload request ctx).2.any SdoFrame.isAbort ∨
    TransferStep s request ctx (s.handleBlockDownload request ctx).1.server.transfer := by
  unfold SdoState.handleBlockDownload
  split_ifs with hsub
  · unfold SdoServer.blockDownloadInitiate SdoState.serve
    dsimp only
    split_ifs with hlock hlen
    · exact .inl rfl
    · exact .inl rfl
    · exact .inr (.blockInitiated service hsub (by simpa using hlock))
  · unfold SdoState.blockDownloadEnd
    split
    · dsimp only
      split_ifs
      · exact .inl rfl
      · exact .inl rfl
      · exact .inl rfl
      · exact .inr (commitDownload_transferStep ..)
    · exact .inl rfl

/-- What `dispatch` leaves behind, unless it answers with an abort. -/
theorem dispatch_transfer (s : SdoState OD cap) (request : SdoFrame) (ctx : SdoContext)
    (free : s.server.inBlockDownloadData = false ∨ request.b0 = 0x80) :
    (s.dispatch request ctx).2.any SdoFrame.isAbort ∨
    TransferStep s request ctx (s.dispatch request ctx).1.server.transfer := by
  unfold SdoState.dispatch
  dsimp only
  split_ifs with h1 h2 h3 h4 h5 h6 h7
  · exact handleInitiateUpload_transfer s request ctx
  · exact handleUploadSegment_transfer s request ctx
  · exact handleInitiateDownload_transfer s request ctx h3
  · exact handleDownloadSegment_transfer s request ctx h4
  · rcases free with free | h80
    · exact handleBlockUpload_transfer s request ctx free h5
    · rw [h80] at h5
      exact absurd h5 (by decide)
  · exact handleBlockDownload_transfer s request ctx h6
  · exact .inr .ended
  · exact .inl rfl

omit [ObjectDictionary OD] in
theorem handleBlockDownloadSegment_transfer (s : SdoState OD cap) (request : SdoFrame)
    (ctx : SdoContext) (receiving : s.server.inBlockDownloadData = true) :
    TransferStep s request ctx
      (s.server.handleBlockDownloadSegment request ctx.nowUs).1.transfer := by
  unfold SdoServer.handleBlockDownloadSegment
  rcases htr : s.server.transfer with _ | (t | b | b)
  · simp [SdoServer.inBlockDownloadData, htr] at receiving
  · simp [SdoServer.inBlockDownloadData, htr] at receiving
  · simp [SdoServer.inBlockDownloadData, htr] at receiving
  have hrec : b.awaitingEnd = false := by simpa [SdoServer.inBlockDownloadData, htr] using receiving
  dsimp only
  by_cases hseq : request.b0 &&& 0x7F = 0 ∨ request.b0 &&& 0x7F ≠ b.seqno + 1
  · rw [if_pos hseq]
    exact .ended
  rw [if_neg hseq]
  by_cases hspace : 889 - b.offset < 7
  · rw [dif_pos hspace]
    exact .ended
  rw [dif_neg hspace]
  simp only [not_or, ne_eq, not_not] at hseq
  have hstep : TransferStep s request ctx
      (some (.blockDownload (b.advance request ctx.nowUs (by omega)))) :=
    .blockSegment htr hrec hseq.1 hseq.2 _
  -- the source's branches and `advance` make the same case distinction
  unfold BlockDownloadState.advance segmentSeqno isLastSegment at hstep
  by_cases hlast : (request.b0 &&& 0x80 != 0) = true
  · simpa [hlast] using hstep
  · simp only [hlast, Bool.false_or, decide_eq_true_eq] at hstep ⊢
    by_cases hfull : b.blksize ≤ request.b0 &&& 0x7F
    · rw [if_pos hfull] at hstep
      rw [if_pos (by exact hfull)]
      exact hstep
    · rw [if_neg hfull] at hstep
      rw [if_neg (by exact hfull)]
      exact hstep

theorem processWithContext_transfer (s : SdoState OD cap) (request : SdoFrame) (ctx : SdoContext) :
    TransferStep s request ctx (s.processWithContext request ctx).1.server.transfer := by
  unfold SdoState.processWithContext
  split_ifs with hblk
  · rw [Bool.and_eq_true] at hblk
    exact handleBlockDownloadSegment_transfer s request ctx hblk.1
  have hfree : s.server.inBlockDownloadData = false ∨ request.b0 = 0x80 := by
    simpa [or_iff_not_imp_left] using hblk
  dsimp only
  split_ifs with habort
  · exact .ended
  · exact (dispatch_transfer s request ctx hfree).resolve_left habort

end Canopen.Sdo
