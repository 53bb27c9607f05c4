import Canopen.Sdo.Checked
import Canopen.Sdo.BlockUpload
import Canopen.Sdo.DownloadIntegrity

/-!
# The server does not panic

The invariant of the transfer records under which every operand of the server
is in range. Under it the server with its partial operations does what the
total model does, one handler at a time, and every handler establishes the
invariant again; a sequence of calls therefore never stops.
-/

namespace Canopen.Sdo

open LittleEndian

variable {OD : Type} {cap : ℕ}

/-! ## The invariant -/

namespace Raw

/-- An upload always announces its size. -/
structure SegmentedTransfer.Invariant (t : SegmentedTransfer) : Prop where
  offset_le : t.offset ≤ 889
  sized : t.sizeIndicated → t.offset ≤ t.totalLen
  total_le : t.totalLen ≤ 889
  upload : t.direction = .upload → t.sizeIndicated

structure BlockUploadState.Invariant (b : BlockUploadState) : Prop where
  offset_le : b.offset ≤ b.totalLen
  total_le : b.totalLen ≤ 889
  subblock_le : b.subblockStartOffset ≤ b.offset
  seqno_le : b.seqno ≤ b.blksize
  lastSeqno_le : b.lastSeqno ≤ b.blksize
  blksize_pos : 1 ≤ b.blksize
  blksize_le : b.blksize ≤ maxBlksize

/-- Segments are stored whole, and the buffer holds a whole number of them. -/
structure BlockDownloadState.Invariant (b : BlockDownloadState) : Prop where
  seven_dvd : 7 ∣ b.offset
  offset_le : b.offset ≤ 889
  seqno_le : b.seqno ≤ maxBlksize

def TransferState.Invariant : TransferState → Prop
  | .segmented t => t.Invariant
  | .blockUpload b => b.Invariant
  | .blockDownload b => b.Invariant

def SdoServer.Invariant (srv : SdoServer) : Prop := ∀ t ∈ srv.transfer, t.Invariant

def SdoState.Invariant (s : SdoState OD cap) : Prop := s.server.Invariant

end Raw

/-! ## Forgetting the bounds -/

def SegmentedTransfer.raw (t : SegmentedTransfer) : Raw.SegmentedTransfer :=
  ⟨t.index, t.subindex, t.toggle, t.direction, t.buf, t.offset, t.totalLen, t.sizeIndicated,
    t.lastActivityUs⟩

def BlockUploadState.raw (b : BlockUploadState) : Raw.BlockUploadState :=
  ⟨b.index, b.subindex, b.buf, b.totalLen, b.offset, b.subblockStartOffset, b.blksize, b.seqno,
    b.lastSeqno, b.crc, b.lastActivityUs⟩

def BlockDownloadState.raw (b : BlockDownloadState) : Raw.BlockDownloadState :=
  ⟨b.index, b.subindex, b.buf, b.offset, b.totalLen, b.sizeIndicated, b.blksize, b.seqno,
    b.awaitingEnd, b.crcEnabled, b.lastActivityUs⟩

def TransferState.raw : TransferState → Raw.TransferState
  | .segmented t => .segmented t.raw
  | .blockUpload b => .blockUpload b.raw
  | .blockDownload b => .blockDownload b.raw

def SdoServer.raw (srv : SdoServer) : Raw.SdoServer :=
  ⟨srv.transfer.map TransferState.raw, srv.committedWrite⟩

def SdoState.raw (s : SdoState OD cap) : Raw.SdoState OD cap := ⟨s.server.raw, s.od, s.events⟩

theorem Raw.TransferState.Invariant.exists_raw {t : Raw.TransferState} (h : t.Invariant) :
    ∃ t' : Sdo.TransferState, t'.raw = t := by
  cases t with
  | segmented t =>
    exact ⟨.segmented ⟨t.index, t.subindex, t.toggle, t.direction, t.buf, t.offset, t.totalLen,
      t.sizeIndicated, t.lastActivityUs, h.offset_le, h.total_le,
      fun hd => h.sized (h.upload hd)⟩, rfl⟩
  | blockUpload b =>
    exact ⟨.blockUpload ⟨b.index, b.subindex, b.buf, b.totalLen, b.offset, b.subblockStartOffset,
      b.blksize, b.seqno, b.lastSeqno, b.crc, b.lastActivityUs, h.offset_le, h.total_le⟩, rfl⟩
  | blockDownload b =>
    exact ⟨.blockDownload ⟨b.index, b.subindex, b.buf, b.offset, b.totalLen, b.sizeIndicated,
      b.blksize, b.seqno, b.awaitingEnd, b.crcEnabled, b.lastActivityUs, h.offset_le⟩, rfl⟩

theorem Raw.SdoState.Invariant.exists_raw {s : Raw.SdoState OD cap} (h : s.Invariant) :
    ∃ s' : Sdo.SdoState OD cap, s'.raw = s := by
  obtain ⟨⟨transfer, committed⟩, od, events⟩ := s
  cases transfer with
  | none => exact ⟨⟨⟨none, committed⟩, od, events, []⟩, rfl⟩
  | some t =>
    obtain ⟨t', rfl⟩ := (h t rfl).exists_raw
    exact ⟨⟨⟨some t', committed⟩, od, events, []⟩, rfl⟩

/-- The partial handler runs to its end with the result of the total one, and
leaves a transfer that meets the invariant. -/
structure Serves (r : Option (Raw.SdoServer × Option SdoFrame)) (m : SdoServer × Option SdoFrame) :
    Prop where
  eq : r = some (m.1.raw, m.2)
  invariant : m.1.raw.Invariant

/-- The same for a handler that works on the dictionary. -/
structure Follows (r : Option (Raw.SdoState OD cap × Option SdoFrame))
    (m : SdoState OD cap × Option SdoFrame) : Prop where
  eq : r = some (m.1.raw, m.2)
  invariant : m.1.raw.Invariant

theorem Serves.follows {s : SdoState OD cap} {r : Option (Raw.SdoServer × Option SdoFrame)}
    {m : SdoServer × Option SdoFrame} (h : Serves r m) : Follows (s.raw.serve r) (s.serve m) where
  eq := by
    rw [h.eq]
    rfl
  invariant := h.invariant

theorem invariant_idle (committed : Option (UInt16 × UInt8)) :
    (Raw.SdoServer.mk none committed).Invariant := by
  intro t ht
  cases ht

theorem invariant_some {t : Raw.TransferState} (committed : Option (UInt16 × UInt8))
    (h : t.Invariant) : (Raw.SdoServer.mk (some t) committed).Invariant := by
  intro t' ht'
  cases ht'
  exact h

theorem Serves.kept {srv : SdoServer} (h : srv.raw.Invariant) (response : Option SdoFrame) :
    Serves (some (srv.raw, response)) (srv, response) := ⟨rfl, h⟩

theorem Serves.ended (srv : SdoServer) (response : Option SdoFrame) :
    Serves (some (srv.raw.abortTransfer, response)) (srv.abortTransfer, response) :=
  ⟨rfl, invariant_idle _⟩

theorem Follows.kept {s : SdoState OD cap} (h : s.raw.Invariant) (response : Option SdoFrame) :
    Follows (some (s.raw, response)) (s, response) := ⟨rfl, h⟩

theorem Follows.ended (s : SdoState OD cap) (response : Option SdoFrame) :
    Follows (some (s.raw.setTransfer none, response)) (s.setTransfer none, response) :=
  ⟨rfl, invariant_idle _⟩

/-! ## Frames -/

theorem ofBytes_segment (b0 : UInt8) {data : List UInt8} (h : data.length ≤ 7) :
    SdoFrame.ofBytes ((SdoFrame.segment b0 []).bytes.write 1 data) = .segment b0 data := by
  match data, h with
  | [], _ => rfl
  | [_], _ => rfl
  | [_, _], _ => rfl
  | [_, _, _], _ => rfl
  | [_, _, _, _], _ => rfl
  | [_, _, _, _, _], _ => rfl
  | [_, _, _, _, _, _], _ => rfl
  | [_, _, _, _, _, _, _], _ => rfl
  | _ :: _ :: _ :: _ :: _ :: _ :: _ :: _ :: _, h => simp at h; omega

theorem ofBytes_initiate (b0 : UInt8) (index : UInt16) (subindex : UInt8) {data : List UInt8}
    (h : data.length ≤ 4) :
    SdoFrame.ofBytes ((SdoFrame.initiate b0 index subindex []).bytes.write 4 data) =
      .initiate b0 index subindex data := by
  match data, h with
  | [], _ => rfl
  | [_], _ => rfl
  | [_, _], _ => rfl
  | [_, _, _], _ => rfl
  | [_, _, _, _], _ => rfl
  | _ :: _ :: _ :: _ :: _ :: _, h => simp at h; omega

theorem encodeUploadResponseExpedited_raw (index : UInt16) (subindex : UInt8) (value : List UInt8) :
    Raw.encodeUploadResponseExpedited index subindex value =
      some (encodeUploadResponseExpedited index subindex value) := by
  unfold Raw.encodeUploadResponseExpedited encodeUploadResponseExpedited
  split
  · rfl
  · rename_i h
    have hlen : value.length ≤ 4 := by
      simp only [Bool.or_eq_true, decide_eq_true_eq, not_or] at h
      omega
    simp only [checkedSub_of_le hlen, Option.bind_eq_bind, Option.bind_some]
    rw [FixedBuffer.checkedCopy_add _ rfl (by omega), Option.bind_some, ofBytes_initiate _ _ _ hlen]

theorem encodeUploadSegmentResponse_raw (toggle : Bool) {segmentData : List UInt8} (last : Bool)
    (hlen : segmentData.length ≤ 7) :
    ∃ frame, Raw.encodeUploadSegmentResponse toggle segmentData last = some (some frame) ∧
      encodeUploadSegmentResponse toggle segmentData last = some frame := by
  unfold Raw.encodeUploadSegmentResponse encodeUploadSegmentResponse
  simp only [if_pos hlen, checkedSub_of_le hlen, Option.bind_eq_bind]
  rw [FixedBuffer.checkedCopy_add _ rfl (by omega), Option.bind_some, ofBytes_segment _ hlen]
  exact ⟨_, rfl, rfl⟩

/-! ## Handlers that leave the dictionary alone -/

theorem checkTimeout_raw {srv : SdoServer} (h : srv.raw.Invariant) (nowUs : UInt64) :
    Serves (srv.raw.checkTimeout nowUs) (srv.checkTimeout nowUs) := by
  obtain ⟨transfer, committed⟩ := srv
  cases transfer with
  | none => exact ⟨rfl, h⟩
  | some t =>
    have hlast : t.raw.lastActivityUs = t.lastActivityUs := by cases t <;> rfl
    have hsub : t.raw.indexSub = t.indexSub := by cases t <;> rfl
    unfold Raw.SdoServer.checkTimeout SdoServer.checkTimeout
    simp only [SdoServer.raw, Option.map_some, hlast, decide_eq_true_eq]
    split_ifs with htime
    · refine ⟨?_, invariant_idle _⟩
      simp only [Option.bind_eq_bind, Option.bind_some, hsub]
      rfl
    · exact ⟨rfl, h⟩

theorem BlockUploadState.nextSegment_invariant {b : BlockUploadState} (h : b.raw.Invariant)
    (nowUs : UInt64) : (b.nextSegment nowUs).1.raw.Invariant := by
  have hoff : b.offset ≤ b.totalLen := h.offset_le
  have hsub : b.subblockStartOffset ≤ b.offset := h.subblock_le
  have hseq : b.seqno.toNat ≤ b.blksize.toNat := UInt8.le_iff_toNat_le.mp h.seqno_le
  have hblk : b.blksize.toNat ≤ 127 := UInt8.le_iff_toNat_le.mp h.blksize_le
  obtain ⟨-, -, hkeep, hclear⟩ := and_high_bit b.seqno (by omega)
  refine ⟨?_, h.total_le, ?_, ?_, ?_, h.blksize_pos, h.blksize_le⟩
  · change b.offset + min (b.totalLen - b.offset) 7 ≤ b.totalLen
    omega
  · change b.subblockStartOffset ≤ b.offset + min (b.totalLen - b.offset) 7
    omega
  · -- a number below the block size has room for one more
    change (if _ then 0 else b.seqno + 1) ≤ b.blksize
    split_ifs with hfull
    · exact UInt8.le_iff_toNat_le.mpr (Nat.zero_le _)
    · simp only [Bool.or_eq_true, decide_eq_true_eq, not_or] at hfull
      have hlt : ¬b.blksize.toNat ≤ b.seqno.toNat := fun hle =>
        hfull.1 (UInt8.le_iff_toNat_le.mpr hle)
      rw [UInt8.le_iff_toNat_le, UInt8.toNat_add, UInt8.toNat_one]
      omega
  · change (if _ then b.seqno ||| 0x80 else b.seqno) &&& 0x7F ≤ b.blksize
    split_ifs
    · rw [hclear]
      exact h.seqno_le
    · rw [hkeep]
      exact h.seqno_le

theorem pollBlockUpload_raw {srv : SdoServer} (h : srv.raw.Invariant) (nowUs : UInt64) :
    Serves (srv.raw.pollBlockUpload nowUs) (srv.pollBlockUpload nowUs) := by
  obtain ⟨transfer, committed⟩ := srv
  cases transfer with
  | none => exact ⟨rfl, h⟩
  | some t =>
    cases t with
    | segmented t => exact ⟨rfl, h⟩
    | blockDownload b => exact ⟨rfl, h⟩
    | blockUpload b =>
      have hb : b.raw.Invariant := h _ rfl
      have hoff : b.offset ≤ b.totalLen := hb.offset_le
      have htot : b.totalLen ≤ 889 := hb.total_le
      have hseq : b.seqno.toNat ≤ b.blksize.toNat := UInt8.le_iff_toNat_le.mp hb.seqno_le
      have hblk : b.blksize.toNat ≤ 127 := UInt8.le_iff_toNat_le.mp hb.blksize_le
      by_cases hz : b.seqno = 0
      · simp only [Raw.SdoServer.pollBlockUpload, SdoServer.pollBlockUpload, SdoServer.raw,
          Option.map_some, TransferState.raw, BlockUploadState.raw, if_pos hz]
        exact ⟨rfl, h⟩
      have hin : b.offset + min (b.totalLen - b.offset) 7 ≤ 889 := by omega
      have hlen := b.buf.length_slice hin
      have hadd : checkedAdd8 b.seqno 1 = some (b.seqno + 1) := checkedAdd8_of_lt (by
        rw [UInt8.toNat_one]
        omega)
      refine ⟨?_, ?_⟩
      · simp only [Raw.SdoServer.pollBlockUpload, SdoServer.pollBlockUpload, SdoServer.raw,
          Option.map_some, TransferState.raw, BlockUploadState.raw, if_neg hz, checkedSub_of_le hoff,
          Option.bind_eq_bind, Option.bind_some, b.buf.checkedSlice_add hin, hadd,
          BlockUploadState.nextSegment]
        rw [FixedBuffer.checkedCopy_add _ hlen (by omega), Option.bind_some,
          ofBytes_segment _ (by omega)]
        split_ifs <;> rfl
      · simp only [SdoServer.pollBlockUpload, if_neg hz]
        exact invariant_some _ (b.nextSegment_invariant hb nowUs)

variable [ObjectDictionary OD]

theorem handleInitiateUpload_raw {srv : SdoServer} (h : srv.raw.Invariant) (od : OD)
    (request : SdoFrame) (nowUs : UInt64) :
    Serves (srv.raw.handleInitiateUpload od request nowUs)
      (srv.handleInitiateUpload od request nowUs) := by
  unfold Raw.SdoServer.handleInitiateUpload SdoServer.handleInitiateUpload
  rcases hread : ObjectDictionary.read od (parseIndexSub request).1 (parseIndexSub request).2
    (FixedBuffer.filled 889 0) with ⟨e | len, buf⟩
  · simp only [hread]
    exact .kept h _
  · simp only [hread]
    split_ifs with hlen
    · have hfront := buf.length_front len.2
      have hresponse : encodeUploadResponseExpedited (parseIndexSub request).1
          (parseIndexSub request).2 (buf.front len) ≠ none := by
        unfold encodeUploadResponseExpedited
        rw [if_neg]
        · simp
        · simp only [Bool.or_eq_true, List.isEmpty_iff_length_eq_zero, decide_eq_true_eq, hfront]
          omega
      obtain ⟨frame, hframe⟩ := Option.ne_none_iff_exists'.mp hresponse
      simp only [buf.checkedSlice_front len.2, encodeUploadResponseExpedited_raw, hframe,
        Option.bind_eq_bind, Option.bind_some]
      exact .ended srv _
    · have hnew : (SegmentedTransfer.newUpload (parseIndexSub request).1 (parseIndexSub request).2
          buf len nowUs).raw.Invariant :=
        ⟨Nat.zero_le _, fun _ => Nat.zero_le _, len.2, fun _ => rfl⟩
      exact ⟨rfl, invariant_some _ hnew⟩

theorem handleUploadSegment_raw {srv : SdoServer} (h : srv.raw.Invariant) (request : SdoFrame)
    (nowUs : UInt64) :
    Serves (srv.raw.handleUploadSegment request nowUs) (srv.handleUploadSegment request nowUs) := by
  obtain ⟨transfer, committed⟩ := srv
  rcases transfer with _ | t | b | b
  · exact ⟨rfl, h⟩
  · have ht : t.raw.Invariant := h _ rfl
    by_cases hd : t.direction = .upload
    · have hoff : t.offset ≤ t.totalLen := ht.sized (ht.upload hd)
      have htot : t.totalLen ≤ 889 := ht.total_le
      have hin : t.offset + min (t.totalLen - t.offset) 7 ≤ 889 := by omega
      have hlen := t.buf.length_slice hin
      obtain ⟨frame, hraw, hframe⟩ := encodeUploadSegmentResponse_raw t.toggle
        (decide (t.totalLen - t.offset ≤ 7)) (hlen.trans_le (Nat.min_le_right _ _))
      have hsent : (t.sent hd nowUs).raw.Invariant :=
        ⟨(t.sent hd nowUs).offset_le, fun _ => (t.sent hd nowUs).sent_le hd, htot, ht.upload⟩
      simp only [Raw.SdoServer.handleUploadSegment, SdoServer.handleUploadSegment, SdoServer.raw,
        Option.map_some, TransferState.raw, SegmentedTransfer.raw, if_pos hd, dif_pos hd,
        checkedSub_of_le hoff, Option.bind_eq_bind, Option.bind_some, t.buf.checkedSlice_add hin,
        hraw, SegmentedTransfer.segLen, hframe]
      split_ifs with htoggle hlast
      · exact ⟨rfl, invariant_idle _⟩
      · exact ⟨rfl, invariant_idle _⟩
      · exact ⟨rfl, invariant_some _ hsent⟩
    · simp only [Raw.SdoServer.handleUploadSegment, SdoServer.handleUploadSegment, SdoServer.raw,
        Option.map_some, TransferState.raw, SegmentedTransfer.raw, if_neg hd, dif_neg hd]
      exact ⟨rfl, h⟩
  · exact ⟨rfl, h⟩
  · exact ⟨rfl, h⟩

theorem blockUploadInitiate_raw {srv : SdoServer} (h : srv.raw.Invariant) (od : OD)
    (request : SdoFrame) (nowUs : UInt64) :
    Serves (srv.raw.blockUploadInitiate od request nowUs)
      (srv.blockUploadInitiate od request nowUs) := by
  unfold Raw.SdoServer.blockUploadInitiate SdoServer.blockUploadInitiate
  by_cases hblk : 1 ≤ request.b4 ∧ request.b4 ≤ maxBlksize
  · simp only [if_neg (not_not.mpr hblk)]
    rcases hread : ObjectDictionary.read od (parseIndexSub request).1 (parseIndexSub request).2
      (FixedBuffer.filled 889 0) with ⟨e | len, buf⟩
    · exact .kept h _
    · have hzero : (0 : UInt8) ≤ request.b4 := UInt8.le_iff_toNat_le.mpr (Nat.zero_le _)
      have hnew : Raw.BlockUploadState.Invariant ⟨(parseIndexSub request).1,
          (parseIndexSub request).2, buf, len, 0, 0, request.b4, 0, 0, 0, nowUs⟩ :=
        ⟨Nat.zero_le _, len.2, le_rfl, hzero, hzero, hblk.1, hblk.2⟩
      exact ⟨rfl, invariant_some _ hnew⟩
  · simp only [if_pos hblk]
    exact .kept h _

theorem blockUploadStart_raw {srv : SdoServer} (h : srv.raw.Invariant) (nowUs : UInt64) :
    Serves (srv.raw.blockUploadStart nowUs) (srv.blockUploadStart nowUs) := by
  obtain ⟨transfer, committed⟩ := srv
  rcases transfer with _ | t | b | b
  · exact ⟨rfl, h⟩
  · exact ⟨rfl, h⟩
  · have hb : b.raw.Invariant := h _ rfl
    simp only [Raw.SdoServer.blockUploadStart, SdoServer.blockUploadStart, SdoServer.raw,
      Option.map_some, TransferState.raw, BlockUploadState.raw]
    split_ifs
    · have hstart : Raw.BlockUploadState.Invariant
          { b.raw with seqno := 1, lastActivityUs := nowUs } :=
        ⟨hb.offset_le, hb.total_le, hb.subblock_le, hb.blksize_pos, hb.lastSeqno_le,
          hb.blksize_pos, hb.blksize_le⟩
      exact ⟨rfl, invariant_some _ hstart⟩
    · exact ⟨rfl, h⟩
  · exact ⟨rfl, h⟩

theorem blockUploadEndFrame_raw (totalLen : ℕ) (crc : UInt16) :
    Raw.SdoServer.blockUploadEndFrame totalLen crc =
      some (SdoServer.blockUploadEndFrame totalLen crc) := by
  have hmod : totalLen % 7 ≤ 7 := (Nat.mod_lt _ (by omega)).le
  unfold Raw.SdoServer.blockUploadEndFrame SdoServer.blockUploadEndFrame
  rw [checkedSub_of_le hmod]
  split_ifs <;> rfl

theorem blockUploadAck_raw {srv : SdoServer} (h : srv.raw.Invariant) (request : SdoFrame)
    (nowUs : UInt64) :
    Serves (srv.raw.blockUploadAck request nowUs) (srv.blockUploadAck request nowUs) := by
  obtain ⟨transfer, committed⟩ := srv
  rcases transfer with _ | t | b | b
  · exact ⟨rfl, h⟩
  · exact ⟨rfl, h⟩
  · have hb : b.raw.Invariant := h _ rfl
    have htot : b.totalLen ≤ 889 := hb.total_le
    have hin : min (b.subblockStartOffset + request.b1.toNat * 7) b.totalLen ≤ 889 := by omega
    simp only [Raw.SdoServer.blockUploadAck, SdoServer.blockUploadAck, SdoServer.raw,
      Option.map_some, TransferState.raw, BlockUploadState.raw, b.buf.checkedSlice_front hin,
      Option.bind_eq_bind, Option.bind_some, blockUploadEndFrame_raw]
    by_cases hblk : 1 ≤ request.b2 ∧ request.b2 ≤ maxBlksize
    · have hnext : Raw.BlockUploadState.Invariant
          { (b.acknowledged request.b1 request.b2 nowUs).raw with seqno := 1, lastSeqno := 0 } :=
        ⟨Nat.min_le_right _ _, htot, le_rfl, hblk.1, UInt8.le_iff_toNat_le.mpr (Nat.zero_le _),
          hblk.1, hblk.2⟩
      simp only [if_neg (not_not.mpr hblk)]
      by_cases hdone : b.totalLen ≤ min (b.subblockStartOffset + request.b1.toNat * 7) b.totalLen
      · have hdone' : (b.acknowledged request.b1 request.b2 nowUs).totalLen ≤
          (b.acknowledged request.b1 request.b2 nowUs).offset := hdone
        simp only [if_pos hdone, if_pos hdone']
        split_ifs
        · exact ⟨rfl, invariant_idle _⟩
        · exact ⟨rfl, invariant_idle _⟩
        · exact ⟨rfl, h⟩
      · have hdone' : ¬(b.acknowledged request.b1 request.b2 nowUs).totalLen ≤
          (b.acknowledged request.b1 request.b2 nowUs).offset := hdone
        simp only [if_neg hdone, if_neg hdone']
        split_ifs
        · exact ⟨rfl, invariant_idle _⟩
        · exact ⟨rfl, invariant_some _ hnext⟩
        · exact ⟨rfl, h⟩
    · simp only [if_pos hblk]
      split_ifs
      · exact ⟨rfl, invariant_idle _⟩
      · exact ⟨rfl, h⟩
  · exact ⟨rfl, h⟩

theorem blockUploadEnd_raw {srv : SdoServer} (h : srv.raw.Invariant) :
    Serves srv.raw.blockUploadEnd srv.blockUploadEnd := by
  obtain ⟨transfer, committed⟩ := srv
  rcases transfer with _ | t | b | b
  · exact ⟨rfl, h⟩
  · exact ⟨rfl, h⟩
  · exact ⟨rfl, invariant_idle _⟩
  · exact ⟨rfl, h⟩

theorem handleBlockUpload_raw {srv : SdoServer} (h : srv.raw.Invariant) (od : OD)
    (request : SdoFrame) (nowUs : UInt64) :
    Serves (srv.raw.handleBlockUpload od request nowUs)
      (srv.handleBlockUpload od request nowUs) := by
  unfold Raw.SdoServer.handleBlockUpload SdoServer.handleBlockUpload
  dsimp only
  split_ifs
  · exact blockUploadInitiate_raw h od request nowUs
  · exact blockUploadStart_raw h nowUs
  · exact blockUploadAck_raw h request nowUs
  · exact blockUploadEnd_raw h

theorem blockDownloadInitiate_raw {srv : SdoServer} (h : srv.raw.Invariant) (request : SdoFrame)
    (ctx : SdoContext) :
    Serves (srv.raw.blockDownloadInitiate request ctx) (srv.blockDownloadInitiate request ctx) := by
  have hnew (totalLen : ℕ) (sizeIndicated crcEnabled : Bool) :
      Raw.BlockDownloadState.Invariant ⟨(parseIndexSub request).1, (parseIndexSub request).2,
        .filled 889 0, 0, totalLen, sizeIndicated, maxBlksize, 0, false, crcEnabled, ctx.nowUs⟩ :=
    ⟨Nat.dvd_zero 7, Nat.zero_le _, UInt8.le_iff_toNat_le.mpr (Nat.zero_le _)⟩
  unfold Raw.SdoServer.blockDownloadInitiate SdoServer.blockDownloadInitiate
  dsimp only
  split_ifs
  · exact .kept h _
  · exact .kept h _
  · exact ⟨rfl, invariant_some _ (hnew _ _ _)⟩

theorem segmentSeqno_le (request : SdoFrame) : request.b0 &&& 0x7F ≤ maxBlksize := by
  rw [UInt8.le_iff_toNat_le, UInt8.toNat_and]
  exact Nat.and_le_right

theorem BlockDownloadState.received_invariant {b : BlockDownloadState} (hb : b.raw.Invariant)
    (request : SdoFrame) {seqno : UInt8} (hseq : seqno ≤ maxBlksize) (nowUs : UInt64)
    (h : 7 ≤ 889 - b.offset) : (b.received request seqno nowUs h).raw.Invariant :=
  ⟨(Nat.dvd_add_self_right).mpr hb.seven_dvd, (b.received request seqno nowUs h).offset_le, hseq⟩

theorem handleBlockDownloadSegment_raw {srv : SdoServer} (h : srv.raw.Invariant)
    (request : SdoFrame) (nowUs : UInt64) :
    Serves (srv.raw.handleBlockDownloadSegment request nowUs)
      (srv.handleBlockDownloadSegment request nowUs) := by
  obtain ⟨transfer, committed⟩ := srv
  rcases transfer with _ | t | b | b
  · exact ⟨rfl, h⟩
  · exact ⟨rfl, h⟩
  · exact ⟨rfl, h⟩
  · have hb : b.raw.Invariant := h _ rfl
    have hoff : b.offset ≤ 889 := hb.offset_le
    simp only [Raw.SdoServer.handleBlockDownloadSegment, SdoServer.handleBlockDownloadSegment,
      SdoServer.raw, Option.map_some, TransferState.raw, BlockDownloadState.raw,
      checkedSub_of_le hoff, Option.bind_eq_bind, Option.bind_some]
    by_cases hseq : request.b0 &&& 0x7F = 0 ∨ request.b0 &&& 0x7F ≠ b.seqno + 1
    · simp only [if_pos hseq]
      exact ⟨rfl, invariant_idle _⟩
    · simp only [if_neg hseq]
      by_cases hspace : 889 - b.offset < 7
      · simp only [if_pos hspace, dif_pos hspace]
        exact ⟨rfl, invariant_idle _⟩
      · have hroom : 7 ≤ 889 - b.offset := by omega
        have hdata : request.bytes.checkedSlice 1 (1 + 7) = some request.payload :=
          request.bytes.checkedSlice_add (by omega)
        have hcopy := b.buf.checkedCopy_add (show request.payload.length = 7 from rfl)
          (show b.offset + 7 ≤ 889 by omega)
        have hgot := b.received_invariant hb request (segmentSeqno_le request) nowUs hroom
        have hblk : (b.received request (request.b0 &&& 0x7F) nowUs hroom).blksize = b.blksize := rfl
        simp only [if_neg hspace, dif_neg hspace, hdata, hcopy, Option.bind_some, hblk]
        cases hlast : request.b0 &&& 0x80 != 0
        · simp only [Bool.false_or, Bool.false_eq_true, if_false]
          split_ifs
          · exact ⟨rfl, invariant_some _ ⟨hgot.seven_dvd, hgot.offset_le,
              UInt8.le_iff_toNat_le.mpr (Nat.zero_le _)⟩⟩
          · exact ⟨rfl, invariant_some _ hgot⟩
        · simp only [Bool.true_or, if_true]
          exact ⟨rfl, invariant_some _ ⟨hgot.seven_dvd, hgot.offset_le, hgot.seqno_le⟩⟩

/-! ## Committing a download -/

theorem wordOf_of_length {data : List UInt8} (h : data.length = 4) :
    Raw.wordOf data = some (word32 data) := if_pos h

theorem validateHeartbeatConsumerWrite_raw (od : OD) (sdoCobs : SdoCobIds) (syncCobId : UInt16)
    (count : UInt8) (index : UInt16) (subindex : UInt8) (data : List UInt8) :
    Raw.validateHeartbeatConsumerWrite od sdoCobs syncCobId count index subindex data =
      some (validateHeartbeatConsumerWrite od sdoCobs syncCobId count index subindex data) := by
  unfold Raw.validateHeartbeatConsumerWrite
  split_ifs with hguard
  · rw [validateHeartbeatConsumerWrite, if_pos hguard]
  · have hlen : data.length = 4 := by
      by_contra hne
      exact hguard (.inr (.inr hne))
    -- the producer's node id is a masked byte
    have hnode : ((word32 data >>> 16) &&& 0xFF).toUInt16.toNat ≤ 0xFF := by
      rw [UInt32.toNat_toUInt16, UInt32.toNat_and]
      exact (Nat.mod_le _ _).trans Nat.and_le_right
    have hadd : (0x700 : UInt16).toNat + ((word32 data >>> 16) &&& 0xFF).toUInt16.toNat < 2 ^ 16 := by
      change 0x700 + _ < 2 ^ 16
      omega
    rw [wordOf_of_length hlen]
    simp only [Option.bind_eq_bind, Option.bind_some, checkedAdd16_of_lt hadd]

theorem validatePdoCobIdWrite_raw (sdoCobs : SdoCobIds) (syncCobId index : UInt16) (subindex : UInt8)
    (data : List UInt8) :
    Raw.validatePdoCobIdWrite sdoCobs syncCobId index subindex data =
      some (validatePdoCobIdWrite sdoCobs syncCobId index subindex data) := by
  unfold Raw.validatePdoCobIdWrite
  split_ifs with hguard
  · rw [validatePdoCobIdWrite, if_pos hguard]
  · have hlen : data.length = 4 := by
      by_contra hne
      apply hguard
      simp [hne]
    rw [wordOf_of_length hlen]
    rfl

theorem validateSyncCobIdWrite_raw (sdoCobs : SdoCobIds) (reservedCobs : ReservedCobIds)
    (index : UInt16) (subindex : UInt8) (data : List UInt8) :
    Raw.validateSyncCobIdWrite sdoCobs reservedCobs index subindex data =
      some (validateSyncCobIdWrite sdoCobs reservedCobs index subindex data) := by
  unfold Raw.validateSyncCobIdWrite
  split_ifs with hguard
  · rw [validateSyncCobIdWrite, if_pos hguard]
  · have hlen : data.length = 4 := by
      by_contra hne
      exact hguard (.inr (.inr hne))
    rw [wordOf_of_length hlen]
    rfl

theorem validateSyncCounterOverflowWrite_raw (index : UInt16) (subindex : UInt8)
    (data : List UInt8) :
    Raw.validateSyncCounterOverflowWrite index subindex data =
      some (validateSyncCounterOverflowWrite index subindex data) := by
  unfold Raw.validateSyncCounterOverflowWrite
  split_ifs with hguard
  · rw [validateSyncCounterOverflowWrite, if_pos hguard]
  · cases data with
    | nil => exact absurd (.inr (.inr rfl)) hguard
    | cons first rest => rfl

theorem validateDownload_raw (od : OD) (ctx : SdoContext) (index : UInt16) (subindex : UInt8)
    (data : List UInt8) :
    (Raw.validateDownload od ctx index subindex data).run =
      some (validateDownload od ctx index subindex data) := by
  unfold Raw.validateDownload validateDownload
  rw [validateHeartbeatConsumerWrite_raw, validatePdoCobIdWrite_raw, validateSyncCobIdWrite_raw,
    validateSyncCounterOverflowWrite_raw]
  -- rule by rule: the first error ends both, an accepted rule goes on to the next
  rcases validateHeartbeatConsumerWrite od ctx.cobIds ctx.syncCobId ctx.heartbeatConsumerCount index
    subindex data with e | _
  · rfl
  rcases validatePdoCobIdWrite ctx.cobIds ctx.syncCobId index subindex data with e | _
  · rfl
  rcases validateSyncCobIdWrite ctx.cobIds ctx.reservedCobIds index subindex data with e | _
  · rfl
  rcases validateSyncCounterOverflowWrite index subindex data with e | _
  · rfl
  · rfl

theorem commitDownload_raw (s : SdoState OD cap) (ctx : SdoContext) (index : UInt16)
    (subindex : UInt8) (data : List UInt8) (success : SdoFrame) :
    Follows (s.raw.commitDownload ctx index subindex data success)
      (s.commitDownload ctx index subindex data success) := by
  have hidle : (s.commitDownload ctx index subindex data success).1.raw.Invariant := by
    have hnone := commitDownload_transfer s ctx index subindex data success
    intro t ht
    change t ∈ Option.map _ (s.commitDownload ctx index subindex data success).1.server.transfer at ht
    rw [hnone] at ht
    cases ht
  refine ⟨?_, hidle⟩
  have hod : (s.raw.setTransfer none).od = s.od := rfl
  unfold Raw.SdoState.commitDownload
  simp only [hod, validateDownload_raw, Option.bind_eq_bind, Option.bind_some]
  rcases hv : validateDownload s.od ctx index subindex data with code | _
  · simp only [SdoState.commitDownload, SdoState.setTransfer, hv]
    rfl
  · rcases hw : ObjectDictionary.write s.od index subindex data with ⟨e | _, od⟩
    · simp only [SdoState.commitDownload, SdoState.setTransfer, SdoState.odWrite, hv, hw]
      rfl
    · simp only [SdoState.commitDownload, SdoState.setTransfer, SdoState.odWrite, hv, hw]
      rfl

/-! ## Handlers that commit -/

theorem expeditedLen_raw (od : OD) (request : SdoFrame) :
    Raw.SdoState.expeditedLen od request = some (SdoState.expeditedLen od request) ∧
      SdoState.expeditedLen od request ≤ 4 := by
  have hbits : ((request.b0 >>> 2) &&& 0x03).toNat ≤ 4 := by
    rw [UInt8.toNat_and]
    exact (Nat.and_le_right).trans (by decide)
  unfold Raw.SdoState.expeditedLen SdoState.expeditedLen
  rw [checkedSub_of_le hbits]
  split_ifs
  · exact ⟨rfl, Nat.sub_le _ _⟩
  · rcases (ObjectDictionary.lookup od (parseIndexSub request).1 (parseIndexSub request).2).bind
      (·.dataType.size) with _ | size
    · exact ⟨rfl, le_rfl⟩
    · exact ⟨rfl, Nat.min_le_right _ _⟩

theorem handleInitiateDownload_raw {s : SdoState OD cap} (h : s.raw.Invariant) (request : SdoFrame)
    (ctx : SdoContext) :
    Follows (s.raw.handleInitiateDownload request ctx) (s.handleInitiateDownload request ctx) := by
  obtain ⟨hlen, hle⟩ := expeditedLen_raw s.od request
  have hod : s.raw.od = s.od := rfl
  have hdata : request.bytes.checkedSlice 4 (4 + SdoState.expeditedLen s.od request) =
      some (request.value.take (SdoState.expeditedLen s.od request)) :=
    request.bytes.checkedSlice_add (by omega)
  unfold Raw.SdoState.handleInitiateDownload SdoState.handleInitiateDownload
  simp only [hod, hlen, hdata, Option.bind_eq_bind, Option.bind_some]
  split_ifs with hlock hexp htotal
  · exact .kept h _
  · exact commitDownload_raw s ctx _ _ _ _
  · exact .kept h _
  · exact ⟨rfl, invariant_some _ ⟨Nat.zero_le _, fun _ => Nat.zero_le _, not_lt.mp htotal, by rintro ⟨⟩⟩⟩

theorem copyOut_raw (buf : FixedBuffer UInt8 889) {dataLen : ℕ} (h : dataLen ≤ 889) :
    Raw.SdoState.copyOut buf dataLen = some (buf.front dataLen) := by
  have hfront := buf.length_front h
  have hcopy := (FixedBuffer.filled 889 (0 : UInt8)).checkedCopy_add hfront
    (show 0 + dataLen ≤ 889 by omega)
  have hread := (FixedBuffer.filled 889 (0 : UInt8)).front_write 0 (buf.front dataLen) (by omega)
  rw [Nat.zero_add] at hcopy
  rw [hfront, Nat.zero_add, FixedBuffer.front_zero, List.nil_append] at hread
  unfold Raw.SdoState.copyOut
  simp only [buf.checkedSlice_front h, Option.bind_eq_bind, Option.bind_some, hcopy,
    FixedBuffer.checkedSlice_front _ h, hread]

theorem SegmentedTransfer.received_invariant {t : SegmentedTransfer} (ht : t.raw.Invariant)
    {data : List UInt8} (nowUs : UInt64) (hd : t.direction = .download)
    (hle : t.offset + data.length ≤ 889)
    (hsize : t.sizeIndicated → t.offset + data.length ≤ t.totalLen) :
    (t.received data nowUs hd hle).raw.Invariant :=
  ⟨hle, hsize, ht.total_le, ht.upload⟩

theorem handleDownloadSegment_raw {s : SdoState OD cap} (h : s.raw.Invariant) (request : SdoFrame)
    (ctx : SdoContext) :
    Follows (s.raw.handleDownloadSegment request ctx) (s.handleDownloadSegment request ctx) := by
  obtain ⟨⟨transfer, committed⟩, od, events, writes⟩ := s
  rcases transfer with _ | t | b | b
  · exact ⟨rfl, h⟩
  · have ht : t.raw.Invariant := h _ rfl
    have hlen := length_take_payload request (unusedBytes request.b0)
    have hsub : checkedSub 7 (unusedBytes request.b0) =
        some (request.payload.take (7 - unusedBytes request.b0)).length := by
      rw [checkedSub_of_le (unusedBytes_le request.b0), hlen]
    have hdata : request.bytes.checkedSlice 1
        (1 + (request.payload.take (7 - unusedBytes request.b0)).length) =
        some (request.payload.take (7 - unusedBytes request.b0)) := by
      rw [hlen]
      exact request.bytes.checkedSlice_add (by omega)
    simp only [Raw.SdoState.handleDownloadSegment, SdoState.handleDownloadSegment, SdoState.raw,
      SdoServer.raw, Option.map_some, TransferState.raw, SegmentedTransfer.raw, hsub,
      Option.bind_eq_bind, Option.bind_some, hdata]
    split_ifs with hd htoggle hsize hfull hlast
    · exact ⟨rfl, invariant_idle _⟩
    · exact ⟨rfl, invariant_idle _⟩
    · exact ⟨rfl, invariant_idle _⟩
    · have hle := not_lt.mp hfull
      simp only [t.buf.checkedCopy_add rfl hle, Option.bind_some, copyOut_raw _ hle]
      exact commitDownload_raw ⟨⟨some (.segmented t), committed⟩, od, events, writes⟩ ctx _ _ _ _
    · have hle := not_lt.mp hfull
      have hgot := t.received_invariant ht ctx.nowUs hd hle
        (fun hs => not_lt.mp fun hlt => hsize ⟨hs, .inl hlt⟩)
      simp only [t.buf.checkedCopy_add rfl hle, Option.bind_some]
      exact ⟨rfl, invariant_some _ hgot⟩
    · exact ⟨rfl, h⟩
  · exact ⟨rfl, h⟩
  · exact ⟨rfl, h⟩

theorem blockDownloadEnd_raw {s : SdoState OD cap} (h : s.raw.Invariant) (request : SdoFrame)
    (ctx : SdoContext) :
    Follows (s.raw.blockDownloadEnd request ctx) (s.blockDownloadEnd request ctx) := by
  obtain ⟨⟨transfer, committed⟩, od, events, writes⟩ := s
  rcases transfer with _ | t | b | b
  · exact ⟨rfl, h⟩
  · exact ⟨rfl, h⟩
  · exact ⟨rfl, h⟩
  · have hb : b.raw.Invariant := h _ rfl
    have hoff : b.offset ≤ 889 := hb.offset_le
    simp only [Raw.SdoState.blockDownloadEnd, SdoState.blockDownloadEnd, SdoState.raw,
      SdoServer.raw, Option.map_some, TransferState.raw, BlockDownloadState.raw]
    by_cases hn : 6 < ((request.b0 >>> 2) &&& 0x07).toNat ∨
        b.offset < ((request.b0 >>> 2) &&& 0x07).toNat
    · simp only [if_pos hn]
      exact ⟨rfl, invariant_idle _⟩
    · have hsub : ((request.b0 >>> 2) &&& 0x07).toNat ≤ b.offset := by omega
      have hlen : b.offset - ((request.b0 >>> 2) &&& 0x07).toNat ≤ 889 := by omega
      simp only [if_neg hn, checkedSub_of_le hsub, Option.bind_eq_bind, Option.bind_some,
        copyOut_raw b.buf hlen]
      split_ifs
      · exact ⟨rfl, invariant_idle _⟩
      · exact ⟨rfl, invariant_idle _⟩
      · exact commitDownload_raw ⟨⟨some (.blockDownload b), committed⟩, od, events, writes⟩ ctx _ _ _ _

theorem handleBlockDownload_raw {s : SdoState OD cap} (h : s.raw.Invariant) (request : SdoFrame)
    (ctx : SdoContext) :
    Follows (s.raw.handleBlockDownload request ctx) (s.handleBlockDownload request ctx) := by
  unfold Raw.SdoState.handleBlockDownload SdoState.handleBlockDownload
  split_ifs
  · exact (blockDownloadInitiate_raw h request ctx).follows
  · exact blockDownloadEnd_raw h request ctx

/-! ## Calls -/

theorem dispatch_raw {s : SdoState OD cap} (h : s.raw.Invariant) (request : SdoFrame)
    (ctx : SdoContext) : Follows (s.raw.dispatch request ctx) (s.dispatch request ctx) := by
  unfold Raw.SdoState.dispatch SdoState.dispatch
  dsimp only
  split_ifs
  · exact (handleInitiateUpload_raw h s.od request ctx.nowUs).follows
  · exact (handleUploadSegment_raw h request ctx.nowUs).follows
  · exact handleInitiateDownload_raw h request ctx
  · exact handleDownloadSegment_raw h request ctx
  · exact (handleBlockUpload_raw h s.od request ctx.nowUs).follows
  · exact handleBlockDownload_raw h request ctx
  · exact .ended s none
  · exact .kept h _

theorem processWithContext_raw {s : SdoState OD cap} (h : s.raw.Invariant) (request : SdoFrame)
    (ctx : SdoContext) :
    Follows (s.raw.processWithContext request ctx) (s.processWithContext request ctx) := by
  have hdata : s.raw.server.inBlockDownloadData = s.server.inBlockDownloadData := by
    obtain ⟨⟨transfer, committed⟩, od, events, writes⟩ := s
    rcases transfer with _ | t | b | b <;> rfl
  unfold Raw.SdoState.processWithContext SdoState.processWithContext
  rw [hdata]
  split_ifs with hsegment
  · exact (handleBlockDownloadSegment_raw h request ctx.nowUs).follows
  · have hdispatch := dispatch_raw h request ctx
    simp only [hdispatch.eq, Option.bind_eq_bind, Option.bind_some]
    split_ifs
    · exact .ended _ _
    · exact .kept hdispatch.invariant _

/-- One input. Handing out the committed write is a `take` on an option. -/
def Raw.SdoState.step (s : Raw.SdoState OD cap) :
    SdoInput → Option (Raw.SdoState OD cap × Option SdoFrame)
  | .request frame ctx => s.processWithContext frame ctx
  | .pollBlockUpload nowUs => s.serve (s.server.pollBlockUpload nowUs)
  | .checkTimeout nowUs => s.serve (s.server.checkTimeout nowUs)
  | .abortTransfer => some (s.setTransfer none, none)
  | .takeCommittedWrite => some ({ s with server := { s.server with committedWrite := none } }, none)

/-- A sequence of inputs, up to the first panic. -/
def Raw.SdoState.run (s : Raw.SdoState OD cap) : List SdoInput → Option (Raw.SdoState OD cap)
  | [] => some s
  | input :: inputs => (s.step input).bind fun r => r.1.run inputs

theorem step_raw {s : SdoState OD cap} (h : s.raw.Invariant) (input : SdoInput) :
    Follows (s.raw.step input) (s.step input) := by
  cases input with
  | request frame ctx => exact processWithContext_raw h frame ctx
  | pollBlockUpload nowUs => exact (pollBlockUpload_raw h nowUs).follows
  | checkTimeout nowUs => exact (checkTimeout_raw h nowUs).follows
  | abortTransfer => exact .ended s none
  | takeCommittedWrite => exact ⟨rfl, h⟩

theorem run_raw (inputs : List SdoInput) :
    ∀ {s : SdoState OD cap}, s.raw.Invariant →
      s.raw.run inputs = some (s.run inputs).raw ∧ (s.run inputs).raw.Invariant := by
  induction inputs with
  | nil => exact fun h => ⟨rfl, h⟩
  | cons input inputs ih =>
    intro s h
    have hstep := step_raw h input
    obtain ⟨hrun, hinv⟩ := ih hstep.invariant
    refine ⟨?_, hinv⟩
    rw [Raw.SdoState.run, hstep.eq]
    exact hrun

/-- One call of the owner, who hands over the dictionary and the event queue. -/
structure SdoCall (OD : Type) (cap : ℕ) where
  od : OD
  events : Deque OdEvent cap
  input : SdoInput

/-- A sequence of calls, up to the first panic. Only the server is kept in between. -/
def Raw.SdoServer.run (srv : Raw.SdoServer) : List (SdoCall OD cap) → Option Raw.SdoServer
  | [] => some srv
  | call :: calls =>
    ((Raw.SdoState.mk srv call.od call.events).step call.input).bind fun r => r.1.server.run calls

theorem step_of_invariant {s : Raw.SdoState OD cap} (h : s.Invariant) (input : SdoInput) :
    ∃ r, s.step input = some r ∧ r.1.Invariant := by
  obtain ⟨s, rfl⟩ := h.exists_raw
  have hstep := step_raw h input
  exact ⟨_, hstep.eq, hstep.invariant⟩

theorem run_of_invariant (calls : List (SdoCall OD cap)) :
    ∀ {srv : Raw.SdoServer}, srv.Invariant → ∃ srv', srv.run calls = some srv' ∧ srv'.Invariant := by
  induction calls with
  | nil => exact fun h => ⟨_, rfl, h⟩
  | cons call calls ih =>
    intro srv h
    have hcall : (Raw.SdoState.mk srv call.od call.events).Invariant := h
    obtain ⟨r, hstep, hinv⟩ := step_of_invariant hcall call.input
    obtain ⟨srv', hrun, hinv'⟩ := ih hinv
    refine ⟨srv', ?_, hinv'⟩
    rw [Raw.SdoServer.run, hstep]
    exact hrun

/-- Whatever dictionaries, queues, frames and times a new server is called with, it
never panics and its transfer meets the invariant after every call. One call needs
no more than the invariant. -/
theorem server_never_panics :
    (∀ calls : List (SdoCall OD cap), ∃ srv, Raw.SdoServer.new.run calls = some srv ∧ srv.Invariant) ∧
    ∀ (s : Raw.SdoState OD cap) (input : SdoInput), s.Invariant →
      ∃ r, s.step input = some r ∧ r.1.Invariant :=
  ⟨fun calls => run_of_invariant calls (invariant_idle none), fun _ input h =>
    step_of_invariant h input⟩

/-- Outside the invariant there are panics: a block upload sent past its end. -/
example : (Raw.SdoServer.mk (some (.blockUpload ⟨0x2020, 0, .filled 889 0, 1, 2, 0, 1, 1, 0, 0, 0⟩))
    none).pollBlockUpload 5 = none := rfl

end Canopen.Sdo
