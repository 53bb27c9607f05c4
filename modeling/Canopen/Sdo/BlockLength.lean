import Canopen.Sdo.BlockUpload

/-!
# The length stated by the end of a block upload

The end frame says how many bytes of the last segment carry no data. Together with
the number of segments the client has accepted this states the length of the object,
except for an empty object, whose only segment is empty.
-/

namespace Canopen.Sdo

open LittleEndian

variable {OD : Type} [ObjectDictionary OD] {cap : ℕ}

def UploadEvent.accepts (r : Receiver) : UploadEvent → ℕ
  | .poll _ => 0
  | .ack ackseq blksize _ => if r.complete && r.inRange ackseq blksize then ackseq.toNat else 0

def acceptedSegments (u : SdoState OD cap × Receiver) : List UploadEvent → ℕ
  | [] => 0
  | event :: events => event.accepts u.2 + acceptedSegments (uploadStep u event) events

/-- The number of bytes without data in the last segment, from an end frame. -/
def SdoFrame.unusedBytes (f : SdoFrame) : ℕ := ((f.b0 >>> 2) &&& 0x07).toNat

theorem endFrame_unusedBytes (totalLen : ℕ) (crc : UInt16) :
    (SdoServer.blockUploadEndFrame totalLen crc).unusedBytes =
      if totalLen % 7 = 0 then 0 else 7 - totalLen % 7 := by
  have hall : ∀ n : Fin 7,
      let x : UInt8 := (6 : UInt8) <<< 5 ||| 0x01 ||| (n.1.toUInt8 &&& 0x07) <<< (2 : UInt8)
      ((x >>> 2) &&& 0x07).toNat = n.1 := by
    decide
  have hn : (if totalLen % 7 = 0 then 0 else 7 - totalLen % 7) < 7 := by
    split_ifs <;> omega
  exact hall ⟨_, hn⟩

theorem isEndFrame_blockUploadEndFrame (totalLen : ℕ) (crc : UInt16) :
    isEndFrame (SdoServer.blockUploadEndFrame totalLen crc) := by
  obtain ⟨hcs, hend, -, -⟩ := blockUploadEndFrame_spec totalLen crc
  exact ⟨hcs, hend⟩

/-! ## The invariant -/

/-- Server and receiver agree, `k` segments are accepted, and of an object that is not
empty no segment is empty. -/
structure Aligned (obj : List UInt8) (b : BlockUploadState) (r : Receiver) (k : ℕ) : Prop where
  consistent : Consistent obj b r
  start : b.subblockStartOffset = 7 * k
  tight : 0 < b.totalLen → b.subblockStartOffset + 7 * r.segments.length < b.totalLen + 7
  more : b.seqno ≠ 0 → 0 < b.totalLen →
    b.subblockStartOffset + 7 * r.segments.length < b.totalLen

section Aligned

variable {obj : List UInt8} {b : BlockUploadState} {r : Receiver} {k : ℕ}

theorem Aligned.poll (h : Aligned obj b r k) (hseq : b.seqno ≠ 0) (nowUs : UInt64) :
    Aligned obj (b.nextSegment nowUs).1
      { r with segments := r.segments ++ [(b.nextSegment nowUs).2] } k := by
  have hoffset := h.consistent.offset
  have hmore := h.more hseq
  have hlast : (b.nextSegment nowUs).1.seqno =
      if b.blksize ≤ b.seqno ∨ b.totalLen - b.offset ≤ 7 then 0 else b.seqno + 1 := by
    simp [BlockUploadState.nextSegment]
  refine ⟨h.consistent.poll hseq nowUs, h.start, ?_, ?_⟩
  · intro hpos
    change 0 < b.totalLen at hpos
    change b.subblockStartOffset + 7 * _ < b.totalLen + 7
    rw [List.length_append, List.length_singleton]
    have hroom := hmore hpos
    omega
  · intro hnext hpos
    change 0 < b.totalLen at hpos
    change b.subblockStartOffset + 7 * _ < b.totalLen
    rw [List.length_append, List.length_singleton]
    have hroom := hmore hpos
    -- the segment just polled was not the last one
    have hrest : ¬b.totalLen - b.offset ≤ 7 := by
      intro hle
      rw [hlast, if_pos (.inr hle)] at hnext
      exact hnext rfl
    omega

theorem Aligned.length_ackedWith (h : Aligned obj b r k) {ackseq : UInt8}
    (hack : ackseq.toNat ≤ r.segments.length) :
    (r.ackedWith ackseq).length = 7 * (k + ackseq.toNat) := by
  have hbound := h.consistent.bound
  have hlen := length_content h.consistent
  have hstart := h.start
  rw [h.consistent.ackedWith hack, length_padded_take obj (by omega)]
  omega

/-- The next sub-block starts behind the accepted segments. -/
theorem Aligned.acknowledge (h : Aligned obj b r k) {b' : BlockUploadState} {ackseq blksize : UInt8}
    (hack : ackseq.toNat ≤ r.segments.length)
    (hpart : (r.ackedWith ackseq).length < obj.length)
    (hb' : Consistent obj b' ⟨blksize, [], r.ackedWith ackseq⟩) :
    Aligned obj b' ⟨blksize, [], r.ackedWith ackseq⟩ (k + ackseq.toNat) := by
  have hlen := length_content hb'
  have hstart : b'.subblockStartOffset = 7 * (k + ackseq.toNat) := by
    have hle := hb'.start_le
    have hdelivered := congrArg List.length hb'.delivered
    dsimp only at hdelivered
    rw [length_padded_take obj (by omega), h.length_ackedWith hack] at hdelivered
    exact hdelivered.symm
  rw [h.length_ackedWith hack] at hpart
  refine ⟨hb', hstart, ?_, ?_⟩
  · intro _
    change b'.subblockStartOffset + 7 * 0 < b'.totalLen + 7
    omega
  · intro _ _
    change b'.subblockStartOffset + 7 * 0 < b'.totalLen
    omega

end Aligned

/-- An upload in progress is aligned; an upload that is over stays over. -/
def AlignedInv (obj : List UInt8) (u : SdoState OD cap × Receiver) (k : ℕ) : Prop :=
  (∃ b, u.1.server.transfer = some (.blockUpload b) ∧ Aligned obj b u.2 k) ∨
  (u.1.server.transfer = none ∧ u.2.segments = [] ∧ 1 ≤ u.2.blksize.toNat)

theorem alignedInv_step {obj : List UInt8} {u : SdoState OD cap × Receiver} {k : ℕ}
    (h : AlignedInv obj u k) (event : UploadEvent) :
    AlignedInv obj (uploadStep u event) (k + event.accepts u.2) := by
  obtain ⟨s, r⟩ := u
  rcases h with ⟨b, htr, hb⟩ | ⟨htr, hseg, hblk⟩
  · dsimp only at htr hb
    cases event with
    | poll nowUs =>
      left
      by_cases hseq : b.seqno = 0
      · refine ⟨b, ?_, ?_⟩ <;>
          simp [uploadStep, SdoServer.pollBlockUpload, htr, hseq, hb, UploadEvent.accepts]
      · refine ⟨(b.nextSegment nowUs).1, ?_, ?_⟩
        · simp [uploadStep, SdoServer.pollBlockUpload, htr, hseq]
        · simpa [uploadStep, SdoServer.pollBlockUpload, htr, hseq, UploadEvent.accepts] using
            hb.poll hseq nowUs
    | ack ackseq blksize ctx =>
      rcases ack_cases htr hb.consistent ackseq blksize ctx with
        ⟨hopen, hr⟩ | ⟨hcomp, hbad, index, subindex, code, hr⟩ | ⟨hcomp, hgood, hall, hr⟩ |
          ⟨hcomp, hgood, hpart, b', hr, hb'⟩
      · refine .inl ⟨b, ?_, ?_⟩
        · simpa [uploadStep, hr] using htr
        · simpa [uploadStep, hr, Receiver.acknowledge, hopen, UploadEvent.accepts] using hb
      · right
        simp only [uploadStep, hr, Receiver.acknowledge, hcomp, hbad]
        exact ⟨rfl, rfl, hb.consistent.blksize_pos⟩
      · right
        have hrange := hgood
        simp only [Receiver.inRange, Bool.and_eq_true, decide_eq_true_eq] at hrange
        simp only [uploadStep, hr, Receiver.acknowledge, hcomp, hgood, Bool.and_self, if_true]
        exact ⟨rfl, trivial, UInt8.le_iff_toNat_le.mp hrange.1.1⟩
      · have hrange := hgood
        simp only [Receiver.inRange, Bool.and_eq_true, decide_eq_true_eq] at hrange
        refine .inl ⟨b', ?_, ?_⟩
        · simp [uploadStep, hr, SdoState.setTransfer]
        · simpa [uploadStep, hr, Receiver.acknowledge, hcomp, hgood, UploadEvent.accepts] using
            hb.acknowledge hrange.2 hpart hb'
  · dsimp only at htr hseg hblk
    right
    cases event with
    | poll nowUs =>
      simp only [uploadStep, SdoServer.pollBlockUpload, htr]
      exact ⟨trivial, hseg, hblk⟩
    | ack ackseq blksize ctx =>
      have hopen := complete_of_nil hseg hblk
      simp only [uploadStep, processWithContext_ack_idle htr, Receiver.acknowledge, hopen,
        Bool.false_and]
      exact ⟨rfl, rfl, hblk⟩

theorem alignedInv_run {obj : List UInt8} (events : List UploadEvent) :
    ∀ (u : SdoState OD cap × Receiver) (k : ℕ), AlignedInv obj u k →
      AlignedInv obj (uploadRun u events) (k + acceptedSegments u events) := by
  induction events with
  | nil => exact fun _ _ h => h
  | cons event events ih =>
    intro u k h
    have hrest := ih _ _ (alignedInv_step h event)
    rw [Nat.add_assoc] at hrest
    exact hrest

omit [ObjectDictionary OD] in
/-- Nothing is accepted when the upload starts. -/
theorem UploadInv.aligned {obj : List UInt8} {s : SdoState OD cap} {blksize : UInt8}
    (h : UploadInv obj (s, ⟨blksize, [], []⟩)) : AlignedInv obj (s, ⟨blksize, [], []⟩) 0 := by
  rcases h with ⟨b, htr, hb⟩ | ⟨htr, hseg, hblk, -⟩
  · have hstart : b.subblockStartOffset = 0 := by
      have hle := hb.start_le
      have hlen := length_content hb
      have hdelivered := congrArg List.length hb.delivered
      dsimp only at hdelivered
      rw [length_padded_take obj (by omega)] at hdelivered
      exact hdelivered.symm
    refine .inl ⟨b, htr, hb, hstart, ?_, ?_⟩
    · intro _
      change b.subblockStartOffset + 7 * 0 < b.totalLen + 7
      omega
    · intro _ hpos
      change b.subblockStartOffset + 7 * 0 < b.totalLen
      omega
  · exact .inr ⟨htr, hseg, hblk⟩

theorem acceptedSegments_concat (event : UploadEvent) (events : List UploadEvent) :
    ∀ u : SdoState OD cap × Receiver, acceptedSegments u (events ++ [event]) =
      acceptedSegments u events + event.accepts (uploadRun u events).2 := by
  induction events with
  | nil => exact fun u => Nat.add_comm _ _
  | cons first events ih =>
    intro u
    have hrest := ih (uploadStep u first)
    simp only [List.cons_append, acceptedSegments, hrest, Nat.add_assoc]
    rfl

/-- What the end frame and the accepted segments say about the length. -/
theorem AlignedInv.end_states {obj : List UInt8} {u : SdoState OD cap × Receiver} {k : ℕ}
    (h : AlignedInv obj u k) {ackseq blksize : UInt8} {ctx : SdoContext} {f : SdoFrame}
    (hresp : (u.1.processWithContext (ackFrame ackseq blksize) ctx).2 = some f)
    (hend : isEndFrame f) :
    (7 * (k + (UploadEvent.ack ackseq blksize ctx).accepts u.2) : ℤ) - f.unusedBytes = obj.length ↔
      obj.length ≠ 0 ∨ ackseq = 0 := by
  obtain ⟨s, r⟩ := u
  rcases h with ⟨b, htr, hb⟩ | ⟨htr, hseg, hblk⟩
  swap
  · rw [processWithContext_ack_idle htr] at hresp
    cases hresp
    exact (not_isEndFrame_abort _ _ _ hend).elim
  dsimp only at htr hb hresp
  rcases ack_cases htr hb.consistent ackseq blksize ctx with
    ⟨-, hr⟩ | ⟨-, -, index, subindex, code, hr⟩ | ⟨hcomp, hgood, hall, hr⟩ | ⟨-, -, -, b', hr, -⟩
  · rw [hr] at hresp
    cases hresp
  · rw [hr] at hresp
    cases hresp
    exact (not_isEndFrame_abort _ _ _ hend).elim
  · rw [hr] at hresp
    cases hresp
    have hrange := hgood
    simp only [Receiver.inRange, Bool.and_eq_true, decide_eq_true_eq] at hrange
    rw [hb.length_ackedWith hrange.2] at hall
    have haccepts : (UploadEvent.ack ackseq blksize ctx).accepts r = ackseq.toNat := by
      simp [UploadEvent.accepts, hcomp, hgood]
    have hzero : ackseq = 0 ↔ ackseq.toNat = 0 := UInt8.toNat_inj.symm
    have hlen := length_content hb.consistent
    have hstart := hb.start
    have hle := hb.consistent.start_le
    have htight := hb.tight
    rw [haccepts, endFrame_unusedBytes, hzero]
    by_cases hempty : obj.length = 0
    · -- the only segment of an empty object counts seven bytes
      rw [hempty]
      simp only [Nat.zero_mod, if_true]
      omega
    · have hbound := htight (by omega)
      have hsegs := hrange.2
      split_ifs <;> omega
  · rw [hr] at hresp
    cases hresp

/-- The end frame states the length of the object, except that an empty object whose
one segment the client accepts is stated to have seven bytes. -/
theorem blockUpload_end_states_length {s : SdoState OD cap}
    (free : s.server.inBlockDownloadData = false)
    {index : UInt16} {subindex initial : UInt8} (hlow : 1 ≤ initial) (hhigh : initial ≤ 127)
    {len : {k : ℕ // k ≤ 889}} {buf : FixedBuffer UInt8 889}
    (hread : ObjectDictionary.read s.od index subindex (FixedBuffer.filled 889 0) = (.ok len, buf))
    (ctx ctx' : SdoContext) (events : List UploadEvent) (ackseq blksize : UInt8)
    (ackCtx : SdoContext) (f : SdoFrame) :
    let u₀ := (startBlockUpload s index subindex initial ctx ctx', Receiver.mk initial [] [])
    let segments := acceptedSegments u₀ (events ++ [.ack ackseq blksize ackCtx])
    ((uploadRun u₀ events).1.processWithContext (ackFrame ackseq blksize) ackCtx).2 = some f →
    isEndFrame f →
    (((7 * segments : ℤ) - f.unusedBytes = len.1 ∧
        (s.processWithContext (blockUploadRequest index subindex initial) ctx).2.map
          (fun g => g.size.toNat) = some len.1) ↔
      len.1 ≠ 0 ∨ ackseq = 0) := by
  intro u₀ segments hresp hend
  obtain ⟨hannounce, hstart⟩ := uploadInv_start free hlow hhigh hread ctx ctx'
  have hinv := alignedInv_run events u₀ 0 hstart.aligned
  have hiff := hinv.end_states hresp hend
  have hsize : (s.processWithContext (blockUploadRequest index subindex initial) ctx).2.map
      (fun g => g.size.toNat) = some len.1 := by
    have hlen := len.2
    rw [hannounce, Option.map_some, SdoFrame.size_initiate, UInt32.toNat_ofNat']
    congr 1
    omega
  have hsegments : segments = 0 + acceptedSegments u₀ events +
      (UploadEvent.ack ackseq blksize ackCtx).accepts (uploadRun u₀ events).2 := by
    rw [Nat.zero_add]
    exact acceptedSegments_concat _ _ _
  rw [buf.length_front len.2] at hiff
  rw [hsegments, and_iff_left hsize]
  push_cast at hiff ⊢
  exact hiff

/-- Ten bytes in two segments, of which the last has four unused bytes. -/
theorem blockUpload_end_states_length_image :
    let ctx := SdoContext.standalone .preOperational 0
    let u₀ := (startBlockUpload sampleImage 0x2020 0 2 ctx ctx, Receiver.mk 2 [] [])
    let segments := acceptedSegments u₀
      ([.poll 1, .poll 2, .ack 1 127 ctx, .poll 3] ++ [.ack 1 127 ctx])
    (7 * segments : ℤ) - (SdoServer.blockUploadEndFrame 10
      (crc16CcittUpdate 0 (List.replicate 10 7))).unusedBytes = 10 := by
  have free : sampleImage.server.inBlockDownloadData = false := rfl
  have hlow : (1 : UInt8) ≤ 2 := by decide
  have hhigh : (2 : UInt8) ≤ 127 := by decide
  have hread : ObjectDictionary.read sampleImage.od 0x2020 0 (FixedBuffer.filled 889 0) =
      (.ok ⟨10, by decide⟩, (FixedBuffer.filled 889 0).write 0 (List.replicate 10 7)) := rfl
  intro ctx u₀ segments
  have hiff := blockUpload_end_states_length free hlow hhigh hread ctx ctx
    [.poll 1, .poll 2, .ack 1 127 ctx, .poll 3] 1 127 ctx
    (SdoServer.blockUploadEndFrame 10 (crc16CcittUpdate 0 (List.replicate 10 7)))
    (by decide +kernel) (isEndFrame_blockUploadEndFrame _ _)
  exact (hiff.mpr (.inl (by decide))).1

/-- The image of the sample drive is empty until it is written. Its only segment is
accepted, and the end frame has no unused bytes. -/
theorem blockUpload_empty_states_seven :
    let ctx := SdoContext.standalone .preOperational 0
    let s : SdoState Derive.GeneratedOd 4 := ⟨.new, Derive.sampleOd, .empty, []⟩
    let u₀ := (startBlockUpload s 0x2020 0 2 ctx ctx, Receiver.mk 2 [] [])
    let segments := acceptedSegments u₀ [.poll 1, .ack 1 127 ctx]
    ∃ f, ((uploadRun u₀ [.poll 1]).1.processWithContext (ackFrame 1 127) ctx).2 = some f ∧
      isEndFrame f ∧ segments = 1 ∧
      (s.processWithContext (blockUploadRequest 0x2020 0 2) ctx).2.map
        (fun g => g.size.toNat) = some 0 ∧
      ¬((7 * segments : ℤ) - f.unusedBytes = 0) := by
  intro ctx s u₀ segments
  exact ⟨SdoServer.blockUploadEndFrame 0 0, by decide, isEndFrame_blockUploadEndFrame _ _, by decide,
    by decide, by decide⟩

end Canopen.Sdo
