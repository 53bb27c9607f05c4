import Canopen.Sdo.Commit

/-!
# Block uploads under any acknowledgement pattern

A block upload seen from the other side: the client collects the segments of the
current sub-block and, when it acknowledges the first `ackseq` of them, appends
their payloads to what it has. `Consistent` ties this record to the server, which
rewinds its offset, sequence number and CRC on every acknowledgement.
-/

namespace Canopen.Sdo

open LittleEndian

variable {OD : Type} [ObjectDictionary OD] {cap : ℕ}

/-- What the client of a block upload has seen. -/
structure Receiver where
  /-- Segments per sub-block. -/
  blksize : UInt8
  /-- The segments of the current sub-block. -/
  segments : List SdoFrame
  /-- The payloads of all acknowledged segments. -/
  acked : List UInt8
  deriving DecidableEq, Repr

/-- The current sub-block is complete: its last segment or a full block has arrived. -/
def Receiver.complete (r : Receiver) : Bool :=
  r.segments.any (fun f => f.b0 &&& 0x80 != 0) || r.segments.length == r.blksize.toNat

/-- The payloads acknowledged so far, if the first `ackseq` segments of the current
sub-block are acknowledged too. -/
def Receiver.ackedWith (r : Receiver) (ackseq : UInt8) : List UInt8 :=
  r.acked ++ (r.segments.take ackseq.toNat).flatMap SdoFrame.payload

/-- Acknowledge the first `ackseq` segments and ask for sub-blocks of `blksize`. -/
def ackFrame (ackseq blksize : UInt8) : SdoFrame :=
  .segment ((5 : UInt8) <<< 5 ||| 0x02) [ackseq, blksize]

inductive UploadEvent
  | poll (nowUs : UInt64)
  | ack (ackseq blksize : UInt8) (ctx : SdoContext)

/-- An acknowledgement the protocol allows for the current sub-block. -/
def Receiver.inRange (r : Receiver) (ackseq blksize : UInt8) : Bool :=
  1 ≤ blksize && blksize ≤ 127 && ackseq.toNat ≤ r.segments.length

/-- The receiver's side of an acknowledgement. It counts only when the sub-block is
complete and the acknowledgement is in range; an abort ends the sub-block. -/
def Receiver.acknowledge (r : Receiver) (ackseq blksize : UInt8) (response : Option SdoFrame) :
    Receiver :=
  if r.complete && r.inRange ackseq blksize then ⟨blksize, [], r.ackedWith ackseq⟩
  else if response.any SdoFrame.isAbort then { r with segments := [] }
  else r

def uploadStep (u : SdoState OD cap × Receiver) : UploadEvent → SdoState OD cap × Receiver
  | .poll nowUs =>
    ({ u.1 with server := (u.1.server.pollBlockUpload nowUs).1 },
      match (u.1.server.pollBlockUpload nowUs).2 with
      | some frame => { u.2 with segments := u.2.segments ++ [frame] }
      | none => u.2)
  | .ack ackseq blksize ctx =>
    ((u.1.processWithContext (ackFrame ackseq blksize) ctx).1,
      u.2.acknowledge ackseq blksize (u.1.processWithContext (ackFrame ackseq blksize) ctx).2)

def uploadRun (u : SdoState OD cap × Receiver) (events : List UploadEvent) :
    SdoState OD cap × Receiver :=
  events.foldl uploadStep u

/-- A block upload is in progress. -/
def Uploading (s : SdoState OD cap) : Prop := ∃ b, s.server.transfer = some (.blockUpload b)

def isEndFrame (f : SdoFrame) : Prop := commandSpecifier f.b0 = 6 ∧ f.b0 &&& 0x03 = 1

/-! ## The invariant -/

/-- The object followed by the padding of its last segment. -/
def padded (obj : List UInt8) : List UInt8 := obj ++ List.replicate 7 0

/-- Server and receiver agree. The current sub-block starts behind the acknowledged
bytes, and its segments are consecutive pieces of the padded object. -/
structure Consistent (obj : List UInt8) (b : BlockUploadState) (r : Receiver) : Prop where
  content : b.buf.front b.totalLen = obj
  blksize : b.blksize = r.blksize
  blksize_pos : 1 ≤ r.blksize.toNat
  blksize_le : r.blksize.toNat ≤ 127
  delivered : r.acked = (padded obj).take b.subblockStartOffset
  start_le : b.subblockStartOffset ≤ b.totalLen
  stream : r.segments.flatMap SdoFrame.payload =
    ((padded obj).drop b.subblockStartOffset).take (7 * r.segments.length)
  offset : b.offset = min (b.subblockStartOffset + 7 * r.segments.length) b.totalLen
  bound : b.subblockStartOffset + 7 * r.segments.length ≤ b.totalLen + 7
  lastSeqno : b.lastSeqno.toNat = r.segments.length
  /-- The server waits for the client exactly when the sub-block is complete. -/
  phase : if b.seqno = 0 then r.complete = true
    else r.complete = false ∧ b.seqno.toNat = r.segments.length + 1 ∧
      r.segments.length < r.blksize.toNat ∧
      b.subblockStartOffset + 7 * r.segments.length ≤ b.totalLen

theorem length_content {obj : List UInt8} {b : BlockUploadState} {r : Receiver}
    (h : Consistent obj b r) : obj.length = b.totalLen := by
  rw [← h.content, b.buf.length_front b.total_le]

/-! ## Polling -/

theorem payload_segment (byte0 : UInt8) (l : List UInt8) (h : l.length ≤ 7) :
    (SdoFrame.segment byte0 l).payload = (l ++ List.replicate 7 0).take 7 := by
  match l, h with
  | [], _ => rfl
  | [_], _ => rfl
  | [_, _], _ => rfl
  | [_, _, _], _ => rfl
  | [_, _, _, _], _ => rfl
  | [_, _, _, _, _], _ => rfl
  | [_, _, _, _, _, _], _ => rfl
  | [_, _, _, _, _, _, _], _ => rfl
  | _ :: _ :: _ :: _ :: _ :: _ :: _ :: _ :: _, h => simp at h; omega

theorem padded_segment (obj : List UInt8) {offset : ℕ} (h : offset ≤ obj.length) :
    ((obj.drop offset).take 7 ++ List.replicate 7 0).take 7 = ((padded obj).drop offset).take 7 := by
  rw [padded, List.drop_append_of_le_length h]
  rcases Nat.le_total (obj.drop offset).length 7 with hlen | hlen
  · rw [List.take_of_length_le hlen]
  · rw [List.take_append_of_le_length (by rw [List.length_take]; omega), List.take_take, Nat.min_self,
      List.take_append_of_le_length hlen]

theorem and_high_bit (x : UInt8) (h : x.toNat ≤ 127) : x &&& 0x80 = 0 ∧ (x ||| 0x80) &&& 0x80 ≠ 0 ∧
    x &&& 0x7F = x ∧ (x ||| 0x80) &&& 0x7F = x := by
  have hall : ∀ n : Fin 128, UInt8.ofNat n.1 &&& 0x80 = 0 ∧ (UInt8.ofNat n.1 ||| 0x80) &&& 0x80 ≠ 0 ∧
      UInt8.ofNat n.1 &&& 0x7F = UInt8.ofNat n.1 ∧
      (UInt8.ofNat n.1 ||| 0x80) &&& 0x7F = UInt8.ofNat n.1 := by
    decide
  have hx := hall ⟨x.toNat, by omega⟩
  simpa using hx

theorem nextSegment_payload {obj : List UInt8} {b : BlockUploadState} {r : Receiver}
    (h : Consistent obj b r) (nowUs : UInt64) (ho : b.offset ≤ obj.length) :
    (b.nextSegment nowUs).2.payload = ((padded obj).drop b.offset).take 7 := by
  have hlen := length_content h
  have hslice : b.buf.slice b.offset (min (b.totalLen - b.offset) 7) = (obj.drop b.offset).take 7 := by
    have hoff := b.offset_le
    have hin : b.offset + min (b.totalLen - b.offset) 7 ≤ b.totalLen := by omega
    rw [← b.buf.slice_front hin, h.content]
    rcases Nat.le_total (b.totalLen - b.offset) 7 with h7 | h7
    · have hrest : (obj.drop b.offset).length ≤ 7 := by rw [List.length_drop]; omega
      rw [Nat.min_eq_left h7, List.take_of_length_le (by rw [List.length_drop]; omega),
        List.take_of_length_le hrest]
    · rw [Nat.min_eq_right h7]
  have hseven : ((obj.drop b.offset).take 7).length ≤ 7 := by rw [List.length_take]; omega
  rw [BlockUploadState.nextSegment]
  simp only [hslice]
  rw [payload_segment _ _ hseven, padded_segment obj ho]

theorem Consistent.poll {obj : List UInt8} {b : BlockUploadState} {r : Receiver}
    (h : Consistent obj b r) (hseq : b.seqno ≠ 0) (nowUs : UInt64) :
    Consistent obj (b.nextSegment nowUs).1
      { r with segments := r.segments ++ [(b.nextSegment nowUs).2] } := by
  have hphase := h.phase
  rw [if_neg hseq] at hphase
  obtain ⟨hopen, hnum, hroom, hmore⟩ := hphase
  have hlen := length_content h
  have hblk := h.blksize_le
  have hoff : b.offset = b.subblockStartOffset + 7 * r.segments.length := by
    rw [h.offset]
    omega
  have hpay := nextSegment_payload h nowUs (by omega)
  obtain ⟨hlow, hhigh, hkeep, hclear⟩ := and_high_bit b.seqno (by omega)
  -- byte 0 of the new segment, with and without the last-segment flag
  have hbyte : (b.nextSegment nowUs).2.b0 =
      if b.totalLen - b.offset ≤ 7 then b.seqno ||| 0x80 else b.seqno := by
    by_cases hlast : b.totalLen - b.offset ≤ 7 <;> simp [BlockUploadState.nextSegment, hlast]
  have hflag : ((b.nextSegment nowUs).2.b0 &&& 0x80 != 0) = decide (b.totalLen - b.offset ≤ 7) := by
    rw [hbyte]
    by_cases hlast : b.totalLen - b.offset ≤ 7
    · simp [hlast, hhigh]
    · simp [hlast, hlow]
  have hfull : b.blksize ≤ b.seqno ↔ r.segments.length + 1 = r.blksize.toNat := by
    rw [h.blksize, UInt8.le_iff_toNat_le, hnum]
    omega
  have hcomplete : Receiver.complete
      { r with segments := r.segments ++ [(b.nextSegment nowUs).2] } =
      (decide (b.totalLen - b.offset ≤ 7) || decide (b.blksize ≤ b.seqno)) := by
    have hnone : r.segments.any (fun f => f.b0 &&& 0x80 != 0) = false := by
      unfold Receiver.complete at hopen
      exact (Bool.or_eq_false_iff.mp hopen).1
    simp only [Receiver.complete, List.any_append, hnone, List.any_cons, hflag, List.any_nil,
      Bool.false_or, Bool.or_false, List.length_append, List.length_singleton]
    congr 1
    rw [Bool.eq_iff_iff, beq_iff_eq, decide_eq_true_iff, hfull]
  have hnext : (b.nextSegment nowUs).1.seqno =
      if b.blksize ≤ b.seqno ∨ b.totalLen - b.offset ≤ 7 then 0 else b.seqno + 1 := by
    simp [BlockUploadState.nextSegment]
  refine ⟨h.content, h.blksize, h.blksize_pos, h.blksize_le, h.delivered, h.start_le, ?_, ?_, ?_, ?_,
    ?_⟩
  · rw [List.flatMap_append, h.stream, List.flatMap_singleton, hpay, hoff, List.length_append,
      List.length_singleton, Nat.mul_add, List.take_add, List.drop_drop]
    rfl
  · change b.offset + min (b.totalLen - b.offset) 7 = _
    rw [List.length_append, List.length_singleton]
    change _ = min (b.subblockStartOffset + 7 * (r.segments.length + 1)) b.totalLen
    omega
  · change b.subblockStartOffset + 7 * _ ≤ b.totalLen + 7
    rw [List.length_append, List.length_singleton]
    omega
  · change ((b.nextSegment nowUs).2.b0 &&& 0x7F).toNat = _
    rw [hbyte, List.length_append, List.length_singleton]
    split_ifs
    · rw [hclear, hnum]
    · rw [hkeep, hnum]
  · rw [hnext, hcomplete]
    by_cases hend : b.blksize ≤ b.seqno ∨ b.totalLen - b.offset ≤ 7
    · rw [if_pos hend, if_pos rfl]
      simpa [or_comm] using hend
    · have hnz : b.seqno + 1 ≠ 0 := by
        intro hz
        have := congrArg UInt8.toNat hz
        rw [UInt8.toNat_add, hnum] at this
        change (_ + 1) % 256 = 0 at this
        omega
      have hnat : (b.seqno + 1).toNat = r.segments.length + 2 := by
        rw [UInt8.toNat_add, hnum]
        change (_ + 1) % 256 = _
        omega
      obtain ⟨hpart, hrest⟩ := not_or.mp hend
      have hroom' : r.segments.length + 1 ≠ r.blksize.toNat := fun he => hpart (hfull.mpr he)
      rw [if_neg hend, if_neg hnz, List.length_append, List.length_singleton]
      refine ⟨?_, hnat, by change _ < r.blksize.toNat; omega, ?_⟩
      · simp [hpart, hrest]
      · change b.subblockStartOffset + 7 * (r.segments.length + 1) ≤ b.totalLen
        omega

/-! ## Acknowledging -/

theorem blockUploadEndFrame_spec (totalLen : ℕ) (crc : UInt16) :
    commandSpecifier (SdoServer.blockUploadEndFrame totalLen crc).b0 = 6 ∧
      (SdoServer.blockUploadEndFrame totalLen crc).b0 &&& 0x03 = 1 ∧
      (SdoServer.blockUploadEndFrame totalLen crc).b0 ≠ 0x80 ∧
      ofLe16 (SdoServer.blockUploadEndFrame totalLen crc).b1
        (SdoServer.blockUploadEndFrame totalLen crc).b2 = crc := by
  have hall : ∀ n : Fin 8,
      let x : UInt8 := (6 : UInt8) <<< 5 ||| 0x01 ||| (n.1.toUInt8 &&& 0x07) <<< (2 : UInt8)
      commandSpecifier x = 6 ∧ x &&& 0x03 = 1 ∧ x ≠ 0x80 := by
    decide
  have hn : (if totalLen % 7 = 0 then 0 else 7 - totalLen % 7) < 8 := by
    split_ifs <;> omega
  obtain ⟨h1, h2, h3⟩ := hall ⟨_, hn⟩
  exact ⟨h1, h2, h3, ofLe16_bytes crc⟩

theorem ackFrame_dispatch (s : SdoState OD cap) (ackseq blksize : UInt8) (ctx : SdoContext) :
    s.dispatch (ackFrame ackseq blksize) ctx =
      s.serve (s.server.blockUploadAck (ackFrame ackseq blksize) ctx.nowUs) := by
  have hcs : commandSpecifier (ackFrame ackseq blksize).b0 = Ccs.blockUpload.toByte := by
    rw [ackFrame, SdoFrame.segment_b0]
    decide
  have hsub : (ackFrame ackseq blksize).b0 &&& 0x03 = 2 := by
    rw [ackFrame, SdoFrame.segment_b0]
    decide
  simp [SdoState.dispatch, hcs, Ccs.toByte, SdoServer.handleBlockUpload, hsub]

/-- The server's reaction to an acknowledgement during a block upload. -/
theorem processWithContext_ack {s : SdoState OD cap} {b : BlockUploadState}
    (htr : s.server.transfer = some (.blockUpload b)) (ackseq blksize : UInt8) (ctx : SdoContext) :
    s.processWithContext (ackFrame ackseq blksize) ctx =
      let b' := b.acknowledged ackseq blksize ctx.nowUs
      if b.seqno = 0 then
        if ¬(1 ≤ blksize ∧ blksize ≤ maxBlksize) then
          (s.setTransfer none, some (encodeAbort b.index b.subindex .invalidBlockSize))
        else if b.lastSeqno < ackseq then
          (s.setTransfer none, some (encodeAbort b.index b.subindex .invalidSequenceNumber))
        else if b'.totalLen ≤ b'.offset then
          (s.setTransfer none, some (SdoServer.blockUploadEndFrame b'.totalLen b'.crc))
        else (s.setTransfer (some (.blockUpload { b' with seqno := 1, lastSeqno := 0 })), none)
      else (s, none) := by
  have hfree : s.server.inBlockDownloadData = false := by
    simp [SdoServer.inBlockDownloadData, htr]
  unfold SdoState.processWithContext
  rw [hfree, Bool.false_and, if_neg (by simp), ackFrame_dispatch]
  have hb1 : (ackFrame ackseq blksize).b1 = ackseq := rfl
  have hb2 : (ackFrame ackseq blksize).b2 = blksize := rfl
  simp only [SdoServer.blockUploadAck, htr, hb1, hb2]
  by_cases hseq : b.seqno = 0
  · simp only [if_pos hseq]
    by_cases hblk : ¬(1 ≤ blksize ∧ blksize ≤ maxBlksize)
    · simp only [if_pos hblk]
      rfl
    simp only [if_neg hblk]
    by_cases hack : b.lastSeqno < ackseq
    · simp only [if_pos hack]
      rfl
    simp only [if_neg hack]
    by_cases hdone : (b.acknowledged ackseq blksize ctx.nowUs).totalLen ≤
        (b.acknowledged ackseq blksize ctx.nowUs).offset
    · obtain ⟨-, -, hend, -⟩ := blockUploadEndFrame_spec
        (b.acknowledged ackseq blksize ctx.nowUs).totalLen
        (b.acknowledged ackseq blksize ctx.nowUs).crc
      simp only [if_pos hdone, SdoState.serve]
      rw [if_neg (by simpa using hend)]
      rfl
    · simp only [if_neg hdone]
      rfl
  · simp only [if_neg hseq]
    rfl

/-- The payloads an acknowledgement adds. -/
theorem Consistent.ackedWith {obj : List UInt8} {b : BlockUploadState} {r : Receiver}
    (h : Consistent obj b r) {ackseq : UInt8} (hack : ackseq.toNat ≤ r.segments.length) :
    r.ackedWith ackseq = (padded obj).take (b.subblockStartOffset + 7 * ackseq.toNat) := by
  have htake : ∀ (l : List SdoFrame) (n : ℕ), n ≤ l.length →
      (l.take n).flatMap SdoFrame.payload = (l.flatMap SdoFrame.payload).take (7 * n) := by
    intro l
    induction l with
    | nil => simp
    | cons f l ih =>
      intro n hn
      cases n with
      | zero => simp
      | succ n =>
        have hseven : 7 * (n + 1) = f.payload.length + 7 * n := by simp; omega
        rw [List.take_succ_cons, List.flatMap_cons, List.flatMap_cons, hseven,
          List.take_length_add_append, ih n (by simpa using hn)]
  rw [Receiver.ackedWith, h.delivered, htake _ _ hack, h.stream, List.take_take,
    Nat.min_eq_left (by omega), ← List.take_add]

theorem length_padded_take (obj : List UInt8) {n : ℕ} (h : n ≤ obj.length + 7) :
    ((padded obj).take n).length = n := by
  simp [padded]
  omega

/-- An acknowledgement of part of the object starts the next sub-block. -/
theorem Consistent.acknowledge {obj : List UInt8} {b : BlockUploadState} {r : Receiver}
    (h : Consistent obj b r) {ackseq blksize : UInt8} (hrange : r.inRange ackseq blksize = true)
    (nowUs : UInt64)
    (hmore : ¬(b.acknowledged ackseq blksize nowUs).totalLen ≤
      (b.acknowledged ackseq blksize nowUs).offset) :
    Consistent obj { b.acknowledged ackseq blksize nowUs with seqno := 1, lastSeqno := 0 }
      ⟨blksize, [], r.ackedWith ackseq⟩ := by
  simp only [Receiver.inRange, Bool.and_eq_true, decide_eq_true_eq, UInt8.le_iff_toNat_le] at hrange
  obtain ⟨⟨hlow, hhigh⟩, hack⟩ := hrange
  have hoff : (b.acknowledged ackseq blksize nowUs).offset =
      b.subblockStartOffset + 7 * ackseq.toNat := by
    change min (b.subblockStartOffset + ackseq.toNat * 7) b.totalLen = _
    change ¬b.totalLen ≤ min (b.subblockStartOffset + ackseq.toNat * 7) b.totalLen at hmore
    omega
  have hempty : Receiver.complete ⟨blksize, [], r.ackedWith ackseq⟩ = false := by
    have hne : ¬(0 = blksize.toNat) := by
      change 1 ≤ _ at hlow
      omega
    simpa [Receiver.complete] using hne
  refine ⟨h.content, rfl, hlow, hhigh, ?_, (b.acknowledged ackseq blksize nowUs).offset_le, rfl, ?_, ?_,
    rfl, ?_⟩
  · rw [h.ackedWith hack]
    exact congrArg (fun k => (padded obj).take k) hoff.symm
  · change (b.acknowledged ackseq blksize nowUs).offset =
      min ((b.acknowledged ackseq blksize nowUs).offset + 7 * 0) b.totalLen
    have := (b.acknowledged ackseq blksize nowUs).offset_le
    change _ ≤ b.totalLen at this
    omega
  · change (b.acknowledged ackseq blksize nowUs).offset + 7 * 0 ≤ b.totalLen + 7
    have := (b.acknowledged ackseq blksize nowUs).offset_le
    change _ ≤ b.totalLen at this
    omega
  · dsimp only
    rw [if_neg (by decide)]
    refine ⟨hempty, rfl, ?_, (b.acknowledged ackseq blksize nowUs).offset_le⟩
    change 0 < blksize.toNat
    change 1 ≤ _ at hlow
    omega

/-- The four reactions to an acknowledgement: ignored in the middle of a sub-block,
refused out of range, the end frame when the whole object is acknowledged, the next
sub-block otherwise. -/
theorem ack_cases {obj : List UInt8} {s : SdoState OD cap} {b : BlockUploadState} {r : Receiver}
    (htr : s.server.transfer = some (.blockUpload b)) (h : Consistent obj b r)
    (ackseq blksize : UInt8) (ctx : SdoContext) :
    (r.complete = false ∧ s.processWithContext (ackFrame ackseq blksize) ctx = (s, none)) ∨
    (r.complete = true ∧ r.inRange ackseq blksize = false ∧ ∃ index subindex code,
      s.processWithContext (ackFrame ackseq blksize) ctx =
        (s.setTransfer none, some (encodeAbort index subindex code))) ∨
    (r.complete = true ∧ r.inRange ackseq blksize = true ∧
      obj.length ≤ (r.ackedWith ackseq).length ∧
      s.processWithContext (ackFrame ackseq blksize) ctx = (s.setTransfer none,
        some (SdoServer.blockUploadEndFrame obj.length (crc16CcittUpdate 0 obj)))) ∨
    (r.complete = true ∧ r.inRange ackseq blksize = true ∧
      (r.ackedWith ackseq).length < obj.length ∧ ∃ b',
      s.processWithContext (ackFrame ackseq blksize) ctx =
        (s.setTransfer (some (.blockUpload b')), none) ∧
      Consistent obj b' ⟨blksize, [], r.ackedWith ackseq⟩) := by
  have hack := processWithContext_ack htr ackseq blksize ctx
  have hlen := length_content h
  have hphase := h.phase
  by_cases hseq : b.seqno = 0
  swap
  · rw [if_neg hseq] at hphase
    simp only [if_neg hseq] at hack
    exact .inl ⟨hphase.1, hack⟩
  rw [if_pos hseq] at hphase
  simp only [if_pos hseq] at hack
  by_cases hblk : ¬(1 ≤ blksize ∧ blksize ≤ maxBlksize)
  · simp only [if_pos hblk] at hack
    refine .inr (.inl ⟨hphase, ?_, _, _, _, hack⟩)
    rw [Receiver.inRange, Bool.and_eq_false_iff]
    exact .inl (by simpa [maxBlksize] using hblk)
  simp only [if_neg hblk] at hack
  by_cases hseqno : b.lastSeqno < ackseq
  · simp only [if_pos hseqno] at hack
    refine .inr (.inl ⟨hphase, ?_, _, _, _, hack⟩)
    rw [UInt8.lt_iff_toNat_lt, h.lastSeqno] at hseqno
    rw [Receiver.inRange, Bool.and_eq_false_iff]
    exact .inr (by simpa using hseqno)
  simp only [if_neg hseqno] at hack
  have hle : ackseq.toNat ≤ r.segments.length := by
    rw [UInt8.lt_iff_toNat_lt, h.lastSeqno] at hseqno
    omega
  have hrange : r.inRange ackseq blksize = true := by
    rw [Receiver.inRange, Bool.and_eq_true]
    exact ⟨by simpa [maxBlksize] using hblk, by simpa using hle⟩
  have hbound := h.bound
  have hlength : (r.ackedWith ackseq).length = b.subblockStartOffset + 7 * ackseq.toNat := by
    rw [h.ackedWith hle]
    exact length_padded_take obj (by omega)
  by_cases hdone : (b.acknowledged ackseq blksize ctx.nowUs).totalLen ≤
      (b.acknowledged ackseq blksize ctx.nowUs).offset
  · simp only [if_pos hdone] at hack
    have hall : b.totalLen ≤ min (b.subblockStartOffset + ackseq.toNat * 7) b.totalLen := hdone
    have hcrc : (b.acknowledged ackseq blksize ctx.nowUs).crc = crc16CcittUpdate 0 obj := by
      change crc16CcittUpdate 0 (b.buf.front (min (b.subblockStartOffset + ackseq.toNat * 7)
        b.totalLen)) = _
      rw [Nat.min_eq_right (by omega), h.content]
    rw [hcrc] at hack
    refine .inr (.inr (.inl ⟨hphase, hrange, by omega, ?_⟩))
    rw [hack, hlen]
    rfl
  · simp only [if_neg hdone] at hack
    have hpart : ¬b.totalLen ≤ min (b.subblockStartOffset + ackseq.toNat * 7) b.totalLen := hdone
    exact .inr (.inr (.inr ⟨hphase, hrange, by omega, _, hack,
      h.acknowledge hrange ctx.nowUs hdone⟩))

/-! ## Runs -/

/-- The upload is in progress and consistent, or over with the acknowledged bytes in
place. -/
def UploadInv (obj : List UInt8) (u : SdoState OD cap × Receiver) : Prop :=
  (∃ b, u.1.server.transfer = some (.blockUpload b) ∧ Consistent obj b u.2) ∨
  (u.1.server.transfer = none ∧ u.2.segments = [] ∧ 1 ≤ u.2.blksize.toNat ∧
    ∃ n, n ≤ obj.length + 7 ∧ u.2.acked = (padded obj).take n)

omit [ObjectDictionary OD] in
/-- What the receiver has acknowledged is the object up to there, whether or not the
upload is still in progress. -/
theorem UploadInv.acked {obj : List UInt8} {u : SdoState OD cap × Receiver} (h : UploadInv obj u) :
    u.2.acked.take obj.length = obj.take u.2.acked.length := by
  obtain ⟨n, hn, hacked⟩ : ∃ n, n ≤ obj.length + 7 ∧ u.2.acked = (padded obj).take n := by
    rcases h with ⟨b, -, hb⟩ | ⟨-, -, -, hn⟩
    · exact ⟨b.subblockStartOffset, by rw [length_content hb]; have := hb.start_le; omega,
        hb.delivered⟩
    · exact hn
  rw [hacked, length_padded_take obj hn, List.take_take, padded]
  rcases Nat.le_total obj.length n with hle | hle
  · rw [Nat.min_eq_left hle, List.take_left, List.take_of_length_le hle]
  · rw [Nat.min_eq_right hle, List.take_append_of_le_length hle]

theorem complete_of_nil {r : Receiver} (hseg : r.segments = []) (hblk : 1 ≤ r.blksize.toNat) :
    r.complete = false := by
  have hne : ¬(0 = r.blksize.toNat) := by omega
  simpa [Receiver.complete, hseg] using hne

theorem processWithContext_ack_idle {s : SdoState OD cap} (htr : s.server.transfer = none)
    (ackseq blksize : UInt8) (ctx : SdoContext) :
    s.processWithContext (ackFrame ackseq blksize) ctx =
      (s.setTransfer none, some (encodeAbort 0 0 .invalidCommandSpecifier)) := by
  have hfree : s.server.inBlockDownloadData = false := by
    simp [SdoServer.inBlockDownloadData, htr]
  unfold SdoState.processWithContext
  rw [hfree, Bool.false_and, if_neg (by simp), ackFrame_dispatch]
  simp only [SdoServer.blockUploadAck, htr]
  rfl

theorem uploadInv_step {obj : List UInt8} {u : SdoState OD cap × Receiver} (h : UploadInv obj u)
    (event : UploadEvent) : UploadInv obj (uploadStep u event) := by
  obtain ⟨s, r⟩ := u
  rcases h with ⟨b, htr, hb⟩ | ⟨htr, hseg, hblk, n, hn, hacked⟩
  · dsimp only at htr hb
    cases event with
    | poll nowUs =>
      by_cases hseq : b.seqno = 0
      · refine .inl ⟨b, ?_, ?_⟩ <;> simp [uploadStep, SdoServer.pollBlockUpload, htr, hseq, hb]
      · refine .inl ⟨(b.nextSegment nowUs).1, ?_, ?_⟩
        · simp [uploadStep, SdoServer.pollBlockUpload, htr, hseq]
        · simpa [uploadStep, SdoServer.pollBlockUpload, htr, hseq] using hb.poll hseq nowUs
    | ack ackseq blksize ctx =>
      rcases ack_cases htr hb ackseq blksize ctx with
        ⟨hopen, hr⟩ | ⟨hcomp, hbad, index, subindex, code, hr⟩ | ⟨hcomp, hgood, hall, hr⟩ |
          ⟨hcomp, hgood, hpart, b', hr, hb'⟩
      · refine .inl ⟨b, ?_, ?_⟩
        · simpa [uploadStep, hr] using htr
        · simpa [uploadStep, hr, Receiver.acknowledge, hopen] using hb
      · refine .inr ?_
        have hle := hb.start_le
        have hlen := length_content hb
        simp only [uploadStep, hr, Receiver.acknowledge, hcomp, hbad]
        exact ⟨rfl, rfl, hb.blksize_pos, b.subblockStartOffset, by omega, hb.delivered⟩
      · refine .inr ?_
        have hrange := hgood
        simp only [Receiver.inRange, Bool.and_eq_true, decide_eq_true_eq] at hrange
        have hbound := hb.bound
        have hlen := length_content hb
        simp only [uploadStep, hr, Receiver.acknowledge, hcomp, hgood, Bool.and_self, if_true]
        exact ⟨rfl, trivial, UInt8.le_iff_toNat_le.mp hrange.1.1, _, by omega, hb.ackedWith hrange.2⟩
      · refine .inl ⟨b', ?_, ?_⟩
        · simp [uploadStep, hr, SdoState.setTransfer]
        · simpa [uploadStep, hr, Receiver.acknowledge, hcomp, hgood] using hb'
  · dsimp only at htr hseg hblk hacked
    cases event with
    | poll nowUs =>
      refine .inr ?_
      simp only [uploadStep, SdoServer.pollBlockUpload, htr]
      exact ⟨trivial, hseg, hblk, n, hn, hacked⟩
    | ack ackseq blksize ctx =>
      refine .inr ?_
      have hopen := complete_of_nil hseg hblk
      simp only [uploadStep, processWithContext_ack_idle htr, Receiver.acknowledge, hopen,
        Bool.false_and]
      exact ⟨rfl, rfl, hblk, n, hn, hacked⟩

theorem uploadInv_run {obj : List UInt8} (events : List UploadEvent) :
    ∀ u : SdoState OD cap × Receiver, UploadInv obj u → UploadInv obj (uploadRun u events) := by
  induction events with
  | nil => exact fun _ h => h
  | cons event events ih => exact fun u h => ih _ (uploadInv_step h event)

theorem not_isEndFrame_abort (index : UInt16) (subindex : UInt8) (code : AbortCode) :
    ¬isEndFrame (encodeAbort index subindex code) := by
  rintro ⟨hcs, -⟩
  rw [encodeAbort_b0] at hcs
  exact absurd hcs (by decide)

/-- How the server answers an acknowledgement, told from what the receiver knows. -/
theorem UploadInv.answer {obj : List UInt8} {u : SdoState OD cap × Receiver} (h : UploadInv obj u)
    (ackseq blksize : UInt8) (ctx : SdoContext) :
    let r := u.1.processWithContext (ackFrame ackseq blksize) ctx
    ((∃ f, r.2 = some f ∧ isEndFrame f) ↔
      Uploading u.1 ∧ u.2.complete = true ∧ u.2.inRange ackseq blksize = true ∧
        obj.length ≤ (u.2.ackedWith ackseq).length) ∧
    (∀ f, r.2 = some f → isEndFrame f →
      ofLe16 f.b1 f.b2 = crc16CcittUpdate 0 obj ∧ r.1.server.transfer = none) ∧
    (Uploading u.1 → u.2.complete = true → u.2.inRange ackseq blksize = false →
      r.2.any SdoFrame.isAbort = true ∧ r.1.server.transfer = none) ∧
    (Uploading u.1 → u.2.complete = false → r = (u.1, none)) := by
  obtain ⟨s, r⟩ := u
  rcases h with ⟨b, htr, hb⟩ | ⟨htr, hseg, hblk, -⟩
  · dsimp only at htr hb ⊢
    have hup : Uploading s := ⟨b, htr⟩
    rcases ack_cases htr hb ackseq blksize ctx with
      ⟨hopen, hr⟩ | ⟨hcomp, hbad, index, subindex, code, hr⟩ | ⟨hcomp, hgood, hall, hr⟩ |
        ⟨hcomp, hgood, hpart, b', hr, -⟩ <;> rw [hr]
    · simp [hopen]
    · refine ⟨⟨?_, by simp [hbad]⟩, ?_, fun _ _ _ => ⟨rfl, rfl⟩, by simp [hcomp]⟩
      · rintro ⟨f, ⟨⟩, hf⟩
        exact (not_isEndFrame_abort _ _ _ hf).elim
      · rintro f ⟨⟩ hf
        exact (not_isEndFrame_abort _ _ _ hf).elim
    · obtain ⟨hcs, hsub, -, hcrc⟩ := blockUploadEndFrame_spec obj.length (crc16CcittUpdate 0 obj)
      refine ⟨⟨fun _ => ⟨hup, hcomp, hgood, hall⟩, fun _ => ⟨_, rfl, hcs, hsub⟩⟩, ?_, by simp [hgood],
        by simp [hcomp]⟩
      rintro f ⟨⟩ -
      exact ⟨hcrc, rfl⟩
    · refine ⟨⟨by simp, fun hdone => ?_⟩, by simp, by simp [hgood], by simp [hcomp]⟩
      omega
  · dsimp only at htr hseg hblk ⊢
    have hidle : ¬Uploading s := by
      rintro ⟨b, hb⟩
      rw [htr] at hb
      cases hb
    rw [processWithContext_ack_idle htr]
    refine ⟨⟨?_, fun hdone => absurd hdone.1 hidle⟩, ?_, fun hup => absurd hup hidle,
      fun hup => absurd hup hidle⟩
    · rintro ⟨f, ⟨⟩, hf⟩
      exact (not_isEndFrame_abort _ _ _ hf).elim
    · rintro f ⟨⟩ hf
      exact (not_isEndFrame_abort _ _ _ hf).elim

/-! ## The whole service -/

/-- Initiate a block upload with sub-blocks of `blksize` segments. -/
def blockUploadRequest (index : UInt16) (subindex blksize : UInt8) : SdoFrame :=
  .initiate ((5 : UInt8) <<< 5 ||| 0x04) index subindex [blksize]

def blockUploadStartFrame : SdoFrame := .segment ((5 : UInt8) <<< 5 ||| 0x03) []

/-- The server after both requests. -/
def startBlockUpload (s : SdoState OD cap) (index : UInt16) (subindex blksize : UInt8)
    (ctx ctx' : SdoContext) : SdoState OD cap :=
  ((s.processWithContext (blockUploadRequest index subindex blksize) ctx).1.processWithContext
    blockUploadStartFrame ctx').1

theorem dispatch_blockUpload (s : SdoState OD cap) (request : SdoFrame) (ctx : SdoContext)
    (hcs : commandSpecifier request.b0 = Ccs.blockUpload.toByte) :
    s.dispatch request ctx = s.serve (s.server.handleBlockUpload s.od request ctx.nowUs) := by
  simp [SdoState.dispatch, hcs, Ccs.toByte]

/-- Initiating a block upload announces the size of what the dictionary returned, and
starting it puts server and receiver into agreement. -/
theorem uploadInv_start {s : SdoState OD cap} (free : s.server.inBlockDownloadData = false)
    {index : UInt16} {subindex blksize : UInt8} (hlow : 1 ≤ blksize) (hhigh : blksize ≤ 127)
    {len : {k : ℕ // k ≤ 889}} {buf : FixedBuffer UInt8 889}
    (hread : ObjectDictionary.read s.od index subindex (FixedBuffer.filled 889 0) = (.ok len, buf))
    (ctx ctx' : SdoContext) :
    (s.processWithContext (blockUploadRequest index subindex blksize) ctx).2 =
        some (.initiate ((6 : UInt8) <<< 5 ||| 0x04 ||| 0x02) index subindex
          (leBytes32 (UInt32.ofNat len))) ∧
      UploadInv (buf.front len)
        (startBlockUpload s index subindex blksize ctx ctx', ⟨blksize, [], []⟩) := by
  have hcs : commandSpecifier (blockUploadRequest index subindex blksize).b0 =
      Ccs.blockUpload.toByte := by
    rw [blockUploadRequest, SdoFrame.initiate_b0]
    decide
  have hsub : (blockUploadRequest index subindex blksize).b0 &&& 0x03 = 0 := by
    rw [blockUploadRequest, SdoFrame.initiate_b0]
    decide
  have haddr : parseIndexSub (blockUploadRequest index subindex blksize) = (index, subindex) :=
    parseIndexSub_initiate ..
  have hblk : (blockUploadRequest index subindex blksize).b4 = blksize := rfl
  have hinit : s.processWithContext (blockUploadRequest index subindex blksize) ctx =
      (s.setTransfer (some (.blockUpload {
          index := index, subindex := subindex, buf := buf, totalLen := len, offset := 0,
          subblockStartOffset := 0, blksize := blksize, seqno := 0, lastSeqno := 0, crc := 0,
          lastActivityUs := ctx.nowUs, offset_le := Nat.zero_le _, total_le := len.2 })),
        some (.initiate ((6 : UInt8) <<< 5 ||| 0x04 ||| 0x02) index subindex
          (leBytes32 (UInt32.ofNat len)))) := by
    unfold SdoState.processWithContext
    rw [free, Bool.false_and, if_neg (by simp), dispatch_blockUpload s _ ctx hcs]
    simp only [SdoServer.handleBlockUpload, hsub, if_true, SdoServer.blockUploadInitiate, haddr, hblk,
      hread]
    rw [if_neg (not_not.mpr ⟨hlow, hhigh⟩)]
    rfl
  have hcs' : commandSpecifier blockUploadStartFrame.b0 = Ccs.blockUpload.toByte := by decide
  refine ⟨by rw [hinit], .inl ⟨{
      index := index, subindex := subindex, buf := buf, totalLen := len, offset := 0,
      subblockStartOffset := 0, blksize := blksize, seqno := 1, lastSeqno := 0, crc := 0,
      lastActivityUs := ctx'.nowUs, offset_le := Nat.zero_le _, total_le := len.2 }, ?_, ?_⟩⟩
  · rw [startBlockUpload, hinit]
    unfold SdoState.processWithContext
    rw [if_neg (by simp [SdoServer.inBlockDownloadData, SdoState.setTransfer]),
      dispatch_blockUpload _ _ ctx' hcs']
    rfl
  · have hpos : 1 ≤ blksize.toNat := UInt8.le_iff_toNat_le.mp hlow
    refine ⟨rfl, rfl, hpos, UInt8.le_iff_toNat_le.mp hhigh, rfl, Nat.zero_le _, rfl, ?_, ?_, rfl, ?_⟩
    · simp
    · simp
    · dsimp only
      rw [if_neg (by decide)]
      exact ⟨complete_of_nil rfl hpos, rfl, hpos, by simp⟩

/-- Block uploads deliver the object under any acknowledgement pattern. After every
sequence of polled segments and acknowledgements, the acknowledged payloads,
truncated to the announced size, are the object up to there. The end frame answers
an acknowledgement exactly when it completes the object, and carries the CRC of the
whole object. An acknowledgement the server waits for aborts the transfer when it
is out of range; in the middle of a sub-block every acknowledgement is ignored. -/
theorem blockUpload_delivers {s : SdoState OD cap} (free : s.server.inBlockDownloadData = false)
    {index : UInt16} {subindex initial : UInt8} (hlow : 1 ≤ initial) (hhigh : initial ≤ 127)
    {len : {k : ℕ // k ≤ 889}} {buf : FixedBuffer UInt8 889}
    (hread : ObjectDictionary.read s.od index subindex (FixedBuffer.filled 889 0) = (.ok len, buf))
    (ctx ctx' : SdoContext) (events : List UploadEvent) :
    let u := uploadRun (startBlockUpload s index subindex initial ctx ctx', ⟨initial, [], []⟩) events
    (s.processWithContext (blockUploadRequest index subindex initial) ctx).2 =
        some (.initiate ((6 : UInt8) <<< 5 ||| 0x04 ||| 0x02) index subindex
          (leBytes32 (UInt32.ofNat len))) ∧
    u.2.acked.take len = (buf.front len).take u.2.acked.length ∧
    ∀ (ackseq blksize : UInt8) (ackCtx : SdoContext),
      let r := u.1.processWithContext (ackFrame ackseq blksize) ackCtx
      ((∃ f, r.2 = some f ∧ isEndFrame f) ↔
        Uploading u.1 ∧ u.2.complete = true ∧ u.2.inRange ackseq blksize = true ∧
          len.1 ≤ (u.2.ackedWith ackseq).length) ∧
      (∀ f, r.2 = some f → isEndFrame f →
        ofLe16 f.b1 f.b2 = crc16CcittUpdate 0 (buf.front len) ∧ r.1.server.transfer = none) ∧
      (Uploading u.1 → u.2.complete = true → u.2.inRange ackseq blksize = false →
        r.2.any SdoFrame.isAbort = true ∧ r.1.server.transfer = none) ∧
      (Uploading u.1 → u.2.complete = false → r = (u.1, none)) := by
  obtain ⟨hannounce, hstart⟩ := uploadInv_start free hlow hhigh hread ctx ctx'
  have hinv := uploadInv_run events _ hstart
  have hlen : (buf.front len).length = len.1 := buf.length_front len.2
  have hacked := hinv.acked
  have hanswer := hinv.answer
  rw [hlen] at hacked
  simp only [hlen] at hanswer
  exact ⟨hannounce, hacked, hanswer⟩

def sampleImage : SdoState Derive.GeneratedOd 4 :=
  ⟨.new, (ObjectDictionary.write Derive.sampleOd 0x2020 0 (List.replicate 10 7)).2, .empty, []⟩

/-- Both segments of the image, of which the client first acknowledges only one. -/
theorem blockUpload_delivers_image :
    let ctx := SdoContext.standalone .preOperational 0
    (uploadRun (startBlockUpload sampleImage 0x2020 0 2 ctx ctx, ⟨2, [], []⟩)
        [.poll 1, .poll 2, .ack 1 127 ctx, .poll 3, .ack 1 127 ctx]).2.acked.take 10 =
      List.replicate 10 7 := by
  have free : sampleImage.server.inBlockDownloadData = false := rfl
  have hlow : (1 : UInt8) ≤ 2 := by decide
  have hhigh : (2 : UInt8) ≤ 127 := by decide
  have hread : ObjectDictionary.read sampleImage.od 0x2020 0 (FixedBuffer.filled 889 0) =
      (.ok ⟨10, by decide⟩, (FixedBuffer.filled 889 0).write 0 (List.replicate 10 7)) := rfl
  intro ctx
  exact (blockUpload_delivers free hlow hhigh hread ctx ctx
    [.poll 1, .poll 2, .ack 1 127 ctx, .poll 3, .ack 1 127 ctx]).2.1.trans (by decide)

/-- After the first of two segments an acknowledgement that asks for sub-blocks of
size 0 neither aborts nor ends the transfer. -/
theorem blockUpload_midBlock_ack_kept :
    let ctx := SdoContext.standalone .preOperational 0
    let u := uploadRun (startBlockUpload sampleImage 0x2020 0 2 ctx ctx, ⟨2, [], []⟩) [.poll 1]
    let r := u.1.processWithContext (ackFrame 1 0) ctx
    u.2.inRange 1 0 = false ∧ u.1.server.transfer.isSome ∧
      ¬(r.2.any SdoFrame.isAbort = true ∧ r.1.server.transfer = none) := by
  decide

end Canopen.Sdo
