import Canopen.Sdo.Transfers

/-!
# Download integrity

What a server writes to the dictionary, told from the inputs it was given. The
history of a download is read off the inputs alone: the initiate request, the
segments since then, and the frame that completes it. `History` is the invariant
that ties the transfer slot to these inputs over any run.
-/

namespace Canopen.Sdo

open LittleEndian

variable {OD : Type} [ObjectDictionary OD] {cap : ℕ}

def SdoState.run (s : SdoState OD cap) (inputs : List SdoInput) : SdoState OD cap :=
  inputs.foldl (fun s input => (s.step input).1) s

def requests : List SdoInput → List SdoFrame
  | [] => []
  | .request frame _ :: inputs => frame :: requests inputs
  | _ :: inputs => requests inputs

/-- A confirmation of a block upload. Outside a block upload it is ignored. -/
def isStrayConfirm (frame : SdoFrame) : Bool :=
  commandSpecifier frame.b0 == Ccs.blockUpload.toByte && frame.b0 &&& 0x03 == 1

/-- The inputs since the request `start`, during which the transfer was not aborted
locally, contain the requests `since`. -/
def RequestsSince (past : List SdoInput) (start : SdoFrame) (since : List SdoFrame) : Prop :=
  ∃ before ctx inputs, past = before ++ .request start ctx :: inputs ∧
    SdoInput.abortTransfer ∉ inputs ∧ requests inputs = since

/-- The segments `segs` were received since the initiate request `start` of a segmented
download; nothing else but stray confirmations was. Their toggle bits alternate
from 0. -/
structure SegmentsSince (past : List SdoInput) (start : SdoFrame) (segs : List SdoFrame) : Prop where
  since : ∃ frames, RequestsSince past start frames ∧
    segs = frames.filter (fun f => !isStrayConfirm f)
  service : commandSpecifier start.b0 = Ccs.initiateDownload.toByte
  segmented : start.b0 &&& 0x02 = 0
  segments : ∀ f ∈ segs, commandSpecifier f.b0 = Ccs.downloadSegment.toByte
  toggles : segs.map (toggleBit ·.b0) = (List.range segs.length).map (· % 2 == 1)

/-- The segments `segs` were received since the initiate request `start` of a block
download, followed by nothing but stray confirmations. Their sequence numbers
count 1..=127 in each sub-block. -/
structure BlockSegmentsSince (past : List SdoInput) (start : SdoFrame) (segs strays : List SdoFrame) :
    Prop where
  since : RequestsSince past start (segs ++ strays)
  service : commandSpecifier start.b0 = Ccs.blockDownload.toByte
  initiate : start.b0 &&& 0x01 = 0
  strays : ∀ f ∈ strays, isStrayConfirm f = true
  seqnos : segs.map segmentSeqno = (List.range segs.length).map (fun k => UInt8.ofNat (k % 127 + 1))

/-- Where the bytes of a write come from, given the inputs so far and the current
request. -/
inductive DownloadOrigin (past : List SdoInput) (od : OD) (request : SdoFrame) :
    UInt16 → UInt8 → List UInt8 → Prop
  /-- The data bytes of the current, expedited request. -/
  | expedited
      (service : commandSpecifier request.b0 = Ccs.initiateDownload.toByte)
      (expedited : request.b0 &&& 0x02 ≠ 0) :
      DownloadOrigin past od request (parseIndexSub request).1 (parseIndexSub request).2
        (request.value.take (SdoState.expeditedLen od request))
  /-- The segments since the initiate request, of the declared size. -/
  | segmented {start : SdoFrame} {segs : List SdoFrame}
      (since : SegmentsSince past start segs)
      (service : commandSpecifier request.b0 = Ccs.downloadSegment.toByte)
      (last : lastBit request.b0 = true)
      (toggles : (segs ++ [request]).map (toggleBit ·.b0) =
        (List.range (segs ++ [request]).length).map (· % 2 == 1))
      (size : start.b0 &&& 0x01 ≠ 0 →
        ((segs ++ [request]).flatMap segmentData).length = start.size.toNat) :
      DownloadOrigin past od request (parseIndexSub start).1 (parseIndexSub start).2
        ((segs ++ [request]).flatMap segmentData)
  /-- The block segments since the initiate request, shortened by the end frame, of the
  declared size and with a matching CRC. -/
  | block {start final : SdoFrame} {segs strays : List SdoFrame} {n : ℕ}
      (since : BlockSegmentsSince past start (segs ++ [final]) strays)
      (last : isLastSegment final = true) (inner : ∀ f ∈ segs, isLastSegment f = false)
      (service : commandSpecifier request.b0 = Ccs.blockDownload.toByte)
      (ending : request.b0 &&& 0x01 ≠ 0)
      (unused : n = ((request.b0 >>> 2) &&& 0x07).toNat) (unused_le : n ≤ 6)
      (size : start.b0 &&& 0x02 ≠ 0 → 7 * (segs.length + 1) - n = start.size.toNat)
      (crc : start.b0 &&& 0x04 ≠ 0 →
        crc16CcittUpdate 0 (((segs ++ [final]).flatMap SdoFrame.payload).take
          (7 * (segs.length + 1) - n)) = ofLe16 request.b1 request.b2) :
      DownloadOrigin past od request (parseIndexSub start).1 (parseIndexSub start).2
        (((segs ++ [final]).flatMap SdoFrame.payload).take (7 * (segs.length + 1) - n))

/-! ## The invariant -/

/-- What the inputs so far say about the transfer in the slot. -/
def History (past : List SdoInput) : Option TransferState → Prop
  | some (.segmented t) => t.direction = .download →
    ∃ start segs, SegmentsSince past start segs ∧ parseIndexSub start = (t.index, t.subindex) ∧
      t.sizeIndicated = (start.b0 &&& 0x01 != 0) ∧
      (t.sizeIndicated = true → t.totalLen = start.size.toNat) ∧
      t.toggle = (segs.length % 2 == 1) ∧ t.buf.front t.offset = segs.flatMap segmentData
  | some (.blockDownload b) =>
    ∃ start segs strays, BlockSegmentsSince past start segs strays ∧
      parseIndexSub start = (b.index, b.subindex) ∧
      b.sizeIndicated = (start.b0 &&& 0x02 != 0) ∧
      (b.sizeIndicated = true → b.totalLen = start.size.toNat) ∧
      b.crcEnabled = (start.b0 &&& 0x04 != 0) ∧ b.blksize = 127 ∧ b.offset = 7 * segs.length ∧
      b.buf.front b.offset = segs.flatMap SdoFrame.payload ∧
      if b.awaitingEnd then
        ∃ init final, segs = init ++ [final] ∧ isLastSegment final = true ∧
          ∀ f ∈ init, isLastSegment f = false
      else strays = [] ∧ b.seqno = UInt8.ofNat (segs.length % 127) ∧
        ∀ f ∈ segs, isLastSegment f = false
  | _ => True

theorem requests_append (xs ys : List SdoInput) :
    requests (xs ++ ys) = requests xs ++ requests ys := by
  induction xs with
  | nil => rfl
  | cons x xs ih => cases x <;> simp [requests, ih]

theorem RequestsSince.append {past : List SdoInput} {start : SdoFrame} {since : List SdoFrame}
    (h : RequestsSince past start since) (input : SdoInput) (hi : input ≠ .abortTransfer) :
    RequestsSince (past ++ [input]) start (since ++ requests [input]) := by
  obtain ⟨before, ctx, inputs, rfl, habort, rfl⟩ := h
  refine ⟨before, ctx, inputs ++ [input], by simp, ?_, requests_append inputs [input]⟩
  simp only [List.mem_append, List.mem_singleton, not_or]
  exact ⟨habort, fun he => hi he.symm⟩

theorem requestsSince_start (past : List SdoInput) (start : SdoFrame) (ctx : SdoContext) :
    RequestsSince (past ++ [.request start ctx]) start [] :=
  ⟨past, ctx, [], rfl, by simp, rfl⟩

theorem History.silent {past : List SdoInput} {transfer : Option TransferState}
    (h : History past transfer) (input : SdoInput) (hreq : requests [input] = [])
    (hi : input ≠ .abortTransfer) : History (past ++ [input]) transfer := by
  rcases transfer with _ | (t | b | b)
  · trivial
  · intro hdir
    obtain ⟨start, segs, hs, hrest⟩ := h hdir
    obtain ⟨frames, hframes, heq⟩ := hs.since
    have hnew := hframes.append input hi
    rw [hreq, List.append_nil] at hnew
    exact ⟨start, segs, ⟨⟨frames, hnew, heq⟩, hs.service, hs.segmented, hs.segments, hs.toggles⟩,
      hrest⟩
  · trivial
  · obtain ⟨start, segs, strays, hs, hrest⟩ := h
    have hnew := hs.since.append input hi
    rw [hreq, List.append_nil] at hnew
    exact ⟨start, segs, strays, ⟨hnew, hs.service, hs.initiate, hs.strays, hs.seqnos⟩, hrest⟩

/-- A stray confirmation leaves the history as it is, once no block segments are
expected any more. -/
theorem History.stray {past : List SdoInput} {transfer : TransferState}
    (h : History past (some transfer)) {request : SdoFrame} (ctx : SdoContext)
    (hstray : isStrayConfirm request = true)
    (free : ∀ b, transfer = .blockDownload b → b.awaitingEnd = true) :
    History (past ++ [.request request ctx]) (some transfer) := by
  rcases transfer with t | b | b
  · intro hdir
    obtain ⟨start, segs, hs, hrest⟩ := h hdir
    obtain ⟨frames, hframes, heq⟩ := hs.since
    refine ⟨start, segs, ⟨⟨_, hframes.append _ (by simp), ?_⟩, hs.service, hs.segmented, hs.segments,
      hs.toggles⟩, hrest⟩
    simpa [requests, hstray] using heq
  · trivial
  · obtain ⟨start, segs, strays, hs, haddr, hsi, hsize, hcrc, hblk, hoff, hbuf, hphase⟩ := h
    have hwait := free b rfl
    have hnew := hs.since.append (.request request ctx) (by simp)
    refine ⟨start, segs, strays ++ [request], ⟨?_, hs.service, hs.initiate, ?_, hs.seqnos⟩, haddr, hsi,
      hsize, hcrc, hblk, hoff, hbuf, ?_⟩
    · simpa [requests] using hnew
    · intro f hf
      rcases List.mem_append.mp hf with hf | hf
      · exact hs.strays f hf
      · rw [List.mem_singleton.mp hf]
        exact hstray
    · rw [hwait, if_pos rfl] at hphase ⊢
      exact hphase

theorem history_initiated (past : List SdoInput) {request : SdoFrame} (ctx : SdoContext)
    (service : commandSpecifier request.b0 = Ccs.initiateDownload.toByte)
    (segmented : request.b0 &&& 0x02 = 0)
    (h : declaredLen request ((request.b0 &&& 0x01) != 0) ≤ 889) :
    History (past ++ [.request request ctx]) (some (.segmented (.newDownload
      (parseIndexSub request).1 (parseIndexSub request).2
      (declaredLen request ((request.b0 &&& 0x01) != 0)) ((request.b0 &&& 0x01) != 0) ctx.nowUs
      h))) := by
  intro _
  refine ⟨request, [], ⟨⟨[], requestsSince_start past request ctx, rfl⟩, service, segmented, by simp,
    rfl⟩, rfl, rfl, fun hsi => ?_, rfl, rfl⟩
  exact if_pos hsi

theorem history_blockInitiated (past : List SdoInput) {request : SdoFrame} (ctx : SdoContext)
    (service : commandSpecifier request.b0 = Ccs.blockDownload.toByte)
    (initiate : request.b0 &&& 0x01 = 0) :
    History (past ++ [.request request ctx])
      (some (.blockDownload (.initiated request ctx.nowUs))) := by
  refine ⟨request, [], [], ⟨requestsSince_start past request ctx, service, initiate, by simp, rfl⟩, rfl,
    rfl, fun hsi => if_pos hsi, rfl, rfl, rfl, rfl, ?_⟩
  exact ⟨rfl, rfl, by simp⟩

theorem toggles_append {segs : List SdoFrame} {request : SdoFrame}
    (h : segs.map (toggleBit ·.b0) = (List.range segs.length).map (· % 2 == 1))
    (ht : toggleBit request.b0 = (segs.length % 2 == 1)) :
    (segs ++ [request]).map (toggleBit ·.b0) =
      (List.range (segs ++ [request]).length).map (· % 2 == 1) := by
  simp [List.range_succ, h, ht]

theorem not_isStrayConfirm {request : SdoFrame}
    (h : commandSpecifier request.b0 = Ccs.downloadSegment.toByte) :
    isStrayConfirm request = false := by
  simp [isStrayConfirm, h, Ccs.toByte]

/-- An accepted segment extends the history of its download. -/
theorem History.segment {past : List SdoInput} {t : SegmentedTransfer} {request : SdoFrame}
    {ctx : SdoContext} (h : History past (some (.segmented t))) (hdir : t.direction = .download)
    (service : commandSpecifier request.b0 = Ccs.downloadSegment.toByte)
    (htog : toggleBit request.b0 = t.toggle) (hfit : t.offset + (segmentData request).length ≤ 889) :
    History (past ++ [.request request ctx])
      (some (.segmented (t.received (segmentData request) ctx.nowUs hdir hfit))) := by
  intro _
  obtain ⟨start, segs, hs, haddr, hsi, hsize, ht, hbuf⟩ := h hdir
  obtain ⟨frames, hframes, heq⟩ := hs.since
  refine ⟨start, segs ++ [request], ⟨⟨_, hframes.append _ (by simp), ?_⟩, hs.service, hs.segmented, ?_,
    toggles_append hs.toggles (htog.trans ht)⟩, haddr, hsi, hsize, ?_, ?_⟩
  · simp [requests, heq, not_isStrayConfirm service]
  · intro f hf
    rcases List.mem_append.mp hf with hf | hf
    · exact hs.segments f hf
    · rw [List.mem_singleton.mp hf]
      exact service
  · have hflip : (!(segs.length % 2 == 1)) = ((segs ++ [request]).length % 2 == 1) := by
      rcases Nat.mod_two_eq_zero_or_one segs.length with h2 | h2
      · simp [Nat.add_mod, h2]
      · simp [Nat.add_mod, h2]
    rw [← hflip, ← ht]
    rfl
  · rw [List.flatMap_append, ← hbuf, List.flatMap_singleton]
    exact t.buf.front_write t.offset (segmentData request) hfit

section

variable (b : BlockDownloadState) (request : SdoFrame) (nowUs : UInt64) (h : 7 ≤ 889 - b.offset)

theorem advance_fields :
    (b.advance request nowUs h).index = b.index ∧ (b.advance request nowUs h).subindex = b.subindex ∧
      (b.advance request nowUs h).totalLen = b.totalLen ∧
      (b.advance request nowUs h).sizeIndicated = b.sizeIndicated ∧
      (b.advance request nowUs h).crcEnabled = b.crcEnabled ∧
      (b.advance request nowUs h).blksize = b.blksize ∧
      (b.advance request nowUs h).offset = b.offset + 7 ∧
      (b.advance request nowUs h).buf = b.buf.write b.offset request.payload := by
  unfold BlockDownloadState.advance
  dsimp only
  split_ifs <;> exact ⟨rfl, rfl, rfl, rfl, rfl, rfl, rfl, rfl⟩

theorem advance_awaitingEnd :
    (b.advance request nowUs h).awaitingEnd = (isLastSegment request || b.awaitingEnd) := by
  unfold BlockDownloadState.advance
  dsimp only
  split_ifs with hlast
  · simp [hlast]
  · simp [hlast, BlockDownloadState.received]
  · simp [hlast, BlockDownloadState.received]

theorem advance_seqno (hlast : isLastSegment request = false) :
    (b.advance request nowUs h).seqno =
      if b.blksize ≤ segmentSeqno request then 0 else segmentSeqno request := by
  unfold BlockDownloadState.advance
  simp only [hlast, Bool.false_eq_true, if_false]
  split_ifs <;> rfl

end

/-- Sequence numbers count 1..=127 and start over. -/
theorem seqno_next (k : ℕ) :
    (UInt8.ofNat (k % 127) + 1 = UInt8.ofNat (k % 127 + 1)) ∧
    (if (127 : UInt8) ≤ UInt8.ofNat (k % 127 + 1) then 0 else UInt8.ofNat (k % 127 + 1)) =
      UInt8.ofNat ((k + 1) % 127) := by
  have hk : k % 127 < 127 := Nat.mod_lt _ (by decide)
  have hnat : (UInt8.ofNat (k % 127 + 1)).toNat = k % 127 + 1 := by
    rw [UInt8.toNat_ofNat']
    omega
  refine ⟨by rw [UInt8.ofNat_add]; rfl, ?_⟩
  by_cases hfull : k % 127 = 126
  · have hwrap : (k + 1) % 127 = 0 := by omega
    rw [if_pos (by rw [UInt8.le_iff_toNat_le, hnat]; change 127 ≤ _; omega), hwrap]
    rfl
  · have hstep : (k + 1) % 127 = k % 127 + 1 := by omega
    rw [if_neg (by rw [UInt8.le_iff_toNat_le, hnat]; change ¬127 ≤ _; omega), hstep]

theorem History.blockSegment {past : List SdoInput} {b : BlockDownloadState} {request : SdoFrame}
    {ctx : SdoContext} (h : History past (some (.blockDownload b)))
    (receiving : b.awaitingEnd = false) (next : segmentSeqno request = b.seqno + 1)
    (hspace : 7 ≤ 889 - b.offset) :
    History (past ++ [.request request ctx])
      (some (.blockDownload (b.advance request ctx.nowUs hspace))) := by
  obtain ⟨start, segs, strays, hs, haddr, hsi, hsize, hcrc, hblk, hoff, hbuf, hphase⟩ := h
  rw [receiving, if_neg (by simp)] at hphase
  obtain ⟨rfl, hseq, hinner⟩ := hphase
  obtain ⟨h1, h2, h3, h4, h5, h6, h7, h8⟩ := advance_fields b request ctx.nowUs hspace
  have hnum : segmentSeqno request = UInt8.ofNat (segs.length % 127 + 1) := by
    rw [next, hseq, (seqno_next segs.length).1]
  have hnew := hs.since.append (.request request ctx) (by simp)
  have hseqnos : (segs ++ [request]).map segmentSeqno =
      (List.range (segs ++ [request]).length).map (fun k => UInt8.ofNat (k % 127 + 1)) := by
    simp [List.range_succ, hs.seqnos, hnum]
  refine ⟨start, segs ++ [request], [], ⟨by simpa [requests] using hnew, hs.service, hs.initiate,
    by simp, hseqnos⟩, by rw [h1, h2, haddr], by rw [h4, hsi], by rw [h3, h4]; exact hsize,
    by rw [h5, hcrc], by rw [h6, hblk], by rw [h7, hoff]; simp; omega, ?_, ?_⟩
  · have hw := b.buf.front_write b.offset request.payload (by simp; omega)
    rw [SdoFrame.length_payload, hbuf] at hw
    rw [h7, h8, hw, List.flatMap_append, List.flatMap_singleton]
  · rw [advance_awaitingEnd, receiving, Bool.or_false]
    by_cases hlast : isLastSegment request = true
    · rw [if_pos hlast]
      exact ⟨segs, request, rfl, hlast, hinner⟩
    · rw [if_neg hlast]
      have hlast' : isLastSegment request = false := by simpa using hlast
      refine ⟨rfl, ?_, ?_⟩
      · rw [advance_seqno b request ctx.nowUs hspace hlast', hblk, hnum, List.length_append]
        exact (seqno_next segs.length).2
      · intro f hf
        rcases List.mem_append.mp hf with hf | hf
        · exact hinner f hf
        · rw [List.mem_singleton.mp hf]
          exact hlast'

/-! ## Runs -/

theorem history_request {past : List SdoInput} {s : SdoState OD cap}
    (h : History past s.server.transfer) (request : SdoFrame) (ctx : SdoContext) :
    History (past ++ [.request request ctx])
      (s.processWithContext request ctx).1.server.transfer := by
  have hstep := processWithContext_transfer s request ctx
  generalize (s.processWithContext request ctx).1.server.transfer = transfer at hstep
  cases hstep with
  | ended => trivial
  | @upload t ht =>
    rcases t with t | b | b
    · intro hdir
      simp [TransferState.isDownload, hdir] at ht
    · trivial
    · simp [TransferState.isDownload] at ht
  | kept transfer free service confirm =>
    rw [transfer] at h
    refine h.stray ctx (by simp [isStrayConfirm, service, confirm]) ?_
    rintro b rfl
    simpa [SdoServer.inBlockDownloadData, transfer] using free
  | initiated service segmented unlocked hlen =>
    exact history_initiated past ctx service segmented hlen
  | segment transfer direction service toggle hfit =>
    rw [transfer] at h
    exact h.segment direction service toggle hfit
  | blockInitiated service start unlocked => exact history_blockInitiated past ctx service start
  | blockSegment transfer receiving seqno next hspace =>
    rw [transfer] at h
    exact h.blockSegment receiving next hspace

theorem history_step {past : List SdoInput} {s : SdoState OD cap}
    (h : History past s.server.transfer) (input : SdoInput) :
    History (past ++ [input]) (s.step input).1.server.transfer := by
  cases input with
  | request request ctx => exact history_request h request ctx
  | pollBlockUpload nowUs =>
    have hsame := h.silent (.pollBlockUpload nowUs) rfl (by simp)
    simp only [SdoState.step, SdoState.serve, SdoServer.pollBlockUpload]
    split
    · split_ifs
      · exact hsame
      · trivial
    · exact hsame
  | checkTimeout nowUs =>
    have hsame := h.silent (.checkTimeout nowUs) rfl (by simp)
    simp only [SdoState.step, SdoState.serve, SdoServer.checkTimeout]
    split
    · split_ifs
      · trivial
      · exact hsame
    · exact hsame
  | abortTransfer => trivial
  | takeCommittedWrite => exact h.silent .takeCommittedWrite rfl (by simp)

theorem run_append (s : SdoState OD cap) (past : List SdoInput) (input : SdoInput) :
    s.run (past ++ [input]) = ((s.run past).step input).1 := by
  simp [SdoState.run]

/-- A new server with a dictionary and an event queue. -/
def SdoState.start (od : OD) (events : Deque OdEvent cap) : SdoState OD cap := ⟨.new, od, events, []⟩

theorem history_run (od : OD) (events : Deque OdEvent cap) (past : List SdoInput) :
    History past ((SdoState.start od events).run past).server.transfer := by
  induction past using List.reverseRecOn with
  | nil => trivial
  | append_singleton past input ih =>
    rw [run_append]
    exact history_step ih input

/-- The bytes of a completed download come from the inputs the history tells of. -/
theorem CommitRequest.origin {past : List SdoInput} {s : SdoState OD cap} {request : SdoFrame}
    {ctx : SdoContext} {index : UInt16} {subindex : UInt8} {data : List UInt8} {success : SdoFrame}
    (h : CommitRequest s request ctx index subindex data success)
    (hist : History past s.server.transfer) :
    DownloadOrigin past s.od request index subindex data ∧ data.length ≤ 889 := by
  cases h with
  | expedited free service expedited unlocked =>
    refine ⟨.expedited service expedited, ?_⟩
    rw [List.length_take, SdoFrame.length_value]
    omega
  | @segmented t transfer direction service toggle last size fits =>
    rw [transfer] at hist
    obtain ⟨start, segs, hs, haddr, hsi, hsize, ht, hbuf⟩ := hist direction
    have hdata : t.buf.front t.offset ++ request.payload.take (7 - unusedBytes request.b0) =
        (segs ++ [request]).flatMap segmentData := by
      rw [List.flatMap_append, ← hbuf, List.flatMap_singleton]
      rfl
    have hlen : ((segs ++ [request]).flatMap segmentData).length =
        t.offset + (7 - unusedBytes request.b0) := by
      rw [← hdata, List.length_append, length_take_payload, t.buf.length_front t.offset_le]
    rw [hdata]
    have horigin : DownloadOrigin past s.od request _ _ _ := .segmented hs service last
      (toggles_append hs.toggles (toggle.trans ht)) (fun hind => by
        have hind' : t.sizeIndicated = true := by simpa [hsi] using hind
        rw [hlen, size hind', hsize hind'])
    rw [haddr] at horigin
    exact ⟨horigin, by omega⟩
  | @block b transfer awaiting service ending unused unused_le size crc =>
    rw [transfer] at hist
    obtain ⟨start, segs, strays, hs, haddr, hsi, hsize, hcrc, hblk, hoff, hbuf, hphase⟩ := hist
    rw [awaiting, if_pos rfl] at hphase
    obtain ⟨init, final, rfl, hlast, hinner⟩ := hphase
    have hcount : b.offset = 7 * (init.length + 1) := by simpa using hoff
    have hdata : b.buf.front (b.offset - ((request.b0 >>> 2) &&& 0x07).toNat) =
        ((init ++ [final]).flatMap SdoFrame.payload).take
          (7 * (init.length + 1) - ((request.b0 >>> 2) &&& 0x07).toNat) := by
      rw [← hbuf, ← hcount, FixedBuffer.front, FixedBuffer.front, List.take_take]
      congr 1
      omega
    rw [hdata] at crc ⊢
    have horigin : DownloadOrigin past s.od request _ _ _ := .block hs hlast hinner service ending
      rfl unused
      (fun hind => by
        have hind' : b.sizeIndicated = true := by simpa [hsi] using hind
        rw [← hcount, size hind', hsize hind'])
      (fun hind => crc (by simpa [hcrc] using hind))
    rw [haddr] at horigin
    refine ⟨horigin, ?_⟩
    have hcap := b.offset_le
    rw [List.length_take]
    omega

/-- Download integrity: over every sequence of inputs to one server, each input causes
at most one `write`, and its bytes are the data of an expedited request, the
segments of a segmented download or the segments of a block download, complete and
in order. -/
theorem download_integrity (od : OD) (events : Deque OdEvent cap) (past : List SdoInput)
    (input : SdoInput) :
    ∃ new : List OdWrite,
      (((SdoState.start od events).run past).step input).1.writes =
        ((SdoState.start od events).run past).writes ++ new ∧
      new.length ≤ 1 ∧
      ∀ w ∈ new, ∃ request ctx, input = .request request ctx ∧
        DownloadOrigin past ((SdoState.start od events).run past).od request w.index w.subindex
          w.data ∧
        w.data.length ≤ 889 := by
  have hist := history_run od events past
  generalize (SdoState.start od events).run past = s at hist
  by_cases hreq : ∃ request ctx, input = .request request ctx
  · obtain ⟨request, ctx, rfl⟩ := hreq
    rw [SdoState.step]
    rcases processWithContext_cases s request ctx with
      ⟨hsame, -⟩ | ⟨index, subindex, data, success, hcommit, heq⟩
    · exact ⟨[], by simpa using hsame.writes, by simp, by simp⟩
    · have horigin := hcommit.origin hist
      rw [heq]
      rcases commitDownload_cases s ctx index subindex data success with
        ⟨code, -, h⟩ | ⟨e, code, -, -, h⟩ | ⟨-, -, h⟩ <;> rw [h]
      · exact ⟨[], by simp [SdoState.setTransfer], by simp, by simp⟩
      · refine ⟨[⟨index, subindex, data, false⟩], rfl, by simp, fun w hw => ?_⟩
        rw [List.mem_singleton.mp hw]
        exact ⟨request, ctx, rfl, horigin⟩
      · refine ⟨[⟨index, subindex, data, true⟩], rfl, by simp, fun w hw => ?_⟩
        rw [List.mem_singleton.mp hw]
        exact ⟨request, ctx, rfl, horigin⟩
  · refine ⟨[], ?_, by simp, by simp⟩
    rw [List.append_nil]
    by_cases htake : input = .takeCommittedWrite
    · rw [htake]
      rfl
    · exact (sameData_step (fun request ctx he => hreq ⟨request, ctx, he⟩) htake).writes

end Canopen.Sdo
