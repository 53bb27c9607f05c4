import Canopen.Lib.FixedBuffer
import Canopen.Transport

/-!
# SLCAN receiver

The line parser of `slcan/logic.rs` and the receiving side of `slcan/serial.rs`. The serial
port delivers bytes in chunks of its own choice, into a buffer of 256 bytes from which whole
lines are taken. A line that fills the buffer is discarded through its terminator.
-/

namespace Canopen.Slcan

/-! ## Lines -/

def cr : UInt8 := 13

def parseHexDigit (ch : UInt8) : Option UInt8 :=
  if 0x30 ≤ ch ∧ ch ≤ 0x39 then some (ch - 0x30)
  else if 0x61 ≤ ch ∧ ch ≤ 0x66 then some (ch - 0x61 + 10)
  else if 0x41 ≤ ch ∧ ch ≤ 0x46 then some (ch - 0x41 + 10)
  else none

/-- The data bytes, two hex digits each, from the sixth character on. -/
def parseData (line : List UInt8) : ℕ → Option (List UInt8)
  | 0 => some []
  | n + 1 => do
    let data ← parseData line n
    let high ← parseHexDigit (line.getD (5 + n * 2) 0)
    let low ← parseHexDigit (line.getD (6 + n * 2) 0)
    return data ++ [high <<< 4 ||| low]

/-- Parse a standard `tIIILDD..` line. The terminator is optional, and so is a timestamp of
four hex digits. -/
def parseSlcanFrame (line : List UInt8) : Option CanFrame := do
  let line := if line.getLast? = some cr then line.dropLast else line
  if line.head? ≠ some 0x74 then none
  else if line.length < 5 then none
  else
    let high ← parseHexDigit (line.getD 1 0)
    let mid ← parseHexDigit (line.getD 2 0)
    let low ← parseHexDigit (line.getD 3 0)
    let id := high.toUInt16 <<< 8 ||| mid.toUInt16 <<< 4 ||| low.toUInt16
    let digit := line.getD 4 0
    let dlc := (digit - 0x30).toNat
    let suffix := line.drop (5 + dlc * 2)
    if digit < 0x30 then none
    else if 8 < dlc then none
    else if line.length < 5 + dlc * 2 then none
    else if suffix ≠ [] ∧ (suffix.length ≠ 4 ∨ ¬suffix.all fun b => (parseHexDigit b).isSome) then none
    else
      let data ← parseData line dlc
      CanFrame.new id data

/-- A line that parses is short. -/
theorem length_of_parse {line : List UInt8} {frame : CanFrame}
    (h : parseSlcanFrame line = some frame) : line.length ≤ 26 := by
  unfold parseSlcanFrame at h
  generalize hl : (if line.getLast? = some cr then line.dropLast else line) = stripped at h
  have hstripped : line.length ≤ stripped.length + 1 := by
    rw [← hl]
    split_ifs
    · rw [List.length_dropLast]
      omega
    · omega
  have hshort : stripped.length ≤ 25 := by
    dsimp only at h
    split at h
    · cases h
    split at h
    · cases h
    obtain ⟨high, -, h⟩ := Option.bind_eq_some_iff.mp h
    obtain ⟨mid, -, h⟩ := Option.bind_eq_some_iff.mp h
    obtain ⟨low, -, h⟩ := Option.bind_eq_some_iff.mp h
    generalize (stripped.getD 4 0 - 0x30).toNat = dlc at h
    split at h
    · cases h
    split at h
    · cases h
    rename_i hdlc
    split at h
    · cases h
    rename_i hlen
    split at h
    · cases h
    rename_i hsuffix
    -- nothing follows the data, or a timestamp
    have hrest : (stripped.drop (5 + dlc * 2)).length ≤ 4 := by
      by_cases hnil : stripped.drop (5 + dlc * 2) = []
      · rw [hnil]
        exact Nat.zero_le 4
      · have htimestamp := not_and.mp hsuffix hnil
        rw [not_or, not_not] at htimestamp
        exact htimestamp.1.le
    rw [List.length_drop] at hrest
    omega
  omega

/-- What a stream says: the frames of its terminated lines. -/
def slcanFrames (stream : List UInt8) : List CanFrame :=
  (stream.splitOn cr).dropLast.filterMap parseSlcanFrame

theorem slcanFrames_of_not_mem {s : List UInt8} (h : cr ∉ s) : slcanFrames s = [] := by
  rw [slcanFrames, List.splitOn_eq_singleton h]
  rfl

theorem slcanFrames_line {line : List UInt8} (h : cr ∉ line) (rest : List UInt8) :
    slcanFrames (line ++ cr :: rest) = (parseSlcanFrame line).toList ++ slcanFrames rest := by
  rw [slcanFrames, List.splitOn_append_cons_self_of_not_mem h,
    List.dropLast_cons_of_ne_nil (List.splitOn_ne_nil _ _), List.filterMap_cons, slcanFrames]
  cases parseSlcanFrame line <;> rfl

/-! ## The receiver -/

/-- A port that delivers a stream. The schedule holds what becomes of the next reads: an error,
or a number of bytes that are available; when it runs out there is no data. -/
structure SerialPort where
  stream : List UInt8
  schedule : List (Option ℕ)
  deriving DecidableEq, Repr

/-- Read at most `space` bytes. A failed read delivers none. -/
def SerialPort.read (p : SerialPort) (space : ℕ) : Option (List UInt8) × SerialPort :=
  match p.schedule with
  | [] => (some [], p)
  | none :: rest => (none, { p with schedule := rest })
  | some n :: rest => (some (p.stream.take (min n space)), ⟨p.stream.drop (min n space), rest⟩)

structure SlcanTransport where
  port : SerialPort
  rxBuf : FixedBuffer UInt8 256
  rxPos : ℕ
  discardingLine : Bool
  deriving DecidableEq, Repr

namespace SlcanTransport

def new (port : SerialPort) : SlcanTransport := ⟨port, .filled 256 0, 0, false⟩

/-- The bytes received and not yet taken. -/
def buffered (t : SlcanTransport) : List UInt8 := t.rxBuf.front t.rxPos

def crPos (t : SlcanTransport) : Option ℕ := t.buffered.findIdx? (· == cr)

/-- Move the bytes behind a terminator to the front of the buffer. -/
def dropLine (t : SlcanTransport) (pos : ℕ) : SlcanTransport :=
  let remaining := t.rxPos - pos - 1
  { t with
    rxBuf := t.rxBuf.write 0 (t.rxBuf.slice (pos + 1) remaining)
    rxPos := remaining
    discardingLine := false }

theorem crPos_lt {t : SlcanTransport} {pos : ℕ} (h : t.crPos = some pos) : pos < t.rxPos := by
  obtain ⟨hlt, -⟩ := List.findIdx?_eq_some_iff_getElem.mp h
  exact hlt.trans_le (List.length_take_le _ _)

/-- The frame in a line; what terminates an over-long line has none. -/
def lineFrame (t : SlcanTransport) (pos : ℕ) : Option CanFrame :=
  if t.discardingLine then none else parseSlcanFrame (t.rxBuf.front pos)

/-- Take lines out of the buffer up to the first frame. -/
def takeBufferedFrame (t : SlcanTransport) : Option CanFrame × SlcanTransport :=
  match _hpos : t.crPos with
  | some pos =>
    match t.lineFrame pos with
    | some frame => (some frame, t.dropLine pos)
    | none => takeBufferedFrame (t.dropLine pos)
  | none =>
    if t.rxPos = 256 then (none, { t with rxPos := 0, discardingLine := true }) else (none, t)
termination_by t.rxPos
decreasing_by
  have := crPos_lt _hpos
  simp only [dropLine]
  omega

inductive ReceiveResult
  | frame (f : CanFrame)
  | wouldBlock
  | busError
  deriving DecidableEq, Repr

def ofFrame : Option CanFrame → ReceiveResult
  | some frame => .frame frame
  | none => .wouldBlock

/-- Read behind the buffered bytes. -/
def readMore (t : SlcanTransport) : Option SlcanTransport × SlcanTransport :=
  let (chunk, port) := t.port.read (256 - t.rxPos)
  let t := { t with port := port }
  (chunk.map fun chunk =>
    { t with rxBuf := t.rxBuf.write t.rxPos chunk, rxPos := t.rxPos + chunk.length }, t)

/-- One call of `receive`: a buffered frame, or one read and what it completes. -/
def receive (t : SlcanTransport) : ReceiveResult × SlcanTransport :=
  match t.takeBufferedFrame with
  | (some frame, t) => (.frame frame, t)
  | (none, t) =>
    if 0 < 256 - t.rxPos then
      match t.readMore with
      | (some t, _) => (ofFrame t.takeBufferedFrame.1, t.takeBufferedFrame.2)
      | (none, t) => (.busError, t)
    else (ofFrame t.takeBufferedFrame.1, t.takeBufferedFrame.2)

def receives : ℕ → SlcanTransport → List ReceiveResult × SlcanTransport
  | 0, t => ([], t)
  | k + 1, t =>
    let (results, t) := receives k t
    (results ++ [t.receive.1], t.receive.2)

/-! ## One line at a time -/

/-- A terminator in the buffer splits it into a line and what stays behind. -/
theorem buffered_of_crPos {t : SlcanTransport} {pos : ℕ} (hle : t.rxPos ≤ 256)
    (h : t.crPos = some pos) :
    t.buffered = t.rxBuf.front pos ++ cr :: (t.dropLine pos).buffered ∧ cr ∉ t.rxBuf.front pos := by
  have hlt := crPos_lt h
  obtain ⟨hpos, hcr, hbefore⟩ := List.findIdx?_eq_some_iff_getElem.mp h
  have hfront : t.buffered.take pos = t.rxBuf.front pos := by
    rw [buffered, FixedBuffer.front, FixedBuffer.front, List.take_take, Nat.min_eq_left hlt.le]
  have hrest : t.buffered.drop (pos + 1) = (t.dropLine pos).buffered := by
    have hslice : (t.rxBuf.slice (pos + 1) (t.rxPos - pos - 1)).length = t.rxPos - pos - 1 :=
      t.rxBuf.length_slice (by omega)
    have hwrite := FixedBuffer.front_write t.rxBuf 0 (t.rxBuf.slice (pos + 1) (t.rxPos - pos - 1))
      (by omega)
    rw [hslice, Nat.zero_add, FixedBuffer.front_zero, List.nil_append] at hwrite
    refine Eq.trans ?_ hwrite.symm
    rw [buffered, FixedBuffer.front, FixedBuffer.slice, List.drop_take, Nat.sub_sub]
  constructor
  · calc t.buffered = t.buffered.take pos ++ t.buffered[pos] :: t.buffered.drop (pos + 1) := by
          rw [← List.drop_eq_getElem_cons hpos, List.take_append_drop]
      _ = t.rxBuf.front pos ++ cr :: (t.dropLine pos).buffered := by
          rw [hfront, hrest, eq_of_beq hcr]
  · rw [← hfront]
    intro hmem
    obtain ⟨i, hi, hcr'⟩ := List.mem_iff_getElem.mp hmem
    rw [List.length_take] at hi
    rw [List.getElem_take] at hcr'
    exact hbefore i (by omega) (by rw [hcr']; rfl)

/-- The transport has taken up `consumed` and returned `frames`: what the rest of the stream
yields is decided by the bytes it still holds, behind a dropped part of an over-long line. -/
structure Follows (consumed : List UInt8) (frames : List CanFrame) (t : SlcanTransport) : Prop where
  pos : t.rxPos ≤ 256
  decoded : ∃ dropped, cr ∉ dropped ∧
    (if t.discardingLine then 256 ≤ dropped.length else dropped = []) ∧
    ∀ rest, slcanFrames (consumed ++ rest) = frames ++ slcanFrames (dropped ++ t.buffered ++ rest)

/-- A terminated line is taken out of the buffer: it yields a frame when it parses and is not
the end of an over-long line. -/
theorem Follows.dropLine {consumed : List UInt8} {frames : List CanFrame} {t : SlcanTransport}
    (h : Follows consumed frames t) {pos : ℕ} (hpos : t.crPos = some pos) :
    Follows consumed (frames ++ (t.lineFrame pos).toList) (t.dropLine pos) := by
  obtain ⟨dropped, hdropped, hmode, hframes⟩ := h.decoded
  obtain ⟨hbuffered, hline⟩ := buffered_of_crPos h.pos hpos
  refine ⟨?_, [], by simp, rfl, fun rest => ?_⟩
  · have := h.pos
    simp only [SlcanTransport.dropLine]
    omega
  · have hsplit : dropped ++ t.buffered ++ rest =
        (dropped ++ t.rxBuf.front pos) ++ cr :: ((t.dropLine pos).buffered ++ rest) := by
      rw [hbuffered]
      simp
    have hnone : cr ∉ dropped ++ t.rxBuf.front pos := by
      rw [List.mem_append, not_or]
      exact ⟨hdropped, hline⟩
    rw [hframes rest, hsplit, slcanFrames_line hnone, List.append_assoc, List.nil_append]
    congr 2
    unfold lineFrame
    cases hd : t.discardingLine with
    | true =>
      rw [hd, if_pos rfl] at hmode
      rw [if_pos rfl, Option.toList_none, Option.toList_eq_nil_iff]
      cases hparse : parseSlcanFrame (dropped ++ t.rxBuf.front pos) with
      | none => rfl
      | some frame =>
        have hshort := length_of_parse hparse
        rw [List.length_append] at hshort
        omega
    | false =>
      rw [hd, if_neg (by decide)] at hmode
      rw [hmode, List.nil_append, if_neg (by decide)]

/-! ## Calls -/

theorem takeBufferedFrame_of_crPos {t : SlcanTransport} {pos : ℕ} (h : t.crPos = some pos) :
    t.takeBufferedFrame =
      match t.lineFrame pos with
      | some frame => (some frame, t.dropLine pos)
      | none => (t.dropLine pos).takeBufferedFrame := by
  rw [takeBufferedFrame]
  split
  · rename_i pos' h'
    cases h.symm.trans h'
    rfl
  · rename_i h'
    cases h.symm.trans h'

theorem takeBufferedFrame_of_none {t : SlcanTransport} (h : t.crPos = none) :
    t.takeBufferedFrame =
      if t.rxPos = 256 then (none, { t with rxPos := 0, discardingLine := true }) else (none, t) := by
  rw [takeBufferedFrame]
  split
  · rename_i pos h'
    cases h.symm.trans h'
  · rfl

theorem not_mem_of_crPos {t : SlcanTransport} (h : t.crPos = none) : cr ∉ t.buffered := by
  intro hmem
  have hno := List.findIdx?_eq_none_iff.mp h cr hmem
  cases hno

theorem Follows.discard {consumed : List UInt8} {frames : List CanFrame} {t : SlcanTransport}
    (h : Follows consumed frames t) (hpos : t.crPos = none) (hfull : t.rxPos = 256) :
    Follows consumed frames { t with rxPos := 0, discardingLine := true } := by
  obtain ⟨dropped, hdropped, -, hframes⟩ := h.decoded
  refine ⟨Nat.zero_le 256, dropped ++ t.buffered, ?_, ?_, ?_⟩
  · rw [List.mem_append, not_or]
    exact ⟨hdropped, not_mem_of_crPos hpos⟩
  · rw [if_pos rfl, List.length_append, buffered, FixedBuffer.length_front _ h.pos, hfull]
    omega
  · intro rest
    rw [hframes rest]
    simp [buffered]

/-- Taking lines returns at most one frame, and without one every line has been taken. -/
theorem takeBufferedFrame_spec {consumed : List UInt8} {frames : List CanFrame} {t : SlcanTransport}
    (h : Follows consumed frames t) :
    Follows consumed (frames ++ t.takeBufferedFrame.1.toList) t.takeBufferedFrame.2 ∧
      t.takeBufferedFrame.2.port = t.port ∧
      t.takeBufferedFrame.2.buffered.count cr + t.takeBufferedFrame.1.toList.length ≤
        t.buffered.count cr ∧
      (t.takeBufferedFrame.1 = none →
        cr ∉ t.takeBufferedFrame.2.buffered ∧ t.takeBufferedFrame.2.rxPos < 256) := by
  induction t using takeBufferedFrame.induct generalizing frames with
  | case1 t pos hpos frame hframe =>
    have hline := h.dropLine hpos
    obtain ⟨hbuffered, -⟩ := buffered_of_crPos h.pos hpos
    rw [hframe] at hline
    rw [takeBufferedFrame_of_crPos hpos, hframe, hbuffered]
    refine ⟨hline, rfl, ?_, fun hnone => by cases hnone⟩
    simp only [List.count_append, List.count_cons_self, Option.toList_some, List.length_singleton]
    omega
  | case2 t pos hpos hframe ih =>
    have hline := h.dropLine hpos
    obtain ⟨hbuffered, -⟩ := buffered_of_crPos h.pos hpos
    rw [hframe, Option.toList_none, List.append_nil] at hline
    obtain ⟨hfollows, hport, hcount, hnone⟩ := ih hline
    rw [takeBufferedFrame_of_crPos hpos, hframe]
    refine ⟨hfollows, hport, hcount.trans ?_, hnone⟩
    rw [hbuffered, List.count_append, List.count_cons_self]
    omega
  | case3 t hpos hfull =>
    rw [takeBufferedFrame_of_none hpos, if_pos hfull]
    refine ⟨?_, rfl, ?_, fun _ => ⟨by simp [buffered], Nat.zero_lt_succ 255⟩⟩
    · rw [Option.toList_none, List.append_nil]
      exact h.discard hpos hfull
    · simp [buffered]
  | case4 t hpos hfull =>
    rw [takeBufferedFrame_of_none hpos, if_neg hfull]
    refine ⟨?_, rfl, le_refl _, fun _ => ⟨not_mem_of_crPos hpos, ?_⟩⟩
    · rw [Option.toList_none, List.append_nil]
      exact h
    · exact lt_of_le_of_ne h.pos hfull

theorem Follows.read {consumed : List UInt8} {frames : List CanFrame} {t t' : SlcanTransport}
    (h : Follows consumed frames t) {chunk : List UInt8} (hfit : t.rxPos + chunk.length ≤ 256)
    (hmode : t'.discardingLine = t.discardingLine) (hbuf : t'.rxBuf = t.rxBuf.write t.rxPos chunk)
    (hpos : t'.rxPos = t.rxPos + chunk.length) :
    Follows (consumed ++ chunk) frames t' ∧ t'.buffered = t.buffered ++ chunk := by
  obtain ⟨dropped, hdropped, hdiscard, hframes⟩ := h.decoded
  have hbuffered : t'.buffered = t.buffered ++ chunk := by
    rw [buffered, hbuf, hpos, FixedBuffer.front_write _ _ _ hfit, buffered]
  refine ⟨⟨by omega, dropped, hdropped, by rw [hmode]; exact hdiscard, fun rest => ?_⟩, hbuffered⟩
  rw [List.append_assoc, hframes, hbuffered]
  simp

/-- What a port can still do: the reads it has left, and the terminators still to come. -/
def measure (t : SlcanTransport) : ℕ :=
  t.port.schedule.length + t.buffered.count cr + t.port.stream.count cr

def ReceiveResult.frame? : ReceiveResult → Option CanFrame
  | .frame f => some f
  | _ => none

theorem frame?_ofFrame (f : Option CanFrame) : (ofFrame f).frame? = f := by
  cases f <;> rfl

/-- Reads that deliver at least one byte while there are any. -/
def deliveries (schedule : List (Option ℕ)) : ℕ := schedule.countP fun n => n.any (0 < ·)

theorem read_spec (p : SerialPort) {space : ℕ} (hspace : 0 < space) :
    ∃ chunk, p.stream = chunk ++ (p.read space).2.stream ∧ chunk.length ≤ space ∧
      ((p.read space).1 = some chunk ∨ (p.read space).1 = none ∧ chunk = [] ∧ p.schedule ≠ []) ∧
      (p.read space).2.schedule = p.schedule.tail ∧
      (p.stream.length ≤ deliveries p.schedule →
        (p.read space).2.stream.length ≤ deliveries (p.read space).2.schedule) := by
  unfold SerialPort.read
  cases hs : p.schedule with
  | nil => exact ⟨[], rfl, Nat.zero_le _, .inl rfl, hs, fun h => by rw [hs]; exact h⟩
  | cons n rest =>
    cases n with
    | none =>
      refine ⟨[], rfl, Nat.zero_le _, .inr ⟨rfl, rfl, by simp⟩, rfl, fun h => ?_⟩
      simpa [deliveries] using h
    | some n =>
      refine ⟨p.stream.take (min n space), (List.take_append_drop _ _).symm, ?_, .inl rfl, rfl, ?_⟩
      · exact (List.length_take_le _ _).trans (Nat.min_le_right _ _)
      · intro h
        simp only [deliveries, List.countP_cons, Option.any_some, decide_eq_true_eq] at h ⊢
        rw [List.length_drop]
        by_cases hn : 0 < n
        · rw [if_pos hn] at h
          omega
        · rw [if_neg hn] at h
          omega

def withChunk (t : SlcanTransport) (port : SerialPort) (chunk : List UInt8) : SlcanTransport :=
  { t with
    port := port
    rxBuf := t.rxBuf.write t.rxPos chunk
    rxPos := t.rxPos + chunk.length }

theorem receive_of_frame {t t₁ : SlcanTransport} {f : CanFrame}
    (h : t.takeBufferedFrame = (some f, t₁)) : t.receive = (.frame f, t₁) := by
  unfold receive
  rw [h]

theorem receive_of_read {t t₁ : SlcanTransport} {chunk : List UInt8} {port : SerialPort}
    (h : t.takeBufferedFrame = (none, t₁)) (hspace : 0 < 256 - t₁.rxPos)
    (hread : t₁.port.read (256 - t₁.rxPos) = (some chunk, port)) :
    t.receive = (ofFrame (t₁.withChunk port chunk).takeBufferedFrame.1,
      (t₁.withChunk port chunk).takeBufferedFrame.2) := by
  have hmore : t₁.readMore = (some (t₁.withChunk port chunk), { t₁ with port := port }) := by
    unfold readMore
    rw [hread]
    rfl
  unfold receive
  rw [h]
  simp only [hspace, if_true, hmore]

theorem receive_of_error {t t₁ : SlcanTransport} {port : SerialPort}
    (h : t.takeBufferedFrame = (none, t₁)) (hspace : 0 < 256 - t₁.rxPos)
    (hread : t₁.port.read (256 - t₁.rxPos) = (none, port)) :
    t.receive = (.busError, { t₁ with port := port }) := by
  have hmore : t₁.readMore = (none, { t₁ with port := port }) := by
    unfold readMore
    rw [hread]
    rfl
  unfold receive
  rw [h]
  simp only [hspace, if_true, hmore]

/-- One call takes up what it reads and returns what that completes. Without a frame, every
line read so far has been taken. -/
theorem receive_spec {consumed : List UInt8} {frames : List CanFrame} {t : SlcanTransport}
    (h : Follows consumed frames t) :
    ∃ chunk, t.port.stream = chunk ++ t.receive.2.port.stream ∧
      Follows (consumed ++ chunk) (frames ++ t.receive.1.frame?.toList) t.receive.2 ∧
      (t.receive.1.frame? = none → cr ∉ t.receive.2.buffered) ∧
      (t.receive.2.measure < t.measure ∨ t.receive.2.port.schedule = [] ∧ t.receive.1 = .wouldBlock) ∧
      (t.port.stream.length ≤ deliveries t.port.schedule →
        t.receive.2.port.stream.length ≤ deliveries t.receive.2.port.schedule) := by
  obtain ⟨hfollows, hport, hcount, hempty⟩ := takeBufferedFrame_spec h
  rcases ht : t.takeBufferedFrame with ⟨frame, t₁⟩
  rw [ht] at hfollows hport hcount hempty
  dsimp only at hfollows hport hcount hempty
  cases frame with
  | some f =>
    -- a buffered frame is returned without a read
    rw [receive_of_frame ht]
    refine ⟨[], by rw [hport]; rfl, ?_, ?_, .inl ?_, fun hd => by rw [hport]; exact hd⟩
    · rw [List.append_nil]
      exact hfollows
    · intro hnone
      cases hnone
    · simp only [measure, hport]
      simp only [Option.toList_some, List.length_singleton] at hcount
      omega
  | none =>
    rw [Option.toList_none, List.append_nil] at hfollows
    obtain ⟨hclear, hlt⟩ := hempty rfl
    have hzero : t₁.buffered.count cr = 0 := List.count_eq_zero.mpr hclear
    have hspace : 0 < 256 - t₁.rxPos := by omega
    obtain ⟨chunk, hstream, hlen, hread, hsched, hdeliver⟩ := read_spec t₁.port hspace
    rcases hp : t₁.port.read (256 - t₁.rxPos) with ⟨answer, port⟩
    rw [hp] at hstream hread hsched hdeliver
    dsimp only at hstream hread hsched hdeliver
    rw [hport] at hstream hread hsched hdeliver
    have hcr : t.port.stream.count cr = chunk.count cr + port.stream.count cr := by
      rw [← List.count_append, ← hstream]
    have hlength : port.schedule.length = t.port.schedule.length - 1 := by
      rw [hsched, List.length_tail]
    rcases hread with rfl | ⟨rfl, rfl, hne⟩
    · obtain ⟨hread, hbuffered⟩ : Follows (consumed ++ chunk) frames (t₁.withChunk port chunk) ∧
          (t₁.withChunk port chunk).buffered = t₁.buffered ++ chunk :=
        hfollows.read (by omega) rfl rfl rfl
      obtain ⟨hfollows', hport', hcount', hempty'⟩ := takeBufferedFrame_spec hread
      rw [receive_of_read ht hspace hp]
      dsimp only
      rw [frame?_ofFrame, hport']
      refine ⟨chunk, hstream, hfollows', fun hnone => (hempty' hnone).1, ?_, hdeliver⟩
      simp only [measure, hport']
      rw [hbuffered, List.count_append, hzero, Nat.zero_add] at hcount'
      change port.schedule.length + _ + port.stream.count cr < _ ∨ port.schedule = [] ∧ _
      cases hframe : (t₁.withChunk port chunk).takeBufferedFrame.1 with
      | some f =>
        rw [hframe, Option.toList_some, List.length_singleton] at hcount'
        left
        omega
      | none =>
        by_cases hne : t.port.schedule = []
        · rw [hne] at hsched
          exact .inr ⟨hsched, rfl⟩
        · have hpos := List.length_pos_iff.mpr hne
          left
          omega
    · rw [receive_of_error ht hspace hp]
      refine ⟨[], hstream, ?_, fun _ => hclear, .inl ?_, hdeliver⟩
      · rw [List.append_nil]
        exact ⟨hfollows.pos, by simpa [ReceiveResult.frame?, buffered] using hfollows.decoded⟩
      · have hpos := List.length_pos_iff.mpr hne
        rw [List.count_nil, Nat.zero_add] at hcr
        change port.schedule.length + t₁.buffered.count cr + port.stream.count cr < _
        unfold measure
        omega

theorem takeBufferedFrame_none {consumed : List UInt8} {frames : List CanFrame} {t : SlcanTransport}
    (h : Follows consumed frames t) (hclear : cr ∉ t.buffered) : t.takeBufferedFrame.1 = none := by
  obtain ⟨-, -, hcount, -⟩ := takeBufferedFrame_spec h
  rw [List.count_eq_zero.mpr hclear] at hcount
  cases hf : t.takeBufferedFrame.1 with
  | none => rfl
  | some f =>
    rw [hf, Option.toList_some, List.length_singleton] at hcount
    omega

/-- A port without data leaves an idle receiver idle. -/
theorem receive_idle {consumed : List UInt8} {frames : List CanFrame} {t : SlcanTransport}
    (h : Follows consumed frames t) (hclear : cr ∉ t.buffered) (hsched : t.port.schedule = []) :
    t.receive.2.port.schedule = [] ∧ t.receive.1 = .wouldBlock := by
  have hnone := takeBufferedFrame_none h hclear
  obtain ⟨hfollows, hport, -, hempty⟩ := takeBufferedFrame_spec h
  rcases ht : t.takeBufferedFrame with ⟨frame, t₁⟩
  rw [ht] at hfollows hport hempty hnone
  dsimp only at hfollows hport hempty hnone
  subst hnone
  obtain ⟨hclear', hlt⟩ := hempty rfl
  have hread : t₁.port.read (256 - t₁.rxPos) = (some [], t₁.port) := by
    unfold SerialPort.read
    rw [hport, hsched]
  rw [Option.toList_none, List.append_nil] at hfollows
  obtain ⟨hmore, hbuffered⟩ : Follows (consumed ++ []) frames (t₁.withChunk t₁.port []) ∧
      (t₁.withChunk t₁.port []).buffered = t₁.buffered ++ [] :=
    hfollows.read (by rw [List.length_nil]; omega) rfl rfl rfl
  rw [List.append_nil] at hbuffered
  obtain ⟨-, hport', -, -⟩ := takeBufferedFrame_spec hmore
  rw [receive_of_read ht (by omega) hread]
  dsimp only
  rw [hport', takeBufferedFrame_none hmore (by rw [hbuffered]; exact hclear')]
  exact ⟨by rw [← hsched, ← hport]; rfl, rfl⟩

/-! ## Runs -/

def resultFrames (results : List ReceiveResult) : List CanFrame := results.filterMap (·.frame?)

theorem follows_new (port : SerialPort) : Follows [] [] (new port) :=
  ⟨Nat.zero_le 256, [], by simp, rfl, fun rest => rfl⟩

/-- A run takes up a prefix of the stream and returns the frames of its lines. -/
structure Received (stream : List UInt8) (schedule : List (Option ℕ)) (k : ℕ)
    (r : List ReceiveResult × SlcanTransport) : Prop where
  follows : ∃ consumed, stream = consumed ++ r.2.port.stream ∧ Follows consumed (resultFrames r.1) r.2
  clear : ∀ last, r.1.getLast? = some last → last.frame? = none → cr ∉ r.2.buffered
  progress : r.2.measure + k ≤ schedule.length + stream.count cr ∨
    r.2.port.schedule = [] ∧ r.1.getLast? = some .wouldBlock
  delivered : stream.length ≤ deliveries schedule →
    r.2.port.stream.length ≤ deliveries r.2.port.schedule

theorem received (stream : List UInt8) (schedule : List (Option ℕ)) (k : ℕ) :
    Received stream schedule k (receives k (new ⟨stream, schedule⟩)) := by
  induction k with
  | zero =>
    refine ⟨⟨[], rfl, follows_new _⟩, ?_, .inl ?_, id⟩
    · intro last hlast
      cases hlast
    · simp [receives, measure, new, buffered, FixedBuffer.front]
  | succ k ih =>
    rcases hr : receives k (new ⟨stream, schedule⟩) with ⟨results, t⟩
    rw [hr] at ih
    obtain ⟨⟨consumed, hstream, hfollows⟩, hclear, hprogress, hdelivered⟩ := ih
    dsimp only at hstream hfollows hclear hprogress hdelivered
    obtain ⟨chunk, hchunk, hnext, hempty, hstep, hdeliver⟩ := receive_spec hfollows
    have hrun : receives (k + 1) (new ⟨stream, schedule⟩) =
        (results ++ [t.receive.1], t.receive.2) := by
      rw [receives, hr]
    rw [hrun]
    refine ⟨⟨consumed ++ chunk, ?_, ?_⟩, ?_, ?_, fun h => hdeliver (hdelivered h)⟩
    · rw [List.append_assoc, ← hchunk]
      exact hstream
    · have hframes : resultFrames (results ++ [t.receive.1]) =
          resultFrames results ++ t.receive.1.frame?.toList := by
        unfold resultFrames
        rw [List.filterMap_append]
        cases hf : t.receive.1.frame? <;> simp [hf]
      rw [hframes]
      exact hnext
    · intro last hlast hnone
      rw [List.getLast?_concat] at hlast
      cases hlast
      exact hempty hnone
    · dsimp only
      rw [List.getLast?_concat]
      rcases hprogress with hle | ⟨hidle, hlast⟩
      · rcases hstep with hlt | ⟨hsched, hblock⟩
        · left
          omega
        · exact .inr ⟨hsched, by rw [hblock]⟩
      · obtain ⟨hsched, hblock⟩ := receive_idle hfollows (hclear _ hlast rfl) hidle
        exact .inr ⟨hsched, by rw [hblock]⟩

section
variable {stream : List UInt8} {schedule : List (Option ℕ)} {k : ℕ} {r : List ReceiveResult × SlcanTransport}

theorem Received.idle (h : Received stream schedule k r) {last : ReceiveResult}
    (hlast : r.1.getLast? = some last) (hnone : last.frame? = none) :
    ∃ consumed, stream = consumed ++ r.2.port.stream ∧ resultFrames r.1 = slcanFrames consumed := by
  obtain ⟨consumed, hstream, hfollows⟩ := h.follows
  obtain ⟨dropped, hdropped, -, hframes⟩ := hfollows.decoded
  have hend := hframes []
  have hrest : cr ∉ dropped ++ r.2.buffered ++ [] := by
    rw [List.append_nil, List.mem_append, not_or]
    exact ⟨hdropped, h.clear last hlast hnone⟩
  rw [slcanFrames_of_not_mem hrest, List.append_nil, List.append_nil] at hend
  exact ⟨consumed, hstream, hend.symm⟩

theorem Received.emptied (h : Received stream schedule k r) (hsched : r.2.port.schedule = [])
    (hdelivered : stream.length ≤ deliveries schedule) : r.2.port.stream = [] := by
  have hle := h.delivered hdelivered
  rw [hsched] at hle
  exact List.length_eq_zero_iff.mp (Nat.le_zero.mp hle)

theorem Received.complete (h : Received stream schedule k r) (hlast : r.1.getLast? = some .wouldBlock)
    (hempty : r.2.port.stream = []) : resultFrames r.1 = slcanFrames stream := by
  obtain ⟨consumed, hstream, hframes⟩ := h.idle hlast rfl
  rw [hframes, hstream, hempty, List.append_nil]

end

theorem resultFrames_of_delivered {stream : List UInt8} {schedule : List (Option ℕ)} {k : ℕ}
    (hdelivered : stream.length ≤ deliveries schedule) (hk : schedule.length + stream.count cr < k) :
    resultFrames (receives k (new ⟨stream, schedule⟩)).1 = slcanFrames stream := by
  have hreceived := received stream schedule k
  obtain ⟨hsched, hlast⟩ := hreceived.progress.resolve_left (by omega)
  exact hreceived.complete hlast (hreceived.emptied hsched hdelivered)

end SlcanTransport

open SlcanTransport

/-- However the port delivers a stream, the frames received are those of its terminated lines, in
order and each once. None is held back once a call has found nothing more, and enough calls
receive everything a port delivers. -/
theorem receiver_splits_lines (stream : List UInt8) (schedule : List (Option ℕ)) (k : ℕ) :
    ∃ results t, receives k (SlcanTransport.new ⟨stream, schedule⟩) = (results, t) ∧
      t.rxPos ≤ 256 ∧ resultFrames results <+: slcanFrames stream ∧
      (∀ last, results.getLast? = some last → last.frame? = none →
        ∃ consumed, stream = consumed ++ t.port.stream ∧ resultFrames results = slcanFrames consumed) ∧
      (schedule.length + stream.count cr < k →
        t.port.schedule = [] ∧ results.getLast? = some .wouldBlock ∧
        (stream.length ≤ deliveries schedule → t.port.stream = []) ∧
        (t.port.stream = [] → resultFrames results = slcanFrames stream)) := by
  have hreceived := received stream schedule k
  obtain ⟨consumed, hstream, hfollows⟩ := hreceived.follows
  obtain ⟨dropped, -, -, hframes⟩ := hfollows.decoded
  refine ⟨_, _, rfl, hfollows.pos, ⟨_, (hframes _).symm.trans (by rw [← hstream])⟩, ?_, fun hk => ?_⟩
  · exact fun last => hreceived.idle
  · obtain ⟨hsched, hlast⟩ := hreceived.progress.resolve_left (by omega)
    exact ⟨hsched, hlast, hreceived.emptied hsched, hreceived.complete hlast⟩

/-- A malformed line, then a frame. -/
def sampleStream : List UInt8 := [0x78, 13, 0x74, 0x32, 0x30, 0x31, 0x31, 0x32, 0x41, 13]

/-- Delivered byte by byte, the frame is received once. -/
theorem receiver_splits_lines_byte_by_byte :
    resultFrames (receives 13 (SlcanTransport.new ⟨sampleStream, List.replicate 10 (some 1)⟩)).1 =
      [⟨0x201, [0x2A], by decide, by decide⟩] := by
  obtain ⟨results, t, hrun, -, -, -, hall⟩ :=
    receiver_splits_lines sampleStream (List.replicate 10 (some 1)) 13
  obtain ⟨-, -, hempty, hframes⟩ := hall (by decide)
  rw [hrun]
  exact (hframes (hempty (by decide))).trans (by decide)

end Canopen.Slcan
