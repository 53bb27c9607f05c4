import Canopen.Lib.Deque
import Canopen.Lib.Runs
import Canopen.Transport

/-!
# Frame demultiplexer

The interpretation of COB-IDs for generic monitors (`cobid.rs`) and the demultiplexer that
shares one transport between SDO transfers and readers of heartbeats and PDOs
(`can_router.rs`). A call looks into its buffer first and then takes the frames of the
transport one by one; whatever it does not wait for is put into the buffer of its kind, and
is lost if that buffer is full.
-/

namespace Canopen

/-- Pre-defined-connection-set interpretation of a COB-ID. -/
inductive ParsedCobId
  | nmt
  | sync
  | emergency (node : NodeId)
  | tpdo (pdoNum : UInt8) (node : NodeId)
  | rpdo (pdoNum : UInt8) (node : NodeId)
  | sdoResponse (node : NodeId)
  | sdoRequest (node : NodeId)
  | heartbeat (node : NodeId)
  | unknown (raw : UInt16)
  deriving DecidableEq, Repr

/-- An identifier of a range with one place for each node. -/
def ParsedCobId.ofNode (raw : UInt16) (id : UInt8) (make : NodeId → ParsedCobId) : ParsedCobId :=
  match NodeId.new id with
  | some node => make node
  | none => .unknown raw

def CobId.parse (raw : UInt16) : ParsedCobId :=
  if raw = 0x000 then .nmt
  else if raw = 0x080 then .sync
  else if 0x081 ≤ raw ∧ raw ≤ 0x0FF then .ofNode raw (raw &&& 0x7F).toUInt8 .emergency
  else if 0x181 ≤ raw ∧ raw ≤ 0x1FF then .ofNode raw (raw - 0x180).toUInt8 (.tpdo 0)
  else if 0x201 ≤ raw ∧ raw ≤ 0x27F then .ofNode raw (raw - 0x200).toUInt8 (.rpdo 0)
  else if 0x281 ≤ raw ∧ raw ≤ 0x2FF then .ofNode raw (raw - 0x280).toUInt8 (.tpdo 1)
  else if 0x301 ≤ raw ∧ raw ≤ 0x37F then .ofNode raw (raw - 0x300).toUInt8 (.rpdo 1)
  else if 0x381 ≤ raw ∧ raw ≤ 0x3FF then .ofNode raw (raw - 0x380).toUInt8 (.tpdo 2)
  else if 0x401 ≤ raw ∧ raw ≤ 0x47F then .ofNode raw (raw - 0x400).toUInt8 (.rpdo 2)
  else if 0x481 ≤ raw ∧ raw ≤ 0x4FF then .ofNode raw (raw - 0x480).toUInt8 (.tpdo 3)
  else if 0x501 ≤ raw ∧ raw ≤ 0x57F then .ofNode raw (raw - 0x500).toUInt8 (.rpdo 3)
  else if 0x581 ≤ raw ∧ raw ≤ 0x5FF then .ofNode raw (raw - 0x580).toUInt8 .sdoResponse
  else if 0x601 ≤ raw ∧ raw ≤ 0x67F then .ofNode raw (raw - 0x600).toUInt8 .sdoRequest
  else if 0x701 ≤ raw ∧ raw ≤ 0x77F then .ofNode raw (raw - 0x700).toUInt8 .heartbeat
  else .unknown raw

/-- The order in which frames are kept: one line for each node's heartbeats, one for all
PDOs, one for everything else. -/
inductive Lane
  | heartbeat (node : NodeId)
  | pdo
  | other
  deriving DecidableEq, Repr

def CanFrame.lane (frame : CanFrame) : Lane :=
  match CobId.parse frame.id with
  | .heartbeat node => .heartbeat node
  | .tpdo _ _ | .rpdo _ _ => .pdo
  | .nmt | .sync | .emergency _ | .sdoResponse _ | .sdoRequest _ | .unknown _ => .other

/-- The buffers of the demultiplexer. -/
structure CanDemux where
  pdoBuf : Deque CanFrame 16
  heartbeatBuf : Deque CanFrame 8
  otherBuf : Deque CanFrame 4
  deriving DecidableEq, Repr

/-- What a call that receives from the transport waits for. -/
inductive Awaited
  | heartbeat (node : Option NodeId)
  | pdo
  /-- A transfer's own response COB-ID, with a full SDO frame. -/
  | sdo (responseCob : UInt16)
  deriving DecidableEq, Repr

def Awaited.accepts : Awaited → CanFrame → Bool
  | .heartbeat node, frame =>
    match CobId.parse frame.id with
    | .heartbeat n => node.isNone || node == some n
    | _ => false
  | .pdo, frame =>
    match CobId.parse frame.id with
    | .tpdo _ _ | .rpdo _ _ => true
    | _ => false
  | .sdo responseCob, frame => frame.id == responseCob && frame.rawDlc == 8

/-- The frames that the transport hands to a call: up to the one it waits for. -/
def Awaited.taken (awaited : Awaited) : List CanFrame → List CanFrame
  | [] => []
  | frame :: frames => if awaited.accepts frame then [frame] else frame :: awaited.taken frames

namespace CanDemux

def new : CanDemux := ⟨.empty, .empty, .empty⟩

/-- Every identifier of a frame is a COB-ID, so that only its class matters here. -/
def routeFrame (d : CanDemux) (frame : CanFrame) : CanDemux :=
  match CobId.parse frame.id with
  | .heartbeat _ => { d with heartbeatBuf := d.heartbeatBuf.pushBack frame }
  | .tpdo _ _ | .rpdo _ _ => { d with pdoBuf := d.pdoBuf.pushBack frame }
  | _ => { d with otherBuf := d.otherBuf.pushBack frame }

/-- Whether a buffered heartbeat is one of the node asked for. -/
def isFrom (node : Option NodeId) (frame : CanFrame) : Bool :=
  node.isNone ||
    (match CobId.parse frame.id with
      | .heartbeat n => some n
      | _ => none) == node

/-- The loop of `take_buffered_heartbeat`: the queue is turned round once, and the first match
stays out. -/
def turnRound (p : CanFrame → Bool) : ℕ → Option CanFrame → Deque CanFrame 8 →
    Option CanFrame × Deque CanFrame 8
  | 0, found, q => (found, q)
  | n + 1, found, q =>
    match q.items with
    | [] => turnRound p n found q
    | frame :: _ =>
      if found.isNone && p frame then turnRound p n (some frame) q.popFront
      else turnRound p n found (q.popFront.pushBack frame)

def takeBufferedHeartbeat (d : CanDemux) (node : Option NodeId) : CanDemux × Option CanFrame :=
  let (found, buf) := turnRound (isFrom node) d.heartbeatBuf.items.length none d.heartbeatBuf
  ({ d with heartbeatBuf := buf }, found)

def tryRecvHeartbeat (d : CanDemux) : CanDemux × Option CanFrame :=
  ({ d with heartbeatBuf := d.heartbeatBuf.popFront }, d.heartbeatBuf.items.head?)

def tryRecvPdo (d : CanDemux) : CanDemux × Option CanFrame :=
  ({ d with pdoBuf := d.pdoBuf.popFront }, d.pdoBuf.items.head?)

def tryRecvOther (d : CanDemux) : CanDemux × Option CanFrame :=
  ({ d with otherBuf := d.otherBuf.popFront }, d.otherBuf.items.head?)

/-- The loop over the transport: frames that are not waited for are put into the buffers. -/
def receive (d : CanDemux) (awaited : Awaited) : List CanFrame → CanDemux × Option CanFrame
  | [] => (d, none)
  | frame :: frames =>
    if awaited.accepts frame then (d, some frame) else (d.routeFrame frame).receive awaited frames

/-- `none` where the transport has nothing more for the call. -/
def recvHeartbeat (d : CanDemux) (node : Option NodeId) (frames : List CanFrame) : CanDemux × Option CanFrame :=
  match d.takeBufferedHeartbeat node with
  | (d, some frame) => (d, some frame)
  | (d, none) => d.receive (.heartbeat node) frames

def recvPdo (d : CanDemux) (frames : List CanFrame) : CanDemux × Option CanFrame :=
  match d.tryRecvPdo with
  | (d, some frame) => (d, some frame)
  | (d, none) => d.receive .pdo frames

end CanDemux

/-- What the users of a demultiplexer do. A call of `recv_heartbeat` or `recv_pdo` looks into its
buffer and then is handed frames until it accepts one; it may be dropped at any time. -/
inductive DemuxAction
  | takeHeartbeat (node : Option NodeId)
  | tryRecvHeartbeat
  | tryRecvPdo
  | tryRecvOther
  /-- The transport hands a frame to the call that waits. -/
  | hand (awaited : Awaited) (frame : CanFrame)
  deriving DecidableEq, Repr

/-- Where a frame went. -/
inductive DemuxEntry
  /-- To the call it was handed to. -/
  | direct (frame : CanFrame)
  | kept (frame : CanFrame)
  /-- Its buffer was full. -/
  | lost (frame : CanFrame)
  /-- Out of its buffer, to a call. -/
  | taken (frame : CanFrame)
  deriving DecidableEq, Repr

namespace CanDemux

def isFullFor (d : CanDemux) (frame : CanFrame) : Bool :=
  match frame.lane with
  | .heartbeat _ => d.heartbeatBuf.isFull
  | .pdo => d.pdoBuf.isFull
  | .other => d.otherBuf.isFull

/-- The demultiplexer after an action, and what the caller gets. -/
def act (d : CanDemux) : DemuxAction → CanDemux × Option CanFrame
  | .takeHeartbeat node => d.takeBufferedHeartbeat node
  | .tryRecvHeartbeat => d.tryRecvHeartbeat
  | .tryRecvPdo => d.tryRecvPdo
  | .tryRecvOther => d.tryRecvOther
  | .hand awaited frame => if awaited.accepts frame then (d, some frame) else (d.routeFrame frame, none)

def step (d : CanDemux) (a : DemuxAction) : Option CanDemux := some (d.act a).1

def entries (d : CanDemux) : DemuxAction → List DemuxEntry
  | .hand awaited frame =>
    if awaited.accepts frame then [.direct frame]
    else if d.isFullFor frame then [.lost frame] else [.kept frame]
  | a => (d.act a).2.toList.map .taken

def buffered (d : CanDemux) : List CanFrame := d.heartbeatBuf.items ++ d.pdoBuf.items ++ d.otherBuf.items

end CanDemux

namespace DemuxEntry

def arrived? : DemuxEntry → Option CanFrame
  | .direct frame | .kept frame | .lost frame => some frame
  | .taken _ => none

def kept? : DemuxEntry → Option CanFrame
  | .kept frame => some frame
  | .direct _ | .lost _ | .taken _ => none

def taken? : DemuxEntry → Option CanFrame
  | .taken frame => some frame
  | .direct _ | .kept _ | .lost _ => none

def lost? : DemuxEntry → Option CanFrame
  | .lost frame => some frame
  | .direct _ | .kept _ | .taken _ => none

def direct? : DemuxEntry → Option CanFrame
  | .direct frame => some frame
  | .kept _ | .lost _ | .taken _ => none

end DemuxEntry

namespace CanDemux

theorem items_popFront_pushBack {q : Deque CanFrame 8} {first : CanFrame} {rest : List CanFrame}
    (h : q.items = first :: rest) (frame : CanFrame) : (q.popFront.pushBack frame).items = rest ++ [frame] := by
  have hlen := q.length_le
  rw [h, List.length_cons] at hlen
  have hfront : q.popFront.items = rest := by
    change q.items.tail = rest
    rw [h, List.tail_cons]
  rw [Deque.pushBack_items, hfront]
  rw [Deque.isFull, hfront, beq_eq_false_iff_ne]
  omega

theorem turnRound_some (p : CanFrame → Bool) (found : CanFrame) {front back : List CanFrame}
    {q : Deque CanFrame 8} (h : q.items = front ++ back) :
    (turnRound p front.length (some found) q).1 = some found ∧
      (turnRound p front.length (some found) q).2.items = back ++ front := by
  induction front generalizing q back with
  | nil => exact ⟨rfl, h.trans (List.append_nil back).symm⟩
  | cons first rest ih =>
    rw [List.cons_append] at h
    have hnext := items_popFront_pushBack h first
    rw [List.append_assoc] at hnext
    simp only [List.length_cons, turnRound, h, Option.isNone_some, Bool.false_and, Bool.false_eq_true, if_false]
    obtain ⟨hfound, hitems⟩ := ih hnext
    exact ⟨hfound, by rw [hitems, List.append_assoc, List.singleton_append]⟩

/-- Before a match the turn has moved the frames it has seen to the back. -/
theorem turnRound_none (p : CanFrame → Bool) {front back : List CanFrame} {q : Deque CanFrame 8}
    (h : q.items = front ++ back) :
    (turnRound p front.length none q).1 = front.find? p ∧
      (turnRound p front.length none q).2.items = back ++ front.eraseP p := by
  induction front generalizing q back with
  | nil => exact ⟨rfl, h.trans (List.append_nil back).symm⟩
  | cons first rest ih =>
    rw [List.cons_append] at h
    simp only [List.length_cons, turnRound, h, Option.isNone_none, Bool.true_and]
    by_cases hfirst : p first = true
    · have hpop : q.popFront.items = rest ++ back := by
        change q.items.tail = _
        rw [h, List.tail_cons]
      rw [if_pos hfirst, List.find?_cons_of_pos hfirst, List.eraseP_cons_of_pos hfirst]
      exact turnRound_some p first hpop
    · have hnext := items_popFront_pushBack h first
      rw [List.append_assoc] at hnext
      obtain ⟨hfound, hitems⟩ := ih hnext
      rw [if_neg hfirst, List.find?_cons_of_neg hfirst, List.eraseP_cons_of_neg hfirst]
      exact ⟨hfound, by rw [hitems, List.append_assoc, List.singleton_append]⟩

theorem takeBufferedHeartbeat_spec (d : CanDemux) (node : Option NodeId) :
    (d.takeBufferedHeartbeat node).2 = d.heartbeatBuf.items.find? (isFrom node) ∧
      (d.takeBufferedHeartbeat node).1.heartbeatBuf.items = d.heartbeatBuf.items.eraseP (isFrom node) ∧
      (d.takeBufferedHeartbeat node).1.pdoBuf = d.pdoBuf ∧
      (d.takeBufferedHeartbeat node).1.otherBuf = d.otherBuf := by
  obtain ⟨hfound, hitems⟩ := turnRound_none (isFrom node) (List.append_nil d.heartbeatBuf.items).symm
  exact ⟨hfound, hitems, rfl, rfl⟩

theorem lane_heartbeat {frame : CanFrame} {node : NodeId} :
    frame.lane = .heartbeat node ↔ CobId.parse frame.id = .heartbeat node := by
  unfold CanFrame.lane
  cases CobId.parse frame.id <;> simp

theorem isFrom_lane {node : Option NodeId} {f g : CanFrame} (hf : isFrom node f = true)
    (hlane : g.lane = f.lane) : isFrom node g = true := by
  cases node with
  | none => rfl
  | some n =>
    have hparse : CobId.parse f.id = .heartbeat n := by
      unfold isFrom at hf
      cases hp : CobId.parse f.id <;> simp_all
    have hg := lane_heartbeat.mp (hlane.trans (lane_heartbeat.mpr hparse))
    simp [isFrom, hg]

def onLane (lane : Lane) (frame : CanFrame) : Bool := frame.lane == lane

/-- Taking the oldest match takes the oldest frame of its lane, and no other lane notices. -/
theorem filter_taken {p : CanFrame → Bool} (hp : ∀ f g, p f = true → g.lane = f.lane → p g = true)
    (l : List CanFrame) (lane : Lane) : l.filter (onLane lane) =
      (l.find? p).toList.filter (onLane lane) ++ (l.eraseP p).filter (onLane lane) := by
  induction l with
  | nil => rfl
  | cons first rest ih =>
    by_cases hfirst : p first = true
    · rw [List.find?_cons_of_pos hfirst, List.eraseP_cons_of_pos hfirst, Option.toList_some, ← List.filter_append]
      rfl
    · rw [List.find?_cons_of_neg hfirst, List.eraseP_cons_of_neg hfirst]
      by_cases hlane : onLane lane first = true
      · have hnone : (rest.find? p).toList.filter (onLane lane) = [] := by
          cases hfound : rest.find? p with
          | none => rfl
          | some f =>
            refine List.filter_eq_nil_iff.mpr ?_
            rintro g hg hsame
            cases List.mem_singleton.mp hg
            have heq : first.lane = f.lane := (beq_iff_eq.mp hlane).trans (beq_iff_eq.mp hsame).symm
            exact hfirst (hp f first (List.find?_some hfound) heq)
        rw [hnone, List.nil_append] at ih ⊢
        rw [List.filter_cons_of_pos hlane, List.filter_cons_of_pos hlane, ih]
      · rw [List.filter_cons_of_neg hlane, List.filter_cons_of_neg hlane, ih]

theorem find_true (l : List CanFrame) : l.find? (fun _ => true) = l.head? := by
  cases l <;> rfl

theorem eraseP_true (l : List CanFrame) : l.eraseP (fun _ => true) = l.tail := by
  cases l <;> rfl

/-- The names of the buffers. -/
inductive Buffer
  | heartbeat
  | pdo
  | other
  deriving DecidableEq, Repr

def bufferOf : Lane → Buffer
  | .heartbeat _ => .heartbeat
  | .pdo => .pdo
  | .other => .other

def items (d : CanDemux) : Buffer → List CanFrame
  | .heartbeat => d.heartbeatBuf.items
  | .pdo => d.pdoBuf.items
  | .other => d.otherBuf.items

/-- Each buffer holds the frames of its own lanes. -/
def Sorted (d : CanDemux) : Prop := ∀ b, ∀ frame ∈ d.items b, bufferOf frame.lane = b

theorem filter_eq_nil {l : List CanFrame} {lane : Lane} (h : ∀ frame ∈ l, frame.lane ≠ lane) :
    l.filter (onLane lane) = [] :=
  List.filter_eq_nil_iff.mpr fun frame hframe hlane => h frame hframe (beq_iff_eq.mp hlane)

theorem Sorted.filter_other {d : CanDemux} (h : d.Sorted) {lane : Lane} {b : Buffer} (hb : bufferOf lane ≠ b) :
    (d.items b).filter (onLane lane) = [] :=
  filter_eq_nil fun f hf hlane => hb (by rw [← hlane, h b f hf])

theorem Sorted.filter_buffered {d : CanDemux} (h : d.Sorted) (lane : Lane) :
    d.buffered.filter (onLane lane) = (d.items (bufferOf lane)).filter (onLane lane) := by
  have hbuffered : d.buffered = d.items .heartbeat ++ d.items .pdo ++ d.items .other := rfl
  rw [hbuffered, List.filter_append, List.filter_append]
  rcases hb : bufferOf lane with _ | _ | _
  · rw [h.filter_other (b := .pdo) (by simp [hb]), h.filter_other (b := .other) (by simp [hb]), List.append_nil,
      List.append_nil]
  · rw [h.filter_other (b := .heartbeat) (by simp [hb]), h.filter_other (b := .other) (by simp [hb]),
      List.append_nil, List.nil_append]
  · rw [h.filter_other (b := .heartbeat) (by simp [hb]), h.filter_other (b := .pdo) (by simp [hb]), List.nil_append,
      List.nil_append]

theorem routeFrame_eq (d : CanDemux) (frame : CanFrame) : d.routeFrame frame =
    match frame.lane with
    | .heartbeat _ => { d with heartbeatBuf := d.heartbeatBuf.pushBack frame }
    | .pdo => { d with pdoBuf := d.pdoBuf.pushBack frame }
    | .other => { d with otherBuf := d.otherBuf.pushBack frame } := by
  unfold routeFrame CanFrame.lane
  cases CobId.parse frame.id <;> rfl

theorem pushBack_full {cap : ℕ} {q : Deque CanFrame cap} (h : q.isFull = true) (frame : CanFrame) :
    q.pushBack frame = q := by
  have hlen : q.items.length = cap := beq_iff_eq.mp h
  exact dif_neg (by omega)

theorem routeFrame_full {d : CanDemux} {frame : CanFrame} (h : d.isFullFor frame = true) :
    d.routeFrame frame = d := by
  rw [routeFrame_eq]
  unfold isFullFor at h
  split <;> simp_all [pushBack_full]

theorem items_routeFrame {d : CanDemux} {frame : CanFrame} (hroom : d.isFullFor frame = false) (b : Buffer) :
    (d.routeFrame frame).items b = if b = bufferOf frame.lane then d.items b ++ [frame] else d.items b := by
  rw [routeFrame_eq]
  unfold isFullFor at hroom
  rcases hlane : frame.lane with node | _ | _
  all_goals
    rw [hlane] at hroom
    have hitems := Deque.pushBack_items hroom frame
    cases b with
    | heartbeat | pdo | other => first | exact hitems | rfl

/-- A frame that finds room goes behind the others of its lane. -/
theorem routeFrame_spec {d : CanDemux} {frame : CanFrame} (h : d.Sorted) (hroom : d.isFullFor frame = false) :
    (d.routeFrame frame).Sorted ∧ ∀ lane, ((d.routeFrame frame).items (bufferOf lane)).filter (onLane lane) =
      (d.items (bufferOf lane)).filter (onLane lane) ++ [frame].filter (onLane lane) := by
  refine ⟨fun b f hf => ?_, fun lane => ?_⟩
  · rw [items_routeFrame hroom] at hf
    by_cases hb : b = bufferOf frame.lane
    · rw [if_pos hb] at hf
      rcases List.mem_append.mp hf with hf | hf
      · exact h b f hf
      · rw [List.mem_singleton.mp hf, hb]
    · rw [if_neg hb] at hf
      exact h b f hf
  · rw [items_routeFrame hroom]
    by_cases hb : bufferOf lane = bufferOf frame.lane
    · rw [if_pos hb, List.filter_append]
    · have hnone : [frame].filter (onLane lane) = [] :=
        filter_eq_nil fun f hf hlane => hb (by rw [← hlane, List.mem_singleton.mp hf])
      rw [if_neg hb, hnone, List.append_nil]

/-- What a look into the buffers does to every lane. -/
def Takes (d d' : CanDemux) (got : Option CanFrame) : Prop :=
  d'.Sorted ∧ ∀ lane, (d.items (bufferOf lane)).filter (onLane lane) =
    got.toList.filter (onLane lane) ++ (d'.items (bufferOf lane)).filter (onLane lane)

/-- A buffer gives out its oldest match. -/
theorem takes_of_find {d d' : CanDemux} {p : CanFrame → Bool} (h : d.Sorted) (source : Buffer)
    (hp : ∀ f g, p f = true → g.lane = f.lane → p g = true)
    (hitems : ∀ b, d'.items b = if b = source then (d.items b).eraseP p else d.items b) :
    d.Takes d' ((d.items source).find? p) := by
  refine ⟨fun b f hf => ?_, fun lane => ?_⟩
  · rw [hitems] at hf
    by_cases hb : b = source
    · rw [if_pos hb] at hf
      exact h b f (List.mem_of_mem_eraseP hf)
    · rw [if_neg hb] at hf
      exact h b f hf
  · rw [hitems]
    by_cases hb : bufferOf lane = source
    · rw [if_pos hb, hb]
      exact filter_taken hp (d.items source) lane
    · have hnone : ((d.items source).find? p).toList.filter (onLane lane) = [] := by
        refine filter_eq_nil fun f hf hlane => hb ?_
        rw [← hlane]
        exact h source f (List.mem_of_find?_eq_some (Option.mem_toList.mp hf))
      rw [if_neg hb, hnone, List.nil_append]

/-- Every look into a buffer takes the oldest frame it may take. -/
theorem takes_act {d : CanDemux} {a : DemuxAction} (h : d.Sorted)
    (ha : ∀ awaited frame, a ≠ .hand awaited frame) : d.Takes (d.act a).1 (d.act a).2 := by
  have hall (f g : CanFrame) (_ : (fun _ => true : CanFrame → Bool) f = true) (_ : g.lane = f.lane) :
      (fun _ => true : CanFrame → Bool) g = true := rfl
  cases a with
  | hand awaited frame => exact absurd rfl (ha awaited frame)
  | takeHeartbeat node =>
    obtain ⟨hfound, hitems, hpdo, hother⟩ := d.takeBufferedHeartbeat_spec node
    change d.Takes (d.takeBufferedHeartbeat node).1 (d.takeBufferedHeartbeat node).2
    rw [hfound]
    refine takes_of_find h .heartbeat (fun f g => isFrom_lane) fun b => ?_
    cases b with
    | heartbeat => exact hitems
    | pdo => exact congrArg Deque.items hpdo
    | other => exact congrArg Deque.items hother
  | tryRecvHeartbeat =>
    change d.Takes d.tryRecvHeartbeat.1 (d.items .heartbeat).head?
    rw [← find_true]
    refine takes_of_find h .heartbeat hall fun b => ?_
    cases b with
    | heartbeat => exact (eraseP_true _).symm
    | pdo | other => rfl
  | tryRecvPdo =>
    change d.Takes d.tryRecvPdo.1 (d.items .pdo).head?
    rw [← find_true]
    refine takes_of_find h .pdo hall fun b => ?_
    cases b with
    | pdo => exact (eraseP_true _).symm
    | heartbeat | other => rfl
  | tryRecvOther =>
    change d.Takes d.tryRecvOther.1 (d.items .other).head?
    rw [← find_true]
    refine takes_of_find h .other hall fun b => ?_
    cases b with
    | other => exact (eraseP_true _).symm
    | heartbeat | pdo => rfl

/-! ## Runs -/

/-- In every lane, what was kept is what was taken and what is still there, in this order. -/
def Accounted (past : List DemuxEntry) (d : CanDemux) : Prop :=
  d.Sorted ∧ ∀ lane, (past.filterMap DemuxEntry.kept?).filter (onLane lane) =
    (past.filterMap DemuxEntry.taken?).filter (onLane lane) ++ (d.items (bufferOf lane)).filter (onLane lane)

theorem filterMap_concat_none {f : DemuxEntry → Option CanFrame} {entry : DemuxEntry} {past : List DemuxEntry}
    (h : f entry = none) : (past ++ [entry]).filterMap f = past.filterMap f := by
  rw [List.filterMap_append, List.filterMap_cons_none h, List.filterMap_nil, List.append_nil]

theorem accounted_step {past : List DemuxEntry} {d d' : CanDemux} {a : DemuxAction} (h : Accounted past d)
    (hstep : d.step a = some d') : Accounted (past ++ d.entries a) d' := by
  obtain ⟨hsorted, hlanes⟩ := h
  cases hstep
  by_cases ha : ∃ awaited frame, a = .hand awaited frame
  · obtain ⟨awaited, frame, rfl⟩ := ha
    simp only [act, entries]
    by_cases haccepts : awaited.accepts frame = true
    · rw [if_pos haccepts, if_pos haccepts]
      exact ⟨hsorted, fun lane => by
        rw [filterMap_concat_none rfl, filterMap_concat_none rfl]
        exact hlanes lane⟩
    rw [if_neg haccepts, if_neg haccepts]
    by_cases hfull : d.isFullFor frame = true
    · rw [if_pos hfull, routeFrame_full hfull]
      exact ⟨hsorted, fun lane => by
        rw [filterMap_concat_none rfl, filterMap_concat_none rfl]
        exact hlanes lane⟩
    · rw [if_neg hfull]
      obtain ⟨hsorted', hspec⟩ := routeFrame_spec hsorted (Bool.eq_false_iff.mpr hfull)
      refine ⟨hsorted', fun lane => ?_⟩
      have hkept : (past ++ [DemuxEntry.kept frame]).filterMap DemuxEntry.kept? =
          past.filterMap DemuxEntry.kept? ++ [frame] := List.filterMap_append
      have htaken : (past ++ [DemuxEntry.kept frame]).filterMap DemuxEntry.taken? =
          past.filterMap DemuxEntry.taken? := filterMap_concat_none rfl
      rw [hkept, htaken, List.filter_append, hlanes lane, hspec lane, List.append_assoc]
  · obtain ⟨hsorted', htakes⟩ := takes_act hsorted fun awaited frame heq => ha ⟨awaited, frame, heq⟩
    have hentries : d.entries a = (d.act a).2.toList.map .taken := by
      cases a with
      | hand awaited frame => exact absurd ⟨awaited, frame, rfl⟩ ha
      | takeHeartbeat | tryRecvHeartbeat | tryRecvPdo | tryRecvOther => rfl
    refine ⟨hsorted', fun lane => ?_⟩
    have hkept : ((d.act a).2.toList.map DemuxEntry.taken).filterMap DemuxEntry.kept? = [] := by
      cases (d.act a).2 <;> rfl
    have htaken : ((d.act a).2.toList.map DemuxEntry.taken).filterMap DemuxEntry.taken? =
        (d.act a).2.toList := by
      cases (d.act a).2 <;> rfl
    rw [hentries, List.filterMap_append, List.filterMap_append, hkept, htaken, List.append_nil, hlanes lane,
      htakes lane, List.filter_append, List.append_assoc]

theorem taken_prefix (awaited : Awaited) (frames : List CanFrame) : awaited.taken frames <+: frames := by
  induction frames with
  | nil => exact List.nil_prefix
  | cons frame frames ih =>
    unfold Awaited.taken
    split
    · exact List.cons_prefix_cons.mpr ⟨rfl, List.nil_prefix⟩
    · exact List.cons_prefix_cons.mpr ⟨rfl, ih⟩

theorem accepts_receive {d : CanDemux} {awaited : Awaited} {frames : List CanFrame} {frame : CanFrame}
    (h : (d.receive awaited frames).2 = some frame) : awaited.accepts frame = true := by
  induction frames generalizing d with
  | nil => cases h
  | cons first frames ih =>
    unfold receive at h
    by_cases haccepts : awaited.accepts first = true
    · rw [if_pos haccepts] at h
      cases h
      exact haccepts
    · rw [if_neg haccepts] at h
      exact ih h

/-- The loop over the transport hands on one frame after the other, and only the one that is waited
for to the caller. -/
theorem receive_spec (d : CanDemux) (awaited : Awaited) (frames : List CanFrame) :
    Runs.run step d ((awaited.taken frames).map (.hand awaited)) = some (d.receive awaited frames).1 ∧
      (Runs.log step entries d ((awaited.taken frames).map (.hand awaited))).filterMap DemuxEntry.direct? =
        (d.receive awaited frames).2.toList := by
  induction frames generalizing d with
  | nil => exact ⟨rfl, rfl⟩
  | cons frame frames ih =>
    unfold receive Awaited.taken
    by_cases haccepts : awaited.accepts frame = true
    · have hstep : d.step (.hand awaited frame) = some d := by rw [step, act, if_pos haccepts]
      have hentries : d.entries (.hand awaited frame) = [.direct frame] := by rw [entries, if_pos haccepts]
      rw [if_pos haccepts, if_pos haccepts]
      refine ⟨Runs.run_cons.mpr ⟨d, hstep, rfl⟩, ?_⟩
      rw [List.map_cons, Runs.log, hentries, hstep]
      rfl
    · have hstep : d.step (.hand awaited frame) = some (d.routeFrame frame) := by
        rw [step, act, if_neg haccepts]
      have hentries : (d.entries (.hand awaited frame)).filterMap DemuxEntry.direct? = [] := by
        rw [entries, if_neg haccepts]
        split <;> rfl
      rw [if_neg haccepts, if_neg haccepts]
      obtain ⟨hrun, hdirect⟩ := ih (d.routeFrame frame)
      refine ⟨Runs.run_cons.mpr ⟨_, hstep, hrun⟩, ?_⟩
      rw [List.map_cons, Runs.log, List.filterMap_append, hentries, hstep]
      exact hdirect

theorem recvHeartbeat_run (d : CanDemux) (node : Option NodeId) (frames : List CanFrame) :
    ∃ handed, handed <+: frames ∧ Runs.run step d (.takeHeartbeat node :: handed.map (.hand (.heartbeat node))) =
      some (d.recvHeartbeat node frames).1 := by
  unfold recvHeartbeat
  rcases htake : d.takeBufferedHeartbeat node with ⟨d', _ | found⟩
  all_goals have hlook : d.step (.takeHeartbeat node) = some d' := by rw [step, act, htake]
  · exact ⟨_, taken_prefix _ frames, Runs.run_cons.mpr ⟨d', hlook, (d'.receive_spec _ frames).1⟩⟩
  · exact ⟨[], List.nil_prefix, Runs.run_cons.mpr ⟨d', hlook, rfl⟩⟩

theorem recvPdo_run (d : CanDemux) (frames : List CanFrame) : ∃ handed, handed <+: frames ∧
    Runs.run step d (.tryRecvPdo :: handed.map (.hand .pdo)) = some (d.recvPdo frames).1 := by
  unfold recvPdo
  rcases htake : d.tryRecvPdo with ⟨d', _ | found⟩
  all_goals have hlook : d.step .tryRecvPdo = some d' := by rw [step, act, htake]
  · exact ⟨_, taken_prefix _ frames, Runs.run_cons.mpr ⟨d', hlook, (d'.receive_spec _ frames).1⟩⟩
  · exact ⟨[], List.nil_prefix, Runs.run_cons.mpr ⟨d', hlook, rfl⟩⟩

def handed? : DemuxAction → Option CanFrame
  | .hand _ frame => some frame
  | .takeHeartbeat _ | .tryRecvHeartbeat | .tryRecvPdo | .tryRecvOther => none

theorem arrived_entries (d : CanDemux) (a : DemuxAction) :
    (d.entries a).filterMap DemuxEntry.arrived? = (handed? a).toList := by
  have htaken (got : Option CanFrame) :
      (got.toList.map DemuxEntry.taken).filterMap DemuxEntry.arrived? = [] := by
    cases got <;> rfl
  cases a with
  | hand awaited frame =>
    simp only [entries]
    split
    · rfl
    split <;> rfl
  | takeHeartbeat | tryRecvHeartbeat | tryRecvPdo | tryRecvOther => exact htaken _

theorem arrived_log (d : CanDemux) (actions : List DemuxAction) :
    (Runs.log step entries d actions).filterMap DemuxEntry.arrived? = actions.filterMap handed? := by
  induction actions generalizing d with
  | nil => rfl
  | cons a actions ih =>
    rw [Runs.log, List.filterMap_append, arrived_entries]
    change _ ++ (Runs.log step entries (d.act a).1 actions).filterMap DemuxEntry.arrived? = _
    rw [ih]
    cases h : handed? a <;> simp [h]

theorem run_total (d : CanDemux) (actions : List DemuxAction) : ∃ d', Runs.run step d actions = some d' := by
  induction actions generalizing d with
  | nil => exact ⟨d, rfl⟩
  | cons a actions ih =>
    obtain ⟨d', hrun⟩ := ih (d.act a).1
    exact ⟨d', Runs.run_cons.mpr ⟨_, rfl, hrun⟩⟩

/-- Every arrival goes to exactly one place. -/
theorem perm_arrived (log : List DemuxEntry) : (log.filterMap DemuxEntry.arrived?).Perm
    (log.filterMap DemuxEntry.direct? ++ log.filterMap DemuxEntry.lost? ++ log.filterMap DemuxEntry.kept?) := by
  induction log with
  | nil => exact .refl _
  | cons entry log ih =>
    cases entry with
    | taken frame => exact ih
    | direct frame => exact ih.cons frame
    | lost frame =>
      refine (ih.cons frame).trans ?_
      simp only [List.filterMap_cons, DemuxEntry.direct?, DemuxEntry.lost?, DemuxEntry.kept?]
      rw [List.append_assoc, List.append_assoc]
      exact List.perm_middle.symm
    | kept frame =>
      refine (ih.cons frame).trans ?_
      simp only [List.filterMap_cons, DemuxEntry.direct?, DemuxEntry.lost?, DemuxEntry.kept?]
      exact List.perm_middle.symm

theorem perm_of_lanes {l l' : List CanFrame}
    (h : ∀ lane, l.filter (onLane lane) = l'.filter (onLane lane)) : l.Perm l' := by
  refine List.perm_iff_count.mpr fun frame => ?_
  have hself : onLane frame.lane frame = true := beq_self_eq_true _
  rw [← List.count_filter hself, h frame.lane, List.count_filter hself]

/-- Whatever its users do, and in whatever order, the demultiplexer keeps every lane in order: the
heartbeats of one node, the PDOs, and the rest come out as they came in, none twice and none
through another buffer. Every frame that the transport has handed out went to the call it was
handed to, was taken from its buffer later, is still there, or was lost to a full buffer. -/
theorem demux_keeps_lanes (actions : List DemuxAction) :
    ∃ d, Runs.run step new actions = some d ∧
      let log := Runs.log step entries new actions
      (∀ lane, (log.filterMap DemuxEntry.kept?).filter (onLane lane) =
        (log.filterMap DemuxEntry.taken?).filter (onLane lane) ++ d.buffered.filter (onLane lane)) ∧
      (actions.filterMap handed?).Perm (log.filterMap DemuxEntry.direct? ++ log.filterMap DemuxEntry.lost? ++
        (log.filterMap DemuxEntry.taken? ++ d.buffered)) := by
  obtain ⟨d, hrun⟩ := run_total new actions
  have hempty : Accounted [] new :=
    ⟨fun b => by cases b <;> exact List.forall_mem_nil _, fun lane => by cases lane <;> rfl⟩
  obtain ⟨hsorted, hlanes⟩ := Runs.log_inv Accounted (fun _ _ _ _ => accounted_step) hempty hrun
  refine ⟨d, hrun, ?_⟩
  intro log
  have hkept (lane : Lane) : (log.filterMap DemuxEntry.kept?).filter (onLane lane) =
      (log.filterMap DemuxEntry.taken?).filter (onLane lane) ++ d.buffered.filter (onLane lane) := by
    rw [hsorted.filter_buffered lane]
    exact hlanes lane
  refine ⟨hkept, ?_⟩
  have hsame : (log.filterMap DemuxEntry.kept?).Perm (log.filterMap DemuxEntry.taken? ++ d.buffered) := by
    refine perm_of_lanes fun lane => ?_
    rw [hkept lane, List.filter_append]
  rw [← arrived_log new actions]
  exact (perm_arrived log).trans (hsame.append_left _)

end CanDemux
end Canopen
