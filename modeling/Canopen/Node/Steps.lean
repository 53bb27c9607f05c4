import Canopen.Node.Process

/-!
# Steps of a node

Every call is a sequence of small steps. `Step` lists them once, with the guards
under which the code takes them, and `run_steps` takes a run apart; an invariant of
the steps is then an invariant of every run. `allowed` restricts what the
application may do to the dictionary.
-/

namespace Canopen

open Pdo Sdo

variable {OD : Type} [ObjectDictionary OD] {evt dirty : ℕ}

/-! ## The step relation -/

/-- Steps of one SDO channel. -/
inductive ChannelStep (state : NmtState) (i : ℕ) : SdoChannel → Bus → SdoChannel → Bus → Prop
  | beginPoll (nowUs : UInt64) (ch : SdoChannel) (b : Bus) :
    ChannelStep state i ch b (ch.beginPoll nowUs i b).1 (ch.beginPoll nowUs i b).2
  | trySend (ch : SdoChannel) (b : Bus) :
    ChannelStep state i ch b (ch.trySend state i b).1 (ch.trySend state i b).2
  | nextSegment {nowUs : UInt64} {ch : SdoChannel} {server : SdoServer} {data : SdoFrame} (b : Bus)
    (free : ch.pending = none) (hpoll : ch.server.pollBlockUpload nowUs = (server, some data)) :
    ChannelStep state i ch b ({ ch with server := server }.queue data nowUs)
      (b.log [.sdoProduced i data nowUs])

/-- Frames of the services that hold no process data and no request. -/
def Neutral (m : Machine OD evt dirty) (o : Obs) : Prop :=
  ∃ kind frame result, o = .offer kind frame result m.state ∧
    (kind = .lss ∨ (kind = .heartbeat ∧ m.node.booted) ∨
      (kind = .sync ∧ m.node.booted ∧ m.state ≠ .stopped) ∨
      (kind = .emcy ∧ m.node.booted ∧ m.state.servesSdo))

def monitorConfig (monitor : Option HeartbeatMonitor) : Option (NodeId × UInt16) :=
  monitor.map fun m => (m.nodeId, m.timeoutMs)

/-- A step of LSS, heartbeat, emergency or SYNC production: traffic, PDO work,
configuration and dictionary stay as they are. -/
structure Quiet (m m' : Machine OD evt dirty) : Prop where
  nodeId : m'.node.nodeId = m.node.nodeId
  od : m'.node.od = m.node.od
  nmt : m'.node.nmt = m.node.nmt
  sdo : m'.node.sdo = m.node.sdo
  tpdo : m'.node.tpdo = m.node.tpdo
  rpdo : m'.node.rpdo = m.node.rpdo
  pendingSyncTpdo : m'.node.pendingSyncTpdo = m.node.pendingSyncTpdo
  booted : m'.node.booted = m.node.booted
  dirtySet : m'.node.dirtySet = m.node.dirtySet
  cob : m'.node.sync.cob = m.node.sync.cob
  window : m'.node.syncWindow = m.node.syncWindow
  producer : m'.node.syncProducer.cobId = m.node.syncProducer.cobId ∧
    m'.node.syncProducer.intervalUs = m.node.syncProducer.intervalUs ∧
    m'.node.syncProducer.overflow = m.node.syncProducer.overflow
  interval : m'.node.heartbeat.intervalUs = m.node.heartbeat.intervalUs
  monitors : m'.node.hbMonitors.map monitorConfig = m.node.hbMonitors.map monitorConfig
  trace : ∃ obs, m'.bus.trace = m.bus.trace ++ obs ∧ ∀ o ∈ obs, Neutral m o

/-- One step of a node. -/
inductive Step (allowed : (OD → OD) → Prop) : Machine OD evt dirty → Machine OD evt dirty → Prop
  | quiet {m m'} (h : Quiet m m') : Step allowed m m'
  | boot {m} (nowUs : UInt64) (h : m.node.booted = false) : Step allowed m (m.boot nowUs).1
  | channel {m} (i : ℕ) {ch ch' : SdoChannel} {b : Bus} (h : m.node.sdo[i]? = some ch)
    (hs : ChannelStep m.state i ch m.bus ch' b) :
    Step allowed m ⟨{ m.node with sdo := m.node.sdo.set i ch' }, b⟩
  | request {m m'} (i : ℕ) {ch : SdoChannel} (request : SdoFrame) (nowUs : UInt64)
    (h : m.node.sdo[i]? = some ch) (serves : m.state.servesSdo = true)
    (free : request.b0 = 0x80 ∨ ch.pending = none)
    (hr : (m.answerRequest i ch request nowUs).1.resync
      (m.answerRequest i ch request nowUs).2 = some m') : Step allowed m m'
  | stateChanged {m} (s : NmtState) (hnew : s ≠ .initializing) (hne : s ≠ m.state)
    (hold : m.state ≠ .initializing) : Step allowed m (m.stateChanged ⟨s⟩)
  | reset {m m'} (resetType : ResetType) (h : m.requestReset resetType = some m') :
    Step allowed m m'
  | receiveRpdo {m} (i : ℕ) {slot : RpdoSlot} (frame : CanFrame) (nowUs : UInt64)
    (operational : m.state = .operational) (h : m.node.rpdo.slots[i]? = some slot) :
    Step allowed m (m.receiveRpdo i slot frame nowUs)
  | pulse {m} (nowUs : UInt64) (operational : m.state = .operational) :
    Step allowed m (m.applyPulse.sendPulse nowUs)
  | retry {m} (nowUs : UInt64) : Step allowed m (m.retryPendingSyncTpdo nowUs)
  | deadlines {m} (nowUs : UInt64) : Step allowed m (m.checkDeadlines nowUs)
  | pollTpdo {m} (nowUs : UInt64) : Step allowed m (m.pollTpdo nowUs)
  | latchSyncEvents {m} : Step allowed m m.latchSyncEvents
  | clearDirty {m} : Step allowed m m.clearDirty
  | notifyChanged {m} (index : UInt16) (subindex : UInt8) :
    Step allowed m (m.notifyChanged index subindex)
  | odMut {m} (f : OD → OD) (h : allowed f) : Step allowed m (m.odMut f)
  | storeErrorRegister {m} (emcy : EmcyProducer)
    (h : allowed (ObjectDictionary.storeErrorRegister · emcy.errorRegister)) :
    Step allowed m { m with node := { m.node with
      emcy := emcy, od := ObjectDictionary.storeErrorRegister m.node.od emcy.errorRegister } }

/-- A sequence of steps. -/
abbrev Steps (allowed : (OD → OD) → Prop) :
    Machine OD evt dirty → Machine OD evt dirty → Prop :=
  Relation.ReflTransGen (Step allowed)

theorem steps_inv {allowed : (OD → OD) → Prop} {P : Machine OD evt dirty → Prop}
    (hstep : ∀ m m', P m → Step allowed m m' → P m') {m m' : Machine OD evt dirty}
    (hs : Steps allowed m m') (h : P m) : P m' := by
  induction hs with
  | refl => exact h
  | tail _ hlast ih => exact hstep _ _ ih hlast

/-! ## Quiet steps -/

section Quiet

omit [ObjectDictionary OD]

theorem quiet_refl (m : Machine OD evt dirty) : Quiet m m where
  nodeId := rfl
  od := rfl
  nmt := rfl
  sdo := rfl
  tpdo := rfl
  rpdo := rfl
  pendingSyncTpdo := rfl
  booted := rfl
  dirtySet := rfl
  cob := rfl
  window := rfl
  producer := ⟨rfl, rfl, rfl⟩
  interval := rfl
  monitors := rfl
  trace := ⟨[], by simp, by simp⟩

theorem quiet_transmit {m m' : Machine OD evt dirty} (h : Quiet m m') {kind : FrameKind}
    (frame : CanFrame) (hkind : kind = .lss ∨ (kind = .heartbeat ∧ m.node.booted) ∨
      (kind = .sync ∧ m.node.booted ∧ m.state ≠ .stopped) ∨
      (kind = .emcy ∧ m.node.booted ∧ m.state.servesSdo)) :
    Quiet m ⟨m'.node, (m.bus.transmit m.state kind frame).2⟩ :=
  { h with
    trace := by
      refine ⟨[.offer kind frame (m.bus.answers.headD .accepted) m.state], rfl, ?_⟩
      intro o ho
      rw [List.mem_singleton] at ho
      exact ⟨kind, frame, _, ho, hkind⟩ }

theorem pushHeartbeatEvent_quiet {m : Machine OD evt dirty} {n : Node OD evt dirty}
    (h : Quiet m ⟨n, m.bus⟩) (events : List HeartbeatEvent) :
    Quiet m ⟨events.foldl Node.pushHeartbeatEvent n, m.bus⟩ := by
  induction events generalizing n with
  | nil => exact h
  | cons e events ih =>
    apply ih
    exact { h with }

theorem lssRequest_quiet (m : Machine OD evt dirty) (frame : CanFrame) :
    Quiet m (m.lssRequest frame) := by
  have hlss : Quiet m ⟨{ m.node with lss := (m.node.lss.process frame).1 }, m.bus⟩ :=
    { quiet_refl m with }
  unfold Machine.lssRequest
  cases hr : (m.node.lss.process frame).2 with
  | none => simpa only [hr] using hlss
  | some response => simpa only [hr] using quiet_transmit hlss response (.inl rfl)

theorem map_monitorConfig_set {l : List (Option HeartbeatMonitor)} {i : ℕ} {m m' : HeartbeatMonitor}
    (h : l[i]? = some (some m)) (hn : m'.nodeId = m.nodeId) (ht : m'.timeoutMs = m.timeoutMs) :
    (l.set i (some m')).map monitorConfig = l.map monitorConfig := by
  rw [List.map_set]
  apply List.ext_getElem?
  intro j
  rw [List.getElem?_set]
  split_ifs with hij hlen
  · subst hij
    rw [List.getElem?_map, h]
    simp [monitorConfig, hn, ht]
  · subst hij
    rw [List.length_map] at hlen
    rw [List.getElem?_eq_none (by rw [List.length_map]; omega)]
  · rfl

theorem monitorFor_get {n : Node OD evt dirty} {frame : CanFrame} {i : ℕ} {m : HeartbeatMonitor}
    (h : n.monitorFor frame = some (i, m)) : n.hbMonitors[i]? = some (some m) := by
  unfold Node.monitorFor at h
  split_ifs at h
  obtain ⟨p, hp, hm⟩ := List.exists_of_findSome?_eq_some h
  have hget := List.mem_zipIdx_iff_getElem?.mp hp
  cases hmon : p.1 with
  | none => simp [hmon] at hm
  | some m' =>
    simp only [hmon, Option.bind_some] at hm
    split_ifs at hm
    simp only [Option.some.injEq, Prod.mk.injEq] at hm
    obtain ⟨rfl, rfl⟩ := hm
    rw [hget, hmon]

theorem heartbeatFrame_quiet {m : Machine OD evt dirty} {frame : CanFrame} {i : ℕ}
    {monitor : HeartbeatMonitor} (h : m.node.monitorFor frame = some (i, monitor))
    (nowUs : UInt64) : Quiet m (m.heartbeatFrame i monitor frame nowUs) := by
  have hconfig := monitor.process_config monitor.nodeId (frame.data.getD 0 0) nowUs
  apply pushHeartbeatEvent_quiet
  exact { quiet_refl m with
    monitors := map_monitorConfig_set (monitorFor_get h) hconfig.1 hconfig.2 }

theorem checkHeartbeats_quiet (m : Machine OD evt dirty) (nowUs : UInt64) :
    Quiet m (m.checkHeartbeats nowUs) := by
  apply pushHeartbeatEvent_quiet
  refine { quiet_refl m with monitors := ?_ }
  simp only [List.map_map]
  apply List.map_congr_left
  intro monitor _
  cases monitor with
  | none => rfl
  | some monitor =>
    have hconfig := monitor.checkTimeout_config nowUs
    simp [monitorConfig, hconfig.1, hconfig.2]

theorem sendHeartbeat_quiet (m : Machine OD evt dirty) (nowUs : UInt64) :
    Quiet m (m.sendHeartbeat nowUs) := by
  unfold Machine.sendHeartbeat
  by_cases hb : m.node.booted
  · rw [if_pos hb]
    cases m.node.heartbeat.pending nowUs m.state with
    | none => exact quiet_refl m
    | some frame =>
      dsimp only
      split_ifs
      · have hsent : Quiet m ⟨{ m.node with
            heartbeat := m.node.heartbeat.confirmSent nowUs }, m.bus⟩ := { quiet_refl m with }
        exact quiet_transmit hsent frame (.inr (.inl ⟨rfl, hb⟩))
      · exact quiet_transmit (quiet_refl m) frame (.inr (.inl ⟨rfl, hb⟩))
  · rw [if_neg hb]
    exact quiet_refl m

theorem quiet_trans {m m' m'' : Machine OD evt dirty} (h : Quiet m m') (h' : Quiet m' m'') :
    Quiet m m'' where
  nodeId := h'.nodeId.trans h.nodeId
  od := h'.od.trans h.od
  nmt := h'.nmt.trans h.nmt
  sdo := h'.sdo.trans h.sdo
  tpdo := h'.tpdo.trans h.tpdo
  rpdo := h'.rpdo.trans h.rpdo
  pendingSyncTpdo := h'.pendingSyncTpdo.trans h.pendingSyncTpdo
  booted := h'.booted.trans h.booted
  dirtySet := h'.dirtySet.trans h.dirtySet
  cob := h'.cob.trans h.cob
  window := h'.window.trans h.window
  producer := ⟨h'.producer.1.trans h.producer.1, h'.producer.2.1.trans h.producer.2.1,
    h'.producer.2.2.trans h.producer.2.2⟩
  interval := h'.interval.trans h.interval
  monitors := h'.monitors.trans h.monitors
  trace := by
    obtain ⟨obs, hobs, hn⟩ := h.trace
    obtain ⟨obs', hobs', hn'⟩ := h'.trace
    have hstate : m'.state = m.state := by rw [Machine.state, Machine.state, h.nmt]
    refine ⟨obs ++ obs', by rw [hobs', hobs, List.append_assoc], ?_⟩
    intro o ho
    rcases List.mem_append.mp ho with ho | ho
    · exact hn o ho
    · simpa only [Neutral, hstate, h.booted] using hn' o ho

theorem sendEmcys_quiet (k : ℕ) {m : Machine OD evt dirty} (hb : m.node.booted = true)
    (hs : m.state.servesSdo = true) : Quiet m (Machine.sendEmcys k m) := by
  induction k generalizing m with
  | zero => exact quiet_refl m
  | succ k ih =>
    unfold Machine.sendEmcys
    cases m.node.emcy.peekPending with
    | none => exact quiet_refl m
    | some frame =>
      have hkind : FrameKind.emcy = .lss ∨ (FrameKind.emcy = .heartbeat ∧ m.node.booted) ∨
          (FrameKind.emcy = .sync ∧ m.node.booted ∧ m.state ≠ .stopped) ∨
          (FrameKind.emcy = .emcy ∧ m.node.booted ∧ m.state.servesSdo) :=
        .inr (.inr (.inr ⟨rfl, hb, hs⟩))
      dsimp only
      split_ifs
      · have htaken : Quiet m ⟨{ m.node with emcy := m.node.emcy.takePending }, m.bus⟩ :=
          { quiet_refl m with }
        exact quiet_trans (quiet_transmit htaken frame hkind) (ih hb hs)
      · exact quiet_transmit (quiet_refl m) frame hkind

theorem sendEmcy_quiet (m : Machine OD evt dirty) : Quiet m m.sendEmcy := by
  unfold Machine.sendEmcy
  split_ifs with h
  · rw [Bool.and_eq_true] at h
    exact sendEmcys_quiet _ h.1 h.2
  · exact quiet_refl m

theorem syncCounter_quiet (m : Machine OD evt dirty) (frame : CanFrame) :
    Quiet m ⟨{ m.node with sync := (m.node.sync.process frame).1 }, m.bus⟩ :=
  { quiet_refl m with cob := m.node.sync.process_cob frame }

theorem setProducer_quiet (m : Machine OD evt dirty) {p : SyncProducer}
    (hp : p.cobId = m.node.syncProducer.cobId ∧ p.intervalUs = m.node.syncProducer.intervalUs ∧
      p.overflow = m.node.syncProducer.overflow) :
    Quiet m ⟨{ m.node with syncProducer := p }, m.bus⟩ :=
  { quiet_refl m with producer := hp }

end Quiet

/-! ## Calls as sequences of steps -/

section Calls

variable {allowed : (OD → OD) → Prop}

theorem quiet_steps {m m' : Machine OD evt dirty} (h : Quiet m m') : Steps allowed m m' :=
  .single (.quiet h)

theorem handleSync_steps (m : Machine OD evt dirty) (nowUs : UInt64) :
    Steps allowed m (m.handleSync nowUs) := by
  unfold Machine.handleSync
  split_ifs with h
  · exact .single (.pulse nowUs h)
  · exact .refl

theorem syncFrame_steps (m : Machine OD evt dirty) (frame : CanFrame) (nowUs : UInt64) :
    Steps allowed m (m.syncFrame frame nowUs) := by
  unfold Machine.syncFrame
  have hcounter : Steps allowed m ⟨{ m.node with sync := (m.node.sync.process frame).1 }, m.bus⟩ :=
    quiet_steps (syncCounter_quiet m frame)
  dsimp only
  split_ifs
  · exact hcounter.trans (handleSync_steps _ nowUs)
  · exact hcounter

theorem produceSync_steps (m : Machine OD evt dirty) (nowUs : UInt64) :
    Steps allowed m (m.produceSync nowUs) := by
  unfold Machine.produceSync
  split_ifs with h
  · rw [Bool.and_eq_true, bne_iff_ne] at h
    have hpoll := m.node.syncProducer.poll_config nowUs
    cases hf : (m.node.syncProducer.poll nowUs).2 with
    | none => simpa only [hf] using quiet_steps (setProducer_quiet m hpoll)
    | some frame =>
      simp only [hf]
      split_ifs
      · have hsent := setProducer_quiet m (p := (m.node.syncProducer.poll nowUs).1.confirmSent nowUs)
          hpoll
        exact (quiet_steps (quiet_transmit hsent frame (.inr (.inr (.inl ⟨rfl, h.1, h.2⟩))))).trans
          (handleSync_steps _ nowUs)
      · exact quiet_steps (quiet_transmit (setProducer_quiet m hpoll) frame
          (.inr (.inr (.inl ⟨rfl, h.1, h.2⟩))))
  · exact .refl

theorem processRpdoFrame_steps (m : Machine OD evt dirty) (frame : CanFrame) (nowUs : UInt64) :
    Steps allowed m (m.processRpdoFrame frame nowUs) := by
  unfold Machine.processRpdoFrame
  split_ifs with h
  · cases m.node.rpdo.slotFor frame with
    | none => exact .refl
    | some i =>
      dsimp only
      cases hs : m.node.rpdo.slots[i]? with
      | none => exact .refl
      | some slot => exact .single (.receiveRpdo i frame nowUs h hs)
  · exact .refl

theorem handleSdoRequest_steps {m m' : Machine OD evt dirty} {i : ℕ} {frame : CanFrame}
    {nowUs : UInt64} (h : m.handleSdoRequest i frame nowUs = some m') : Steps allowed m m' := by
  unfold Machine.handleSdoRequest at h
  cases hch : m.node.sdo[i]? with
  | none =>
    rw [hch] at h
    cases h
    exact .refl
  | some ch =>
    simp only [hch] at h
    split_ifs at h with hserve hbusy
    · cases h
      exact .refl
    · cases h
      exact .refl
    · simp only [Bool.or_eq_true, Bool.not_eq_true', bne_iff_ne, not_or] at hserve
      simp only [Bool.and_eq_true, bne_iff_ne, not_and_or, not_not] at hbusy
      refine .single (.request i _ nowUs hch (by simpa using hserve.1) ?_ h)
      rcases hbusy with hb | hb
      · exact .inl hb
      · exact .inr (by simpa using hb)

theorem nmtCommand_steps {m m' : Machine OD evt dirty} {cmd : NmtCommand} {target : UInt8}
    (h : m.nmtCommand cmd target = some m') : Steps allowed m m' := by
  unfold Machine.nmtCommand at h
  rcases m.node.nmt.processCommand_cases cmd target m.node.nodeId with
    hc | ⟨s, hnew, hne, hold, -, hc⟩ | hc | hc <;> rw [hc] at h
  · cases h
    exact .refl
  · cases h
    exact .single (.stateChanged s hnew hne hold)
  · exact .single (.reset .application h)
  · exact .single (.reset .communication h)

theorem dispatchFrame_steps {m m' : Machine OD evt dirty} {frame : CanFrame} {nowUs : UInt64}
    (h : m.dispatchFrame frame nowUs = some m') : Steps allowed m m' := by
  unfold Machine.dispatchFrame at h
  cases hx : m.node.extraChannel frame with
  | some i =>
    rw [hx] at h
    exact handleSdoRequest_steps h
  | none =>
    simp only [hx] at h
    split_ifs at h
    · cases h
      exact syncFrame_steps m frame nowUs
    · unfold Machine.nmtFrame at h
      split_ifs at h
      · cases hcmd : NmtCommand.fromByte (frame.data.getD 0 0) with
        | none =>
          rw [hcmd] at h
          cases h
          exact .refl
        | some cmd =>
          rw [hcmd] at h
          exact nmtCommand_steps h
      · cases h
        exact .refl
    · exact handleSdoRequest_steps h
    · cases h
      exact quiet_steps (lssRequest_quiet m frame)
    · cases hm : m.node.monitorFor frame with
      | none =>
        rw [hm] at h
        cases h
        exact processRpdoFrame_steps m frame nowUs
      | some p =>
        rw [hm] at h
        cases h
        exact quiet_steps (heartbeatFrame_quiet hm nowUs)

theorem onChannel_steps {f : SdoChannel → Bus → SdoChannel × Bus} {i : ℕ}
    {m : Machine OD evt dirty}
    (hf : ∀ ch, m.node.sdo[i]? = some ch →
      Steps allowed m ⟨{ m.node with sdo := m.node.sdo.set i (f ch m.bus).1 }, (f ch m.bus).2⟩) :
    Steps allowed m (m.onChannel i f) := by
  unfold Machine.onChannel
  cases h : m.node.sdo[i]? with
  | none => exact .refl
  | some ch => exact hf ch h

theorem channel_steps {m : Machine OD evt dirty} {i : ℕ} {ch ch' ch'' : SdoChannel} {b b' : Bus}
    (hch : m.node.sdo[i]? = some ch) (hs : ChannelStep m.state i ch m.bus ch' b)
    (hrest : Steps allowed (⟨{ m.node with sdo := m.node.sdo.set i ch' }, b⟩ : Machine OD evt dirty)
      ⟨{ m.node with sdo := (m.node.sdo.set i ch').set i ch'' }, b'⟩) :
    Steps allowed m ⟨{ m.node with sdo := m.node.sdo.set i ch'' }, b'⟩ := by
  rw [List.set_set] at hrest
  exact .head (.channel i hch hs) hrest

theorem set_self_steps {m : Machine OD evt dirty} {i : ℕ} {ch : SdoChannel}
    (hch : m.node.sdo[i]? = some ch) :
    Steps allowed m ⟨{ m.node with sdo := m.node.sdo.set i ch }, m.bus⟩ := by
  obtain ⟨hi, hget⟩ := List.getElem?_eq_some_iff.mp hch
  rw [← hget, List.set_getElem_self]

/-- The segments of a block upload go out one by one. -/
theorem sendSegments_steps (nowUs : UInt64) (i k : ℕ) {m : Machine OD evt dirty} {ch : SdoChannel}
    (hch : m.node.sdo[i]? = some ch) :
    Steps allowed m ⟨{ m.node with
      sdo := m.node.sdo.set i (SdoChannel.sendSegments m.state nowUs i k ch m.bus).1 },
      (SdoChannel.sendSegments m.state nowUs i k ch m.bus).2⟩ := by
  induction k generalizing m ch with
  | zero => exact set_self_steps hch
  | succ k ih =>
    have hi := (List.getElem?_eq_some_iff.mp hch).1
    unfold SdoChannel.sendSegments
    split_ifs with hpend
    · exact set_self_steps hch
    · have free : ch.pending = none := by simpa using hpend
      cases hpoll : ch.server.pollBlockUpload nowUs with
      | mk server response =>
        cases response with
        | none => exact set_self_steps hch
        | some data =>
          dsimp only
          apply channel_steps hch (.nextSegment m.bus free hpoll)
          apply channel_steps (by rw [List.getElem?_set_self hi]) (.trySend _ _)
          apply ih
          exact List.getElem?_set_self (by rw [List.length_set]; exact hi)

theorem service_steps (nowUs : UInt64) (i : ℕ) (m : Machine OD evt dirty) :
    Steps allowed m (m.onChannel i (SdoChannel.service m.state nowUs i)) := by
  apply onChannel_steps
  intro ch hch
  have hi := (List.getElem?_eq_some_iff.mp hch).1
  unfold SdoChannel.service
  apply channel_steps hch (.trySend ch m.bus)
  apply sendSegments_steps
  exact List.getElem?_set_self hi

theorem beginPoll_steps (nowUs : UInt64) (i : ℕ) (m : Machine OD evt dirty) :
    Steps allowed m (m.onChannel i (SdoChannel.beginPoll nowUs i)) := by
  apply onChannel_steps
  intro ch hch
  exact .single (.channel i hch (.beginPoll nowUs ch m.bus))

omit [ObjectDictionary OD] in
theorem onChannel_state (m : Machine OD evt dirty) (i : ℕ)
    (f : SdoChannel → Bus → SdoChannel × Bus) : (m.onChannel i f).state = m.state := by
  unfold Machine.onChannel
  split <;> rfl

theorem onChannels_steps {f : ℕ → SdoChannel → Bus → SdoChannel × Bus} (state : NmtState)
    (hf : ∀ (m : Machine OD evt dirty) (i : ℕ), m.state = state →
      Steps allowed m (m.onChannel i (f i)))
    {m : Machine OD evt dirty} (hm : m.state = state) : Steps allowed m (m.onChannels f) := by
  unfold Machine.onChannels
  induction List.range m.node.sdo.length generalizing m with
  | nil => exact .refl
  | cons i is ih =>
    exact (hf m i hm).trans (ih ((onChannel_state m i (f i)).trans hm))

theorem transmitStages_steps (m : Machine OD evt dirty) (nowUs : UInt64) :
    Steps allowed m (m.transmitStages nowUs) := by
  unfold Machine.transmitStages
  have hservice : Steps allowed m (m.onChannels (SdoChannel.service m.state nowUs)) := by
    apply onChannels_steps m.state
    · intro m' i hm
      rw [← hm]
      exact service_steps nowUs i m'
    · rfl
  refine hservice.trans ((produceSync_steps _ nowUs).trans ?_)
  refine .head (.retry nowUs) (.head (.deadlines nowUs) ?_)
  refine (quiet_steps (sendHeartbeat_quiet _ nowUs)).trans ?_
  refine (quiet_steps (checkHeartbeats_quiet _ nowUs)).trans ?_
  refine (quiet_steps (sendEmcy_quiet _)).trans ?_
  exact .head (.pollTpdo nowUs) (.single .clearDirty)

theorem dispatchFrames_steps {rx : List CanFrame} {nowUs : UInt64} {m m' : Machine OD evt dirty}
    (h : rx.foldlM (fun m frame => m.dispatchFrame frame nowUs) m = some m') :
    Steps allowed m m' := by
  induction rx generalizing m with
  | nil =>
    cases h
    exact .refl
  | cons frame rx ih =>
    rw [List.foldlM_cons] at h
    obtain ⟨m₁, h₁, h₂⟩ := Option.bind_eq_some_iff.mp h
    exact (dispatchFrame_steps h₁).trans (ih h₂)

theorem boot_steps (m : Machine OD evt dirty) (nowUs : UInt64) :
    Steps allowed m (m.boot nowUs).1 := by
  by_cases h : m.node.booted
  · unfold Machine.boot
    rw [if_pos h]
  · exact .single (.boot nowUs (by simpa using h))

theorem receive_steps {m m' : Machine OD evt dirty} {nowUs : UInt64} {rx : List CanFrame}
    (h : m.receive nowUs rx = some m') : Steps allowed m m' := by
  have hpoll : Steps allowed m.latchSyncEvents
      (m.latchSyncEvents.onChannels (SdoChannel.beginPoll nowUs)) := by
    apply onChannels_steps m.latchSyncEvents.state
    · intro m' i _
      exact beginPoll_steps nowUs i m'
    · rfl
  exact .head .latchSyncEvents (hpoll.trans (dispatchFrames_steps h))

theorem process_steps {m m' : Machine OD evt dirty} {nowUs : UInt64} {rx : List CanFrame}
    (h : m.process nowUs rx = some m') : Steps allowed m m' := by
  unfold Machine.process at h
  apply (boot_steps m nowUs).trans
  cases hb : m.boot nowUs with
  | mk m₁ running =>
    simp only [hb] at h
    split_ifs at h
    · obtain ⟨m₂, h₂, rfl⟩ := Option.map_eq_some_iff.mp h
      exact (receive_steps h₂).trans (transmitStages_steps m₂ nowUs)
    · cases h
      exact .refl

theorem answers_steps (m : Machine OD evt dirty) (answers : List TxResult) :
    Steps allowed m { m with bus := { m.bus with answers := answers } } :=
  quiet_steps { quiet_refl m with }

theorem setEmcy_steps (m : Machine OD evt dirty) (emcy : EmcyProducer)
    (hstore : ∀ v, allowed (ObjectDictionary.storeErrorRegister · v)) :
    Steps allowed m (m.setEmcy emcy) := by
  unfold Machine.setEmcy Machine.mirrorErrorRegister
  refine .head (.storeErrorRegister emcy (hstore _)) ?_
  dsimp only
  split_ifs
  · exact .single (.notifyChanged 0x1001 0)
  · exact .refl

theorem call_steps {m m' : Machine OD evt dirty} {c : Call OD}
    (hstore : ∀ v, allowed (ObjectDictionary.storeErrorRegister · v))
    (hallowed : ∀ f, c = .odMut f → allowed f) (h : m.call c = some m') : Steps allowed m m' := by
  cases c with
  | process nowUs rx answers =>
    exact (answers_steps m answers).trans (process_steps h)
  | requestReset resetType => exact .single (.reset resetType h)
  | notifyChanged index subindex =>
    cases h
    exact .single (.notifyChanged index subindex)
  | setError code bits data =>
    cases h
    exact setEmcy_steps m _ hstore
  | clearError bits =>
    cases h
    exact setEmcy_steps m _ hstore
  | clearAllErrors =>
    cases h
    exact setEmcy_steps m _ hstore
  | odMut f =>
    cases h
    exact .single (.odMut f (hallowed f rfl))
  | nextEvent =>
    cases h
    exact quiet_steps { quiet_refl m with }
  | nextHeartbeatEvent =>
    cases h
    exact quiet_steps { quiet_refl m with }
  | takeResetEvent =>
    cases h
    exact quiet_steps { quiet_refl m with }

theorem run_steps {m m' : Machine OD evt dirty} {calls : List (Call OD)}
    (hstore : ∀ v, allowed (ObjectDictionary.storeErrorRegister · v))
    (hallowed : ∀ f, .odMut f ∈ calls → allowed f) (h : m.run calls = some m') :
    Steps allowed m m' := by
  induction calls generalizing m with
  | nil =>
    cases h
    exact .refl
  | cons c calls ih =>
    unfold Machine.run at h
    rw [List.foldlM_cons] at h
    obtain ⟨m₁, h₁, h₂⟩ := Option.bind_eq_some_iff.mp h
    have hc : Steps allowed m m₁ :=
      call_steps hstore (fun f hf => hallowed f (hf ▸ List.mem_cons_self)) h₁
    exact hc.trans (ih (fun f hf => hallowed f (List.mem_cons_of_mem c hf)) h₂)

theorem visited_steps {n : Node OD evt dirty} {m : Machine OD evt dirty} (h : Visited n m) :
    Steps (fun _ => True) (Machine.start n) m := by
  cases h with
  | between h => exact run_steps (fun _ => trivial) (fun _ _ => trivial) h
  | @batch calls m₀ m₁ _ nowUs rx answers h hboot hrx =>
    apply (run_steps (fun _ => trivial) (fun _ _ => trivial) h).trans
    apply (answers_steps m₀ answers).trans
    have hsteps : Steps (fun _ => True) { m₀ with bus := { m₀.bus with answers := answers } }
        (Machine.boot { m₀ with bus := { m₀.bus with answers := answers } } nowUs).1 :=
      boot_steps _ nowUs
    rw [hboot] at hsteps
    exact hsteps.trans (receive_steps hrx)

theorem visited_inv {P : Machine OD evt dirty → Prop}
    (hstep : ∀ m m', P m → Step (fun _ => True) m m' → P m') {n : Node OD evt dirty}
    {m : Machine OD evt dirty} (h : Visited n m) (hstart : P (Machine.start n)) : P m :=
  steps_inv hstep (visited_steps h) hstart

end Calls
end Canopen
