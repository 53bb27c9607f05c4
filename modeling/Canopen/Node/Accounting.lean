import Canopen.Node.Collisions

/-!
# Accounting of events

Every event is handed to the application, still queued, or counted as dropped. A
committed download, a written receive-PDO mapping and an expired deadline leave a
record, so the events of the dictionary are read off the trace; the events of the
heartbeat monitors and what the application takes are entered into a ledger that
goes with the run. Each producer evicts and counts in its own way; what they have
in common is stated once, as appending a batch to both queues.
-/

namespace Canopen

open Derive Pdo Sdo

variable {OD : Type} [ObjectDictionary OD] {evt dirty : ℕ}

/-! ## Produced events -/

/-- The event a record stands for. `number` is the number under which the deadline of
a receive PDO is reported. -/
def Obs.odEvent (number : ℕ → Option UInt16) : Obs → Option OdEvent
  | .odWrite (.sdo _) w _ => if w.accepted then some ⟨w.index, w.subindex, .sdo⟩ else none
  | .odWrite .rpdo w _ => if w.accepted then some ⟨w.index, w.subindex, .rpdo⟩ else none
  | .deadlineExpired i => (number i).map fun k => ⟨0x1400 + (k - 1), 0, .rpdoDeadline⟩
  | _ => none

def producedEvents (number : ℕ → Option UInt16) (trace : List Obs) : List OdEvent :=
  trace.filterMap (Obs.odEvent number)

/-- The number of the receive PDO in a slot, if it is one that can be reported. -/
def NodeConfig.rpdoNumber (config : NodeConfig) (i : ℕ) : Option UInt16 :=
  config.rpdo[i]?.bind (RpdoEngine.reportedNumber i)

namespace Machine

def frameHbEvents (m : Machine OD evt dirty) (frame : CanFrame) (nowUs : UInt64) :
    List HeartbeatEvent :=
  match m.node.extraChannel frame with
  | some _ => []
  | none =>
    if m.node.sync.cobId = some frame.id ∨ frame.id = CobId.nmt ∨
        frame.id = CobId.sdoRx m.node.nodeId ∨ frame.id = lssRequestCob then []
    else
      match m.node.monitorFor frame with
      | some (_, monitor) => (monitor.process monitor.nodeId (frame.data.getD 0 0) nowUs).2
      | none => []

/-- The monitors that time out now. -/
def timeoutHbEvents (m : Machine OD evt dirty) (nowUs : UInt64) : List HeartbeatEvent :=
  (m.node.hbMonitors.map (·.map (·.checkTimeout nowUs))).filterMap fun r => r.bind (·.2)

def receiveHbEvents (nowUs : UInt64) : List CanFrame → Machine OD evt dirty → List HeartbeatEvent
  | [], _ => []
  | frame :: rx, m =>
    m.frameHbEvents frame nowUs ++
      match m.dispatchFrame frame nowUs with
      | some m' => receiveHbEvents nowUs rx m'
      | none => []

/-- The stages before the heartbeat monitors are checked. -/
def earlyStages (m : Machine OD evt dirty) (nowUs : UInt64) : Machine OD evt dirty :=
  let m := m.onChannels (SdoChannel.service m.state nowUs)
  let m := m.produceSync nowUs
  let m := m.retryPendingSyncTpdo nowUs
  let m := m.checkDeadlines nowUs
  m.sendHeartbeat nowUs

def processHbEvents (m : Machine OD evt dirty) (nowUs : UInt64) (rx : List CanFrame) :
    List HeartbeatEvent :=
  let (m, running) := m.boot nowUs
  if running then
    receiveHbEvents nowUs rx (m.latchSyncEvents.onChannels (SdoChannel.beginPoll nowUs)) ++
      match m.receive nowUs rx with
      | some m' => (m'.earlyStages nowUs).timeoutHbEvents nowUs
      | none => []
  else []

end Machine

/-! ## Batches -/

def Node.queues (n : Node OD evt dirty) :
    Deque OdEvent evt × Deque HeartbeatEvent 8 × UInt32 :=
  (n.eventQueue, n.hbEventQueue, n.eventOverflowCount)

/-- From `m` to `m'` the recorded events and the heartbeat events `hb` were appended to
the queues, and every eviction was counted. -/
structure Posts (number : ℕ → Option UInt16) (m m' : Machine OD evt dirty) (obs : List Obs)
    (hb : List HeartbeatEvent) : Prop where
  trace : m'.bus.trace = m.bus.trace ++ obs
  events : m'.node.eventQueue = m.node.eventQueue.pushAll (producedEvents number obs)
  heartbeats : m'.node.hbEventQueue = m.node.hbEventQueue.pushAll hb
  count : m'.node.eventOverflowCount.toNat = min (m.node.eventOverflowCount.toNat +
    m.node.eventQueue.evictions (producedEvents number obs) + m.node.hbEventQueue.evictions hb)
    0xFFFFFFFF

/-- Records that stand for no event. -/
def Obs.isSilent : Obs → Bool
  | .odWrite _ _ _ => false
  | .deadlineExpired _ => false
  | _ => true

theorem producedEvents_silent (number : ℕ → Option UInt16) {obs : List Obs}
    (h : ∀ o ∈ obs, o.isSilent = true) : producedEvents number obs = [] := by
  apply List.filterMap_eq_nil_iff.mpr
  intro o ho
  cases o with
  | odWrite source w state => cases h _ ho
  | deadlineExpired i => cases h _ ho
  | _ => rfl

theorem producedEvents_append (number : ℕ → Option UInt16) (obs obs' : List Obs) :
    producedEvents number (obs ++ obs') = producedEvents number obs ++ producedEvents number obs' :=
  List.filterMap_append

section Posts

omit [ObjectDictionary OD]

variable {number : ℕ → Option UInt16} {m m' m'' : Machine OD evt dirty} {obs obs' : List Obs}
  {hb hb' : List HeartbeatEvent}

theorem Posts.trans (h : Posts number m m' obs hb) (h' : Posts number m' m'' obs' hb') :
    Posts number m m'' (obs ++ obs') (hb ++ hb') where
  trace := by rw [h'.trace, h.trace, List.append_assoc]
  events := by rw [h'.events, h.events, producedEvents_append, Deque.pushAll_append]
  heartbeats := by rw [h'.heartbeats, h.heartbeats, Deque.pushAll_append]
  count := by
    have hcount := h.count
    have hcount' := h'.count
    rw [h.events, h.heartbeats] at hcount'
    rw [producedEvents_append, Deque.evictions_append, Deque.evictions_append]
    omega

end Posts

/-! ## Silent stages -/

/-- A step that keeps the queues and the count and records no event. -/
def Silent (m m' : Machine OD evt dirty) : Prop :=
  m'.node.queues = m.node.queues ∧
    ∃ obs, m'.bus.trace = m.bus.trace ++ obs ∧ ∀ o ∈ obs, o.isSilent = true

section Silent

omit [ObjectDictionary OD]

variable {m m' m'' : Machine OD evt dirty}

theorem silent_refl (m : Machine OD evt dirty) : Silent m m :=
  ⟨rfl, [], (List.append_nil _).symm, by simp⟩

theorem Silent.trans (h : Silent m m') (h' : Silent m' m'') : Silent m m'' := by
  obtain ⟨hqueues, obs, htrace, hobs⟩ := h
  obtain ⟨hqueues', obs', htrace', hobs'⟩ := h'
  refine ⟨hqueues'.trans hqueues, obs ++ obs', ?_, ?_⟩
  · rw [htrace', htrace, List.append_assoc]
  · intro o ho
    rcases List.mem_append.mp ho with ho | ho
    · exact hobs o ho
    · exact hobs' o ho

theorem Silent.posts (h : Silent m m') (number : ℕ → Option UInt16) :
    ∃ obs, Posts number m m' obs [] := by
  obtain ⟨hqueues, obs, htrace, hobs⟩ := h
  simp only [Node.queues, Prod.mk.injEq] at hqueues
  obtain ⟨hevents, hheartbeats, hcount⟩ := hqueues
  have hlt := m.node.eventOverflowCount.toNat_lt
  refine ⟨obs, htrace, ?_, hheartbeats, ?_⟩
  · rw [hevents, producedEvents_silent number hobs]
    rfl
  · rw [hcount, producedEvents_silent number hobs]
    change _ = min (_ + 0 + 0) _
    omega

theorem silent_of_quiet (h : Quiet m m') (hqueues : m'.node.queues = m.node.queues) :
    Silent m m' := by
  obtain ⟨obs, htrace, hobs⟩ := h.trace
  refine ⟨hqueues, obs, htrace, ?_⟩
  intro o ho
  obtain ⟨kind, frame, result, rfl, -⟩ := hobs o ho
  rfl

theorem isSilent_of_channel {o : Obs} (h : o.ofChannel = true) : o.isSilent = true := by
  cases o with
  | odWrite source w state => cases h
  | deadlineExpired i => cases h
  | _ => rfl

theorem isSilent_abortObs {sdo : List SdoChannel} : ∀ o ∈ abortObs sdo, o.isSilent = true := by
  intro o ho
  obtain ⟨i, frame, reason, idle, rfl⟩ := mem_abortObs ho
  rfl

theorem isSilent_latchObs {selected : TpdoSlot → Bool} {dirtySet : List (UInt16 × UInt8)}
    {slots : List TpdoSlot} : ∀ o ∈ latchObs selected dirtySet slots, o.isSilent = true := by
  intro o ho
  obtain ⟨i, addr, rfl⟩ := mem_latchObs ho
  rfl

theorem boot_silent (m : Machine OD evt dirty) (nowUs : UInt64) : Silent m (m.boot nowUs).1 := by
  by_cases hb : m.node.booted
  · rw [Machine.boot, if_pos hb]
    exact silent_refl m
  · obtain ⟨heartbeat, frame, result, ⟨hnode, htrace⟩ | ⟨nmt, -, hnode, htrace⟩⟩ :=
      boot_cases (by simpa using hb) nowUs
    · exact ⟨by rw [hnode]; rfl, _, htrace, by simp [Obs.isSilent]⟩
    · exact ⟨by rw [hnode]; rfl, _, htrace, by simp [Obs.isSilent]⟩

/-- Only the observations of the channel itself go to the bus. -/
def ChannelOnly (b b' : Bus) : Prop :=
  ∃ obs, b'.trace = b.trace ++ obs ∧ ∀ o ∈ obs, o.ofChannel = true

theorem ChannelOnly.trans {b b' b'' : Bus} (h : ChannelOnly b b') (h' : ChannelOnly b' b'') :
    ChannelOnly b b'' := by
  obtain ⟨obs, htrace, hobs⟩ := h
  obtain ⟨obs', htrace', hobs'⟩ := h'
  refine ⟨obs ++ obs', ?_, ?_⟩
  · rw [htrace', htrace, List.append_assoc]
  · intro o ho
    rcases List.mem_append.mp ho with ho | ho
    · exact hobs o ho
    · exact hobs' o ho

theorem sendSegments_channelOnly (state : NmtState) (nowUs : UInt64) (i k : ℕ) (ch : SdoChannel)
    (b : Bus) : ChannelOnly b (ch.sendSegments state nowUs i k b).2 := by
  have hrefl (b : Bus) : ChannelOnly b b := ⟨[], (List.append_nil _).symm, by simp⟩
  induction k generalizing ch b with
  | zero => exact hrefl b
  | succ k ih =>
    unfold SdoChannel.sendSegments
    split_ifs
    · exact hrefl b
    · split
      · exact hrefl b
      · next server data _ =>
        have hlogged : ChannelOnly b (b.log [.sdoProduced i data nowUs]) := ⟨_, rfl, by simp [Obs.ofChannel]⟩
        have hsent := channelStep_ofChannel (.trySend ({ ch with server := server }.queue data nowUs)
          (b.log [.sdoProduced i data nowUs]) : ChannelStep state i _ _ _ _)
        exact hlogged.trans (ChannelOnly.trans hsent (ih _ _))

theorem service_channelOnly (state : NmtState) (nowUs : UInt64) (i : ℕ) (ch : SdoChannel) (b : Bus) :
    ChannelOnly b (ch.service state nowUs i b).2 :=
  ChannelOnly.trans (channelStep_ofChannel (.trySend ch b : ChannelStep state i _ _ _ _))
    (sendSegments_channelOnly state nowUs i 127 _ _)

theorem onChannels_silent {f : ℕ → SdoChannel → Bus → SdoChannel × Bus}
    (hf : ∀ i ch b, ChannelOnly b (f i ch b).2) (m : Machine OD evt dirty) :
    Silent m (m.onChannels f) := by
  unfold Machine.onChannels
  generalize List.range m.node.sdo.length = indices
  induction indices generalizing m with
  | nil => exact silent_refl m
  | cons i indices ih =>
    have hone : Silent m (m.onChannel i (f i)) := by
      unfold Machine.onChannel
      split
      · next ch _ =>
        obtain ⟨obs, htrace, hobs⟩ := hf i ch m.bus
        exact ⟨rfl, obs, htrace, fun o ho => isSilent_of_channel (hobs o ho)⟩
      · exact silent_refl m
    exact hone.trans (ih _)

theorem retryPendingSyncTpdo_silent (m : Machine OD evt dirty) (nowUs : UInt64) :
    Silent m (m.retryPendingSyncTpdo nowUs) := by
  rcases retryPendingSyncTpdo_cases m nowUs with heq | heq | ⟨-, last, heq⟩
  · rw [heq]
    exact silent_refl m
  · rw [heq]
    exact silent_refl m
  · rw [heq]
    obtain ⟨obs, htrace, hobs⟩ :=
      transmitAll_trace m.state .syncTpdo m.node.pendingSyncTpdo m.bus
    refine ⟨rfl, obs, htrace, ?_⟩
    intro o ho
    obtain ⟨frame, -, result, rfl⟩ := hobs o ho
    rfl

theorem sendPulse_silent [ObjectDictionary OD] (m : Machine OD evt dirty) (nowUs : UInt64) :
    Silent m (m.sendPulse nowUs) := by
  obtain ⟨obs, htrace, hobs⟩ := sendPulse_trace m nowUs
  refine ⟨rfl, _, htrace, ?_⟩
  intro o ho
  rcases List.mem_append.mp ho with ho | ho
  · obtain ⟨i, slot, rfl, -⟩ := mem_sampledObs ho
    rfl
  · rcases List.mem_cons.mp ho with rfl | ho
    · rfl
    · obtain ⟨frame, -, result, rfl⟩ := hobs o ho
      rfl

theorem stateChanged_silent (m : Machine OD evt dirty) (s : NmtState) :
    Silent m (m.stateChanged ⟨s⟩) := by
  refine ⟨?_, _, stateChanged_trace m s, ?_⟩
  · rw [stateChanged_node]
    dsimp only
    split_ifs <;> rfl
  · intro o ho
    rcases List.mem_cons.mp ho with rfl | ho
    · rfl
    · split_ifs at ho
      · exact isSilent_abortObs o ho
      · cases ho

theorem lssRequest_silent (m : Machine OD evt dirty) (frame : CanFrame) :
    Silent m (m.lssRequest frame) := by
  apply silent_of_quiet (lssRequest_quiet m frame)
  unfold Machine.lssRequest
  dsimp only
  split <;> rfl

theorem sendHeartbeat_silent (m : Machine OD evt dirty) (nowUs : UInt64) :
    Silent m (m.sendHeartbeat nowUs) := by
  apply silent_of_quiet (sendHeartbeat_quiet m nowUs)
  unfold Machine.sendHeartbeat
  dsimp only
  split_ifs
  · split
    · split_ifs <;> rfl
    · rfl
  · rfl

theorem sendEmcys_queues (k : ℕ) (m : Machine OD evt dirty) :
    (Machine.sendEmcys k m).node.queues = m.node.queues := by
  induction k generalizing m with
  | zero => rfl
  | succ k ih =>
    unfold Machine.sendEmcys
    dsimp only
    split
    · split_ifs
      · exact ih _
      · rfl
    · rfl

theorem sendEmcy_silent (m : Machine OD evt dirty) : Silent m m.sendEmcy := by
  apply silent_of_quiet (sendEmcy_quiet m)
  unfold Machine.sendEmcy
  split_ifs
  · exact sendEmcys_queues _ m
  · rfl

theorem pollTpdo_silent [ObjectDictionary OD] (m : Machine OD evt dirty) (nowUs : UInt64) :
    Silent m (m.pollTpdo nowUs) := by
  unfold Machine.pollTpdo
  split_ifs
  · obtain ⟨obs, htrace, hobs⟩ := pollWith_trace m.node.od nowUs m.node.dirtySet m.state 0
      m.node.tpdo.slots (m.bus.log (latchObs TpdoSlot.isEventDriven m.node.dirtySet
        m.node.tpdo.slots))
    refine ⟨rfl, _, htrace.trans (List.append_assoc _ _ _), ?_⟩
    intro o ho
    rcases List.mem_append.mp ho with ho | ho
    · exact isSilent_latchObs o ho
    · obtain ⟨k, slot, -, application, frame, result, rfl, -⟩ := hobs o ho
      rfl
  · exact silent_refl m

theorem setRpdo_silent (m : Machine OD evt dirty) (rpdo : RpdoEngine) {obs : List Obs}
    (hobs : ∀ o ∈ obs, o.isSilent = true) : Silent m (m.setRpdo rpdo obs) :=
  ⟨rfl, obs, rfl, hobs⟩

theorem latchSyncEvents_silent (m : Machine OD evt dirty) : Silent m m.latchSyncEvents :=
  ⟨rfl, _, rfl, isSilent_latchObs⟩

theorem notifyChanged_silent (m : Machine OD evt dirty) (index : UInt16) (subindex : UInt8) :
    Silent m (m.notifyChanged index subindex) := by
  refine ⟨rfl, _, rfl, ?_⟩
  intro o ho
  rcases List.mem_cons.mp ho with rfl | ho
  · rfl
  · exact isSilent_latchObs o ho

theorem setEmcy_silent [ObjectDictionary OD] (m : Machine OD evt dirty) (emcy : EmcyProducer) :
    Silent m (m.setEmcy emcy) := by
  unfold Machine.setEmcy Machine.mirrorErrorRegister
  dsimp only
  split_ifs
  · exact notifyChanged_silent _ _ _
  · exact ⟨rfl, [], (List.append_nil _).symm, by simp⟩

theorem odMut_silent [ObjectDictionary OD] (m : Machine OD evt dirty) (f : OD → OD) :
    Silent m (m.odMut f) := by
  refine ⟨rfl, _, rfl, ?_⟩
  intro o ho
  obtain ⟨⟨slot, i⟩, -, ho⟩ := List.mem_flatMap.mp ho
  rcases List.mem_cons.mp ho with rfl | ho
  · rfl
  · split_ifs at ho
    · rw [List.mem_singleton] at ho
      subst ho
      rfl
    · cases ho

end Silent

/-! ## Configuration changes -/

theorem syncConfigFromOd_queues {n n' : Node OD evt dirty} (h : n.syncConfigFromOd = some n') :
    n'.queues = n.queues := by
  obtain ⟨p, -, rfl⟩ := Option.map_eq_some_iff.mp h
  rfl

theorem resyncAfter_queues {n n' : Node OD evt dirty} {index : UInt16}
    (h : n.resyncAfter index = some n') : n'.queues = n.queues := by
  unfold Node.resyncAfter at h
  dsimp only at h
  have hpdo : (if isPdoConfigIndex index then n.syncPdoFromOd else n).queues = n.queues := by
    split_ifs <;> rfl
  generalize (if isPdoConfigIndex index then n.syncPdoFromOd else n) = n₁ at h hpdo
  have hheartbeat : (if index = 0x1016 ∨ index = 0x1017 then n₁.syncHeartbeatFromOd true
      else n₁).queues = n₁.queues := by
    split_ifs <;> rfl
  generalize (if index = 0x1016 ∨ index = 0x1017 then n₁.syncHeartbeatFromOd true else n₁) = n₂
    at h hheartbeat
  split_ifs at h
  · exact (syncConfigFromOd_queues h).trans (hheartbeat.trans hpdo)
  · cases h
    exact hheartbeat.trans hpdo

theorem resync_queues {m m' : Machine OD evt dirty} {committed : Option (UInt16 × UInt8)}
    (h : m.resync committed = some m') : m'.node.queues = m.node.queues := by
  unfold Machine.resync at h
  cases committed with
  | none =>
    cases h
    rfl
  | some p =>
    obtain ⟨n, hn, rfl⟩ := Option.map_eq_some_iff.mp h
    exact resyncAfter_queues hn

theorem requestReset_silent {m m' : Machine OD evt dirty} {resetType : ResetType}
    (h : m.requestReset resetType = some m') : Silent m m' := by
  refine ⟨?_, _, (requestReset_done h).trace, ?_⟩
  · unfold Machine.requestReset Machine.reset Node.resetSyncState at h
    obtain ⟨n, hn, rfl⟩ := Option.map_eq_some_iff.mp h
    obtain ⟨n', hn', rfl⟩ := Option.map_eq_some_iff.mp hn
    have hqueues := syncConfigFromOd_queues hn'
    exact hqueues
  · intro o ho
    rcases List.mem_append.mp ho with ho | ho
    · exact isSilent_abortObs o ho
    · rw [List.mem_singleton] at ho
      rw [ho]
      rfl

theorem nmtCommand_silent {m m' : Machine OD evt dirty} {cmd : NmtCommand} {target : UInt8}
    (h : m.nmtCommand cmd target = some m') : Silent m m' := by
  unfold Machine.nmtCommand at h
  rcases m.node.nmt.processCommand_cases cmd target m.node.nodeId with
    hc | ⟨s, -, -, -, -, hc⟩ | hc | hc <;> rw [hc] at h
  · cases h
    exact silent_refl m
  · cases h
    exact stateChanged_silent m s
  · exact requestReset_silent h
  · exact requestReset_silent h

/-- What a posting needs to know of the node: no commit is left unreported, and the
receive PDOs have the numbers they were declared with. -/
structure Ready (number : ℕ → Option UInt16) (m : Machine OD evt dirty) : Prop where
  uncommitted : Uncommitted m
  numbered : ∀ i config, m.node.running.rpdos[i]? = some config →
    RpdoEngine.reportedNumber i config = number i

theorem reportedNumber_congr {config config' : RpdoConfig} (h : config'.odNumber = config.odNumber)
    (i : ℕ) : RpdoEngine.reportedNumber i config' = RpdoEngine.reportedNumber i config := by
  unfold RpdoEngine.reportedNumber
  rw [h]

theorem rereadPdos_numbered {number : ℕ → Option UInt16} {c : Running} (od : OD)
    (h : ∀ i config, c.rpdos[i]? = some config → RpdoEngine.reportedNumber i config = number i) :
    ∀ i config, (c.rereadPdos od).rpdos[i]? = some config →
      RpdoEngine.reportedNumber i config = number i := by
  intro i config hconfig
  obtain ⟨old, b, hold, rfl⟩ := rereadEach_get hconfig
  rw [reportedNumber_congr (syncRpdoConfig_odNumber ..)]
  exact h i old hold

theorem resyncAfter_numbered {number : ℕ → Option UInt16} {c c' : Running} {od : OD}
    {index : UInt16}
    (h : ∀ i config, c.rpdos[i]? = some config → RpdoEngine.reportedNumber i config = number i)
    (hc : c.resyncAfter od index = some c') :
    ∀ i config, c'.rpdos[i]? = some config → RpdoEngine.reportedNumber i config = number i := by
  have hrpdos : c'.rpdos = (if isPdoConfigIndex index then c.rereadPdos od else c).rpdos := by
    unfold Running.resyncAfter at hc
    dsimp only at hc
    generalize (if isPdoConfigIndex index then c.rereadPdos od else c) = c₁ at hc ⊢
    have hheartbeat : (if index = 0x1016 ∨ index = 0x1017 then c₁.rereadHeartbeat od
        else c₁).rpdos = c₁.rpdos := by
      split_ifs <;> rfl
    rw [← hheartbeat]
    generalize (if index = 0x1016 ∨ index = 0x1017 then c₁.rereadHeartbeat od else c₁) = c₂ at hc
    split_ifs at hc
    · obtain ⟨p, -, rfl⟩ := Option.map_eq_some_iff.mp hc
      rfl
    · cases hc
      rfl
  rw [hrpdos]
  split_ifs
  · exact rereadPdos_numbered od h
  · exact h

theorem ready_step {number : ℕ → Option UInt16} (m m' : Machine OD evt dirty)
    (h : Ready number m) (hs : Step (fun _ => True) m m') : Ready number m' := by
  refine ⟨uncommitted_step h.uncommitted hs, ?_⟩
  cases step_config h.uncommitted hs with
  | rpdo ws hod hlog hrun =>
    rw [hrun]
    exact h.numbered
  | application f hf hod hrun =>
    rw [hrun]
    exact h.numbered
  | refused index subindex data e hw hod hrun =>
    rw [hrun]
    exact h.numbered
  | committed index subindex data nowUs hvalid hw hod hrun =>
    exact resyncAfter_numbered h.numbered hrun
  | reset p hod hp hrun =>
    rw [hrun]
    exact rereadPdos_numbered _ h.numbered

theorem Ready.steps {number : ℕ → Option UInt16} {m m' : Machine OD evt dirty}
    (h : Ready number m) (hs : Steps (fun _ => True) m m') : Ready number m' :=
  steps_inv ready_step hs h

/-! ## Producers -/

/-- The server's part of a request: it commits nothing and posts nothing, or it commits
one download and posts its event. -/
theorem served_events (number : ℕ → Option UInt16) (m : Machine OD evt dirty) {ch : SdoChannel}
    (i : ℕ) (request : SdoFrame) (nowUs : UInt64) (hch : ch.server.committedWrite = none) :
    let s := (m.served ch request nowUs).1
    let produced := producedEvents number (s.writes.map fun w => .odWrite (.sdo i) w m.state)
    (produced = [] ∧ s.events = m.node.eventQueue ∧ s.server.committedWrite = none) ∨
    ∃ e, produced = [e] ∧ s.events = m.node.eventQueue.pushEvict e ∧
      s.server.committedWrite.isSome = true := by
  intro s produced
  rcases processWithContext_cases (⟨ch.server, m.node.od, m.node.eventQueue, []⟩ : SdoState OD evt)
    request (m.node.sdoContext nowUs) with ⟨hsame, -⟩ | ⟨index, subindex, data, success, -, heq⟩
  · refine .inl ⟨?_, hsame.events, hsame.committed.trans hch⟩
    have hwrites : s.writes = [] := hsame.writes
    simp only [produced, hwrites]
    rfl
  · have hs : s = _ := congrArg Prod.fst heq
    rcases commitDownload_cases (⟨ch.server, m.node.od, m.node.eventQueue, []⟩ : SdoState OD evt)
      (m.node.sdoContext nowUs) index subindex data success with
      ⟨code, -, hc⟩ | ⟨e, code, -, -, hc⟩ | ⟨-, -, hc⟩
    · rw [hc] at hs
      refine .inl ⟨?_, ?_, ?_⟩
      · simp only [produced, hs]
        rfl
      · rw [hs]
        rfl
      · rw [hs]
        exact hch
    · rw [hc] at hs
      refine .inl ⟨?_, ?_, ?_⟩
      · simp only [produced, hs]
        rfl
      · rw [hs]
        rfl
      · rw [hs]
        exact hch
    · rw [hc] at hs
      refine .inr ⟨⟨index, subindex, .sdo⟩, ?_, ?_, ?_⟩
      · simp only [produced, hs]
        rfl
      · rw [hs]
      · rw [hs]
        rfl

variable {number : ℕ → Option UInt16}

theorem request_posts {m m' : Machine OD evt dirty} {i : ℕ} {ch : SdoChannel} {request : SdoFrame}
    {nowUs : UInt64} (hu : Uncommitted m) (hch : m.node.sdo[i]? = some ch)
    (hr : (m.answerRequest i ch request nowUs).1.resync
      (m.answerRequest i ch request nowUs).2 = some m') : ∃ obs, Posts number m m' obs [] := by
  obtain ⟨obs, htrace, hobs⟩ := request_trace hr
  have hqueues := resync_queues hr
  have hproduced : producedEvents number (m.requestObs i ch request nowUs ++ obs) =
      producedEvents number ((m.served ch request nowUs).1.writes.map fun w =>
        .odWrite (.sdo i) w m.state) := by
    rw [producedEvents_append, producedEvents_silent number fun o ho => isSilent_of_channel (hobs o ho),
      List.append_nil, Machine.requestObs, producedEvents_append, producedEvents_silent number
        fun o ho => isSilent_of_channel (requestHead_ofChannel o ho), List.nil_append]
  have hnode : m'.node.queues = ((m.served ch request nowUs).1.events, m.node.hbEventQueue,
      if m.node.eventQueue.isFull && (m.served ch request nowUs).1.server.committedWrite.isSome then
        Counter.saturatingAdd m.node.eventOverflowCount 1 else m.node.eventOverflowCount) := hqueues
  simp only [Node.queues, Prod.mk.injEq] at hnode
  obtain ⟨hevents, hheartbeats, hcount⟩ := hnode
  have hlt := m.node.eventOverflowCount.toNat_lt
  refine ⟨_, htrace, ?_, hheartbeats, ?_⟩
  · rw [hevents, hproduced]
    rcases served_events number m i request nowUs
      (hu ch (List.mem_of_getElem? hch)) with ⟨hnone, hkept, -⟩ | ⟨e, hone, hpush, -⟩
    · rw [hnone, hkept]
      rfl
    · rw [hone, hpush]
      rfl
  · rw [hcount, hproduced]
    rcases served_events number m i request nowUs
      (hu ch (List.mem_of_getElem? hch)) with ⟨hnone, -, hcommit⟩ | ⟨e, hone, -, hcommit⟩
    · rw [hnone, hcommit]
      simp only [Option.isSome_none, Bool.and_false, Bool.false_eq_true, if_false]
      change _ = min (_ + 0 + 0) _
      omega
    · rw [hone, hcommit, Bool.and_true]
      change _ = min (_ + ((if m.node.eventQueue.isFull then 1 else 0) + 0) + 0) _
      split_ifs
      · rw [Counter.toNat_saturatingAdd]
        rfl
      · omega

/-- What receive PDOs do to the queue, by the writes they log. -/
def Posted (number : ℕ → Option UInt16) (state : NmtState) (s s' : RpdoState OD evt) : Prop :=
  ∃ ws, s'.writes = s.writes ++ ws ∧
    s'.events = s.events.pushAll (producedEvents number (ws.map fun w => .odWrite .rpdo w state)) ∧
    s'.dropped.toNat = min (s.dropped.toNat + s.events.evictions
      (producedEvents number (ws.map fun w => .odWrite .rpdo w state))) 0xFFFFFFFF

omit [ObjectDictionary OD] in
theorem posted_refl (number : ℕ → Option UInt16) (state : NmtState) (s : RpdoState OD evt) :
    Posted number state s s := by
  have hlt := s.dropped.toNat_lt
  refine ⟨[], (List.append_nil _).symm, rfl, ?_⟩
  change _ = min (_ + 0) _
  omega

omit [ObjectDictionary OD] in
theorem Posted.trans {state : NmtState} {s s' s'' : RpdoState OD evt}
    (h : Posted number state s s') (h' : Posted number state s' s'') :
    Posted number state s s'' := by
  obtain ⟨ws, hwrites, hevents, hdropped⟩ := h
  obtain ⟨ws', hwrites', hevents', hdropped'⟩ := h'
  rw [hevents] at hdropped'
  refine ⟨ws ++ ws', ?_, ?_, ?_⟩
  · rw [hwrites', hwrites, List.append_assoc]
  · rw [hevents', hevents, List.map_append, producedEvents_append, Deque.pushAll_append]
  · rw [List.map_append, producedEvents_append, Deque.evictions_append]
    omega

theorem writeObject_posted (number : ℕ → Option UInt16) (state : NmtState) (s : RpdoState OD evt)
    (m : PdoMapping) (data : List UInt8) : Posted number state s (s.writeObject m data) := by
  have hlt := s.dropped.toNat_lt
  unfold RpdoState.writeObject
  dsimp only
  split_ifs with hok hfull
  · refine ⟨_, rfl, ?_, ?_⟩
    · simp only [List.map_cons, List.map_nil, hok]
      rfl
    · simp only [List.map_cons, List.map_nil, hok, Counter.toNat_saturatingAdd]
      change _ = min (_ + ((if s.events.isFull then 1 else 0) + 0)) _
      rw [if_pos hfull]
      rfl
  · refine ⟨_, rfl, ?_, ?_⟩
    · simp only [List.map_cons, List.map_nil, hok]
      rfl
    · simp only [List.map_cons, List.map_nil, hok]
      change _ = min (_ + ((if s.events.isFull then 1 else 0) + 0)) _
      rw [if_neg hfull]
      omega
  · have hnone : producedEvents number ([OdWrite.mk m.index m.subindex data
        (ObjectDictionary.write s.od m.index m.subindex data).1.isOk].map
          fun w => .odWrite .rpdo w state) = [] := by
      rw [Bool.eq_false_iff.mpr hok]
      rfl
    refine ⟨_, rfl, ?_, ?_⟩
    · rw [hnone]
      rfl
    · rw [hnone]
      change s.dropped.toNat = min (_ + 0) _
      omega

theorem applyMapped_posted (number : ℕ → Option UInt16) (state : NmtState) (data : List UInt8)
    (mappings : List PdoMapping) (bitOffset : ℕ) (s : RpdoState OD evt) :
    Posted number state s (applyMapped data mappings bitOffset s) := by
  induction mappings generalizing bitOffset s with
  | nil => exact posted_refl number state s
  | cons m ms ih =>
    unfold applyMapped
    dsimp only
    split_ifs
    · exact posted_refl number state s
    · exact ih _ s
    · exact (writeObject_posted number state s m _).trans (ih _ _)

theorem onSync_posted (number : ℕ → Option UInt16) (state : NmtState) (slots : List RpdoSlot)
    (s : RpdoState OD evt) : Posted number state s (RpdoEngine.onSync slots s).2 := by
  induction slots generalizing s with
  | nil => exact posted_refl number state s
  | cons slot slots ih =>
    unfold RpdoEngine.onSync
    dsimp only
    cases slot.pending with
    | none => exact ih s
    | some frame => exact (applyMapped_posted number state _ _ _ s).trans (ih _)

omit [ObjectDictionary OD] in
theorem commitRpdo_posts {m : Machine OD evt dirty} {s : RpdoState OD evt} (slots : List RpdoSlot)
    {obs : List Obs} (hobs : ∀ o ∈ obs, o.isSilent = true)
    (h : Posted number m.state m.rpdoState s) :
    ∃ obs', Posts number m (m.commitRpdo slots s obs) obs' [] := by
  obtain ⟨ws, hwrites, hevents, hdropped⟩ := h
  have hws : s.writes = ws := hwrites
  have hproduced : producedEvents number (obs ++ s.writes.map fun w => .odWrite .rpdo w m.state) =
      producedEvents number (ws.map fun w => .odWrite .rpdo w m.state) := by
    rw [producedEvents_append, producedEvents_silent number hobs, List.nil_append, hws]
  refine ⟨_, rfl, ?_, rfl, ?_⟩
  · rw [hproduced]
    exact hevents
  · rw [hproduced]
    change (Counter.saturatingAdd m.node.eventOverflowCount s.dropped).toNat = min (_ + _ + 0) _
    have hzero : m.rpdoState.dropped.toNat = 0 := rfl
    have hqueue : m.rpdoState.events = m.node.eventQueue := rfl
    rw [hzero, hqueue] at hdropped
    rw [Counter.toNat_saturatingAdd, hdropped]
    omega

theorem receiveRpdo_posts (m : Machine OD evt dirty) (i : ℕ) (slot : RpdoSlot) (frame : CanFrame)
    (nowUs : UInt64) : ∃ obs, Posts number m (m.receiveRpdo i slot frame nowUs) obs [] := by
  unfold Machine.receiveRpdo
  dsimp only
  split_ifs
  · exact (setRpdo_silent m _ (by simp)).posts number
  · exact (setRpdo_silent m _ (by simp [Obs.isSilent])).posts number
  · exact commitRpdo_posts _ (by simp [Obs.isSilent]) (applyMapped_posted ..)

theorem handleSync_posts (number : ℕ → Option UInt16) (m : Machine OD evt dirty) (nowUs : UInt64) :
    ∃ obs, Posts number m (m.handleSync nowUs) obs [] := by
  unfold Machine.handleSync
  split_ifs
  · have happlied : ∃ obs, Posts number m m.applyPulse obs [] := by
      apply commitRpdo_posts _ _ (onSync_posted ..)
      intro o ho
      obtain ⟨i, slot, frame, rfl, -⟩ := mem_appliedObs ho
      rfl
    obtain ⟨obs, hposts⟩ := happlied
    obtain ⟨obs', hposts'⟩ := (sendPulse_silent m.applyPulse nowUs).posts number
    exact ⟨_, hposts.trans hposts'⟩
  · exact (silent_refl m).posts number

theorem processRpdoFrame_posts (m : Machine OD evt dirty) (frame : CanFrame) (nowUs : UInt64) :
    ∃ obs, Posts number m (m.processRpdoFrame frame nowUs) obs [] := by
  unfold Machine.processRpdoFrame
  split_ifs
  · split
    · exact (silent_refl m).posts number
    · split
      · exact receiveRpdo_posts m _ _ frame nowUs
      · exact (silent_refl m).posts number
  · exact (silent_refl m).posts number

theorem handleSdoRequest_posts {m m' : Machine OD evt dirty} {i : ℕ} {frame : CanFrame}
    {nowUs : UInt64} (hu : Uncommitted m) (h : m.handleSdoRequest i frame nowUs = some m') :
    ∃ obs, Posts number m m' obs [] := by
  unfold Machine.handleSdoRequest at h
  cases hch : m.node.sdo[i]? with
  | none =>
    rw [hch] at h
    cases h
    exact (silent_refl m).posts number
  | some ch =>
    simp only [hch] at h
    split_ifs at h
    · cases h
      exact (silent_refl m).posts number
    · cases h
      exact (silent_refl m).posts number
    · exact request_posts hu hch h

theorem produceSync_posts (number : ℕ → Option UInt16) (m : Machine OD evt dirty) (nowUs : UInt64) :
    ∃ obs, Posts number m (m.produceSync nowUs) obs [] := by
  unfold Machine.produceSync
  have hkept (p : SyncProducer) : Silent m ⟨{ m.node with syncProducer := p }, m.bus⟩ :=
    ⟨rfl, [], (List.append_nil _).symm, by simp⟩
  have hoffer (frame : CanFrame) (p : SyncProducer) : Silent m
      ⟨{ m.node with syncProducer := p }, (m.bus.transmit m.state .sync frame).2⟩ :=
    ⟨rfl, _, rfl, by simp [Obs.isSilent]⟩
  split_ifs
  · dsimp only
    split
    · next frame _ =>
      split_ifs
      · obtain ⟨obs, hposts⟩ := (hoffer frame _).posts number
        obtain ⟨obs', hposts'⟩ := handleSync_posts number (⟨{ m.node with
          syncProducer := (m.node.syncProducer.poll nowUs).1.confirmSent nowUs },
          (m.bus.transmit m.state .sync frame).2⟩ : Machine OD evt dirty) nowUs
        exact ⟨_, hposts.trans hposts'⟩
      · exact (hoffer frame _).posts number
    · exact (hkept _).posts number
  · exact (silent_refl m).posts number

section Batches

omit [ObjectDictionary OD]

theorem counted_cons {α : Type} {cap : ℕ} {q : Deque α cap} {count count' : UInt32} {a : α}
    {l : List α} {total : ℕ}
    (hone : count' = if q.isFull then Counter.saturatingAdd count 1 else count)
    (hrest : total = min (count'.toNat + (q.pushEvict a).evictions l) 0xFFFFFFFF) :
    total = min (count.toNat + q.evictions (a :: l)) 0xFFFFFFFF := by
  have hlt := count.toNat_lt
  have hcount : count'.toNat = min (count.toNat + if q.isFull then 1 else 0) 0xFFFFFFFF := by
    rw [hone]
    split_ifs
    · exact Counter.toNat_saturatingAdd count 1
    · omega
  rw [hrest, hcount, Deque.evictions]
  omega

theorem counted_nil {α : Type} {cap : ℕ} (q : Deque α cap) (count : UInt32) :
    count.toNat = min (count.toNat + q.evictions []) 0xFFFFFFFF := by
  have hlt := count.toNat_lt
  rw [Deque.evictions]
  omega

theorem pushEvents_queues (n : Node OD evt dirty) (l : List OdEvent) :
    let n' := l.foldl Node.pushEvent n
    n'.eventQueue = n.eventQueue.pushAll l ∧ n'.hbEventQueue = n.hbEventQueue ∧
      n'.eventOverflowCount.toNat =
        min (n.eventOverflowCount.toNat + n.eventQueue.evictions l) 0xFFFFFFFF := by
  induction l generalizing n with
  | nil => exact ⟨rfl, rfl, counted_nil _ _⟩
  | cons e l ih =>
    obtain ⟨hevents, hheartbeats, hcount⟩ := ih (n.pushEvent e)
    exact ⟨hevents, hheartbeats, counted_cons rfl hcount⟩

theorem pushHeartbeatEvents_queues (n : Node OD evt dirty) (l : List HeartbeatEvent) :
    let n' := l.foldl Node.pushHeartbeatEvent n
    n'.eventQueue = n.eventQueue ∧ n'.hbEventQueue = n.hbEventQueue.pushAll l ∧
      n'.eventOverflowCount.toNat =
        min (n.eventOverflowCount.toNat + n.hbEventQueue.evictions l) 0xFFFFFFFF := by
  induction l generalizing n with
  | nil => exact ⟨rfl, rfl, counted_nil _ _⟩
  | cons e l ih =>
    obtain ⟨hevents, hheartbeats, hcount⟩ := ih (n.pushHeartbeatEvent e)
    exact ⟨hevents, hheartbeats, counted_cons rfl hcount⟩

theorem pushHeartbeatEvents_posts (m : Machine OD evt dirty)
    (monitors : List (Option HeartbeatMonitor)) (l : List HeartbeatEvent) :
    Posts number m ⟨l.foldl Node.pushHeartbeatEvent { m.node with hbMonitors := monitors }, m.bus⟩
      [] l := by
  obtain ⟨hevents, hheartbeats, hcount⟩ :=
    pushHeartbeatEvents_queues { m.node with hbMonitors := monitors } l
  exact ⟨(List.append_nil _).symm, hevents, hheartbeats, hcount⟩

end Batches

theorem overdueSlots_get {e : RpdoEngine} {nowUs : UInt64} {p : ℕ × RpdoConfig}
    (h : p ∈ e.overdueSlots nowUs) : (e.slots.map RpdoSlot.config)[p.1]? = some p.2 := by
  obtain ⟨⟨slot, i⟩, hmem, hp⟩ := List.mem_filterMap.mp h
  dsimp only at hp
  split_ifs at hp
  cases hp
  rw [List.getElem?_map, List.mk_mem_zipIdx_iff_getElem?.mp hmem]
  rfl

omit [ObjectDictionary OD] in
theorem produced_deadlines {m : Machine OD evt dirty} (hr : Ready number m) (nowUs : UInt64) :
    producedEvents number ((m.node.rpdo.overdueSlots nowUs).map fun p => .deadlineExpired p.1) =
      ((m.node.rpdo.overdueSlots nowUs).filterMap fun (i, config) =>
        RpdoEngine.reportedNumber i config).map fun k => ⟨0x1400 + (k - 1), 0, .rpdoDeadline⟩ := by
  rw [producedEvents, List.filterMap_map, List.map_filterMap]
  apply List.filterMap_congr
  intro p hp
  have hnumber := hr.numbered p.1 p.2 (overdueSlots_get hp)
  simp only [Function.comp_apply, Obs.odEvent, hnumber]

omit [ObjectDictionary OD] in
theorem checkDeadlines_posts {m : Machine OD evt dirty} (hr : Ready number m) (nowUs : UInt64) :
    ∃ obs, Posts number m (m.checkDeadlines nowUs) obs [] := by
  have hproduced := produced_deadlines hr nowUs
  unfold Machine.checkDeadlines
  split_ifs
  · dsimp only
    rw [← List.foldl_map (f := fun k : UInt16 => (⟨0x1400 + (k - 1), 0, .rpdoDeadline⟩ : OdEvent))
      (g := Node.pushEvent), ← hproduced]
    obtain ⟨hevents, hheartbeats, hcount⟩ := pushEvents_queues
      { m.node with rpdo := m.node.rpdo.checkDeadlines nowUs } (producedEvents number
        ((m.node.rpdo.overdueSlots nowUs).map fun p => .deadlineExpired p.1))
    exact ⟨_, rfl, hevents, hheartbeats, hcount⟩
  · have hs : Silent m { m with node := m.node.leaveOperational } :=
      ⟨rfl, [], (List.append_nil _).symm, by simp⟩
    exact hs.posts number

theorem syncFrame_posts (number : ℕ → Option UInt16) (m : Machine OD evt dirty) (frame : CanFrame)
    (nowUs : UInt64) : ∃ obs, Posts number m (m.syncFrame frame nowUs) obs [] := by
  unfold Machine.syncFrame
  have hcounter : Silent m ⟨{ m.node with sync := (m.node.sync.process frame).1 }, m.bus⟩ :=
    ⟨rfl, [], (List.append_nil _).symm, by simp⟩
  dsimp only
  split_ifs
  · obtain ⟨obs, hposts⟩ := hcounter.posts number
    obtain ⟨obs', hposts'⟩ := handleSync_posts number (⟨{ m.node with
      sync := (m.node.sync.process frame).1 }, m.bus⟩ : Machine OD evt dirty) nowUs
    exact ⟨_, hposts.trans hposts'⟩
  · exact hcounter.posts number

theorem nmtFrame_silent {m m' : Machine OD evt dirty} {frame : CanFrame}
    (h : m.nmtFrame frame = some m') : Silent m m' := by
  unfold Machine.nmtFrame at h
  split_ifs at h
  · cases hcmd : NmtCommand.fromByte (frame.data.getD 0 0) with
    | none =>
      rw [hcmd] at h
      cases h
      exact silent_refl m
    | some cmd =>
      rw [hcmd] at h
      exact nmtCommand_silent h
  · cases h
    exact silent_refl m

/-! ## Processing calls -/

theorem dispatchFrame_posts {m m' : Machine OD evt dirty} {frame : CanFrame} {nowUs : UInt64}
    (hu : Uncommitted m) (h : m.dispatchFrame frame nowUs = some m') :
    ∃ obs, Posts number m m' obs (m.frameHbEvents frame nowUs) := by
  unfold Machine.dispatchFrame at h
  unfold Machine.frameHbEvents
  cases hx : m.node.extraChannel frame with
  | some i =>
    rw [hx] at h
    exact handleSdoRequest_posts hu h
  | none =>
    simp only [hx] at h
    dsimp only
    by_cases hsync : m.node.sync.cobId = some frame.id
    · rw [if_pos hsync] at h
      rw [if_pos (.inl hsync)]
      cases h
      exact syncFrame_posts number m frame nowUs
    rw [if_neg hsync] at h
    by_cases hnmt : frame.id = CobId.nmt
    · rw [if_pos hnmt] at h
      rw [if_pos (.inr (.inl hnmt))]
      exact (nmtFrame_silent h).posts number
    rw [if_neg hnmt] at h
    by_cases hsdo : frame.id = CobId.sdoRx m.node.nodeId
    · rw [if_pos hsdo] at h
      rw [if_pos (.inr (.inr (.inl hsdo)))]
      exact handleSdoRequest_posts hu h
    rw [if_neg hsdo] at h
    by_cases hlss : frame.id = lssRequestCob
    · rw [if_pos hlss] at h
      rw [if_pos (.inr (.inr (.inr hlss)))]
      cases h
      exact (lssRequest_silent m frame).posts number
    rw [if_neg hlss] at h
    rw [if_neg (by simp only [hsync, hnmt, hsdo, hlss, or_self, not_false_eq_true])]
    cases hm : m.node.monitorFor frame with
    | none =>
      rw [hm] at h
      cases h
      exact processRpdoFrame_posts m frame nowUs
    | some p =>
      rw [hm] at h
      cases h
      exact ⟨[], pushHeartbeatEvents_posts m _ _⟩

theorem dispatchFrames_posts {rx : List CanFrame} {nowUs : UInt64} {m m' : Machine OD evt dirty}
    (hr : Ready number m) (h : rx.foldlM (fun m frame => m.dispatchFrame frame nowUs) m = some m') :
    ∃ obs, Posts number m m' obs (Machine.receiveHbEvents nowUs rx m) := by
  induction rx generalizing m with
  | nil =>
    cases h
    exact (silent_refl m').posts number
  | cons frame rx ih =>
    rw [List.foldlM_cons] at h
    obtain ⟨m₁, h₁, h₂⟩ := Option.bind_eq_some_iff.mp h
    obtain ⟨obs, hposts⟩ : ∃ obs, Posts number m m₁ obs (m.frameHbEvents frame nowUs) :=
      dispatchFrame_posts hr.uncommitted h₁
    obtain ⟨obs', hposts'⟩ := ih (hr.steps (dispatchFrame_steps h₁)) h₂
    refine ⟨obs ++ obs', ?_⟩
    rw [Machine.receiveHbEvents, h₁]
    exact hposts.trans hposts'

/-- The stages before the monitors are checked, with what the deadlines need. -/
theorem earlyStages_posts {m : Machine OD evt dirty} (hr : Ready number m) (nowUs : UInt64) :
    ∃ obs, Posts number m (m.earlyStages nowUs) obs [] := by
  unfold Machine.earlyStages
  have hservice : Steps (fun _ => True) m (m.onChannels (SdoChannel.service m.state nowUs)) := by
    apply onChannels_steps m.state
    · intro m' i hm
      rw [← hm]
      exact service_steps nowUs i m'
    · rfl
  have hsilent : Silent m (m.onChannels (SdoChannel.service m.state nowUs)) :=
    onChannels_silent (fun i ch b => service_channelOnly m.state nowUs i ch b) m
  generalize m.onChannels (SdoChannel.service m.state nowUs) = m₁ at hservice hsilent
  have hr₁ := (hr.steps hservice).steps (produceSync_steps m₁ nowUs)
  obtain ⟨obs₁, hposts₁⟩ := hsilent.posts number
  obtain ⟨obs₂, hposts₂⟩ := produceSync_posts number m₁ nowUs
  dsimp only
  generalize m₁.produceSync nowUs = m₂ at hr₁ hposts₂
  obtain ⟨obs₃, hposts₃⟩ := (retryPendingSyncTpdo_silent m₂ nowUs).posts number
  have hr₂ := hr₁.steps (.single (.retry nowUs))
  obtain ⟨obs₄, hposts₄⟩ := checkDeadlines_posts hr₂ nowUs
  obtain ⟨obs₅, hposts₅⟩ := (sendHeartbeat_silent
    ((m₂.retryPendingSyncTpdo nowUs).checkDeadlines nowUs) nowUs).posts number
  exact ⟨_, hposts₁.trans (hposts₂.trans (hposts₃.trans (hposts₄.trans hposts₅)))⟩

theorem transmitStages_posts {m : Machine OD evt dirty} (hr : Ready number m) (nowUs : UInt64) :
    ∃ obs, Posts number m (m.transmitStages nowUs) obs
      ((m.earlyStages nowUs).timeoutHbEvents nowUs) := by
  have hsplit : m.transmitStages nowUs =
      ((((m.earlyStages nowUs).checkHeartbeats nowUs).sendEmcy).pollTpdo nowUs).clearDirty := rfl
  rw [hsplit]
  obtain ⟨obs, hposts⟩ := earlyStages_posts hr nowUs
  generalize m.earlyStages nowUs = m₁ at hposts
  have hchecked : Posts number m₁ (m₁.checkHeartbeats nowUs) [] (m₁.timeoutHbEvents nowUs) :=
    pushHeartbeatEvents_posts m₁ _ _
  generalize m₁.checkHeartbeats nowUs = m₂ at hchecked
  have hrest : Silent m₂ ((m₂.sendEmcy).pollTpdo nowUs).clearDirty :=
    (sendEmcy_silent m₂).trans ((pollTpdo_silent _ nowUs).trans
      ⟨rfl, [], (List.append_nil _).symm, by simp⟩)
  obtain ⟨obs', hposts'⟩ := hrest.posts number
  have hall := (hposts.trans hchecked).trans hposts'
  rw [List.nil_append, List.append_nil (m₁.timeoutHbEvents nowUs)] at hall
  exact ⟨_, hall⟩

/-- One processing call appends the events it records and the heartbeat events. -/
theorem process_posts {m m' : Machine OD evt dirty} {nowUs : UInt64} {rx : List CanFrame}
    (hr : Ready number m) (h : m.process nowUs rx = some m') :
    ∃ obs, Posts number m m' obs (m.processHbEvents nowUs rx) := by
  unfold Machine.process at h
  unfold Machine.processHbEvents
  have hboot := boot_silent m nowUs
  have hr₁ := hr.steps (boot_steps m nowUs)
  obtain ⟨obs, hposts⟩ := hboot.posts number
  cases hb : m.boot nowUs with
  | mk m₁ running =>
    rw [hb] at h hposts hr₁
    dsimp only at h hposts hr₁ ⊢
    cases running with
    | false =>
      cases h
      exact ⟨obs, hposts⟩
    | true =>
      simp only [if_true] at h ⊢
      obtain ⟨m₂, hrx, rfl⟩ := Option.map_eq_some_iff.mp h
      rw [hrx]
      have hpolled : Silent m₁ (m₁.latchSyncEvents.onChannels (SdoChannel.beginPoll nowUs)) :=
        (latchSyncEvents_silent m₁).trans (onChannels_silent
          (fun i ch b => channelStep_ofChannel (.beginPoll nowUs ch b :
            ChannelStep m.state i _ _ _ _)) _)
      have hready : Ready number (m₁.latchSyncEvents.onChannels (SdoChannel.beginPoll nowUs)) := by
        apply hr₁.steps
        have hnone : m₁.receive nowUs [] = some _ := rfl
        exact receive_steps hnone
      obtain ⟨obs₁, hposts₁⟩ := hpolled.posts number
      obtain ⟨obs₂, hposts₂⟩ := dispatchFrames_posts hready hrx
      obtain ⟨obs₃, hposts₃⟩ := transmitStages_posts (hr₁.steps (receive_steps hrx)) nowUs
      have hall := hposts.trans (hposts₁.trans (hposts₂.trans hposts₃))
      rw [List.nil_append, List.nil_append] at hall
      exact ⟨_, hall⟩

/-! ## The ledger -/

/-- The calls of an application, with the one that takes events until one decodes. -/
inductive AppCall (OD : Type)
  | call (c : Call OD)
  | nextChange

/-- A run together with the heartbeat events produced in it and how many events the
application has taken from each queue. -/
structure Ledger (OD : Type) (evt dirty : ℕ) where
  machine : Machine OD evt dirty
  heartbeats : List HeartbeatEvent
  drained : ℕ
  hbDrained : ℕ

namespace Ledger

def opened (n : Node OD evt dirty) : Ledger OD evt dirty := ⟨.start n, [], 0, 0⟩

/-- What a call enters: the heartbeat events it produces, and how many events it takes
from each queue. -/
def entries (m : Machine OD evt dirty) : Call OD → List HeartbeatEvent × ℕ × ℕ
  | .process nowUs rx answers =>
    (Machine.processHbEvents ⟨m.node, ⟨answers, m.bus.trace⟩⟩ nowUs rx, 0, 0)
  | .nextEvent => ([], if m.node.eventQueue.isEmpty then 0 else 1, 0)
  | .nextHeartbeatEvent => ([], 0, if m.node.hbEventQueue.isEmpty then 0 else 1)
  | _ => ([], 0, 0)

/-- Take an event out of the queue until one decodes. -/
def nextChange (decodes : OD → OdEvent → Bool) (l : Ledger OD evt dirty) : Ledger OD evt dirty :=
  let n := l.machine.node
  let queue := n.eventQueue.popUntil (decodes n.od)
  { l with
    machine := { l.machine with node := { n with eventQueue := queue } }
    drained := l.drained + (n.eventQueue.items.length - queue.items.length) }

/-- Make a call and enter what it produces or takes. -/
def enter (decodes : OD → OdEvent → Bool) (l : Ledger OD evt dirty) :
    AppCall OD → Option (Ledger OD evt dirty)
  | .call c => (l.machine.call c).map fun m =>
    let (heartbeats, drained, hbDrained) := entries l.machine c
    ⟨m, l.heartbeats ++ heartbeats, l.drained + drained, l.hbDrained + hbDrained⟩
  | .nextChange => some (l.nextChange decodes)

def audit (decodes : OD → OdEvent → Bool) (l : Ledger OD evt dirty) (calls : List (AppCall OD)) :
    Option (Ledger OD evt dirty) :=
  calls.foldlM (enter decodes) l

end Ledger

/-- The books agree: each queue holds what is left of the events produced, and what
was neither taken nor is left has been counted. -/
structure Balanced (number : ℕ → Option UInt16) (l : Ledger OD evt dirty)
    (dropped hbDropped : ℕ) : Prop where
  events : l.machine.node.eventQueue.Holds (producedEvents number l.machine.bus.trace)
    (l.drained + dropped)
  heartbeats : l.machine.node.hbEventQueue.Holds l.heartbeats (l.hbDrained + hbDropped)
  count : l.machine.node.eventOverflowCount.toNat = min (dropped + hbDropped) 0xFFFFFFFF

section Balanced

omit [ObjectDictionary OD]

variable {l : Ledger OD evt dirty} {dropped hbDropped : ℕ}

/-- A batch of events appended to the queues keeps the books balanced. -/
theorem Balanced.posts {m' : Machine OD evt dirty} {obs : List Obs} {hb : List HeartbeatEvent}
    (h : Balanced number l dropped hbDropped) (hp : Posts number l.machine m' obs hb) :
    ∃ dropped' hbDropped', Balanced number
      { l with machine := m', heartbeats := l.heartbeats ++ hb } dropped' hbDropped' := by
  refine ⟨dropped + l.machine.node.eventQueue.evictions (producedEvents number obs),
    hbDropped + l.machine.node.hbEventQueue.evictions hb, ?_, ?_, ?_⟩
  · rw [hp.trace, hp.events, producedEvents_append, ← Nat.add_assoc]
    exact h.events.pushAll _
  · rw [hp.heartbeats, ← Nat.add_assoc]
    exact h.heartbeats.pushAll hb
  · have hcount := h.count
    have hcount' := hp.count
    dsimp only
    omega

theorem Balanced.silent {m' : Machine OD evt dirty} (h : Balanced number l dropped hbDropped)
    (hs : Silent l.machine m') :
    ∃ dropped' hbDropped', Balanced number { l with machine := m', heartbeats := l.heartbeats ++ [] }
      dropped' hbDropped' := by
  obtain ⟨obs, hp⟩ := hs.posts number
  exact h.posts hp

end Balanced

/-- One call keeps the books balanced. -/
theorem enter_balanced {decodes : OD → OdEvent → Bool} {l l' : Ledger OD evt dirty}
    {c : AppCall OD} {dropped hbDropped : ℕ} (hr : Ready number l.machine)
    (h : Balanced number l dropped hbDropped) (hc : l.enter decodes c = some l') :
    ∃ dropped' hbDropped', Balanced number l' dropped' hbDropped' := by
  cases c with
  | nextChange =>
    cases hc
    have hevents := h.events.popUntil (decodes l.machine.node.od)
    rw [Nat.add_right_comm] at hevents
    exact ⟨dropped, hbDropped, hevents, h.heartbeats, h.count⟩
  | call c =>
    obtain ⟨m', hm, rfl⟩ := Option.map_eq_some_iff.mp hc
    cases c with
    | process nowUs rx answers =>
      have hanswers : Silent l.machine
          { l.machine with bus := { l.machine.bus with answers := answers } } :=
        ⟨rfl, [], (List.append_nil _).symm, by simp⟩
      obtain ⟨obs, hposts⟩ := hanswers.posts number
      obtain ⟨obs', hposts'⟩ := process_posts (hr.steps (answers_steps l.machine answers)) hm
      exact h.posts (hposts.trans hposts')
    | requestReset resetType => exact h.silent (requestReset_silent hm)
    | notifyChanged index subindex =>
      cases hm
      exact h.silent (notifyChanged_silent _ _ _)
    | setError code bits data =>
      cases hm
      exact h.silent (setEmcy_silent _ _)
    | clearError bits =>
      cases hm
      exact h.silent (setEmcy_silent _ _)
    | clearAllErrors =>
      cases hm
      exact h.silent (setEmcy_silent _ _)
    | odMut f =>
      cases hm
      exact h.silent (odMut_silent _ _)
    | nextEvent =>
      cases hm
      have hevents := h.events.popFront
      have hheartbeats := h.heartbeats
      rw [Nat.add_right_comm] at hevents
      rw [← List.append_nil l.heartbeats] at hheartbeats
      exact ⟨dropped, hbDropped, hevents, hheartbeats, h.count⟩
    | nextHeartbeatEvent =>
      cases hm
      have hheartbeats := h.heartbeats.popFront
      rw [Nat.add_right_comm, ← List.append_nil l.heartbeats] at hheartbeats
      exact ⟨dropped, hbDropped, h.events, hheartbeats, h.count⟩
    | takeResetEvent =>
      cases hm
      exact h.silent ⟨rfl, [], (List.append_nil _).symm, by simp⟩

theorem enter_ready {decodes : OD → OdEvent → Bool} {l l' : Ledger OD evt dirty} {c : AppCall OD}
    (hr : Ready number l.machine) (hc : l.enter decodes c = some l') : Ready number l'.machine := by
  cases c with
  | nextChange =>
    cases hc
    exact ⟨hr.uncommitted, hr.numbered⟩
  | call c =>
    obtain ⟨m', hm, rfl⟩ := Option.map_eq_some_iff.mp hc
    exact hr.steps (call_steps (fun _ => trivial) (fun _ _ => trivial) hm)

/-- Books that are balanced at the start stay balanced in every run. -/
theorem audit_balanced {decodes : OD → OdEvent → Bool} {l l' : Ledger OD evt dirty}
    {calls : List (AppCall OD)} {dropped hbDropped : ℕ} (hr : Ready number l.machine)
    (h : Balanced number l dropped hbDropped) (hrun : l.audit decodes calls = some l') :
    ∃ dropped' hbDropped', Balanced number l' dropped' hbDropped' := by
  induction calls generalizing l dropped hbDropped with
  | nil =>
    cases hrun
    exact ⟨dropped, hbDropped, h⟩
  | cons c calls ih =>
    unfold Ledger.audit at hrun
    rw [List.foldlM_cons] at hrun
    obtain ⟨l₁, h₁, h₂⟩ := Option.bind_eq_some_iff.mp hrun
    obtain ⟨dropped₁, hbDropped₁, hbalanced⟩ := enter_balanced hr h h₁
    exact ih (enter_ready hr h₁) hbalanced h₂

/-! ## Every run -/

section New

variable {config : NodeConfig} {od : OD} {n : Node OD evt dirty} (hn : Node.new config od = some n)
include hn

theorem new_queues : n.queues = (.empty, .empty, 0) := by
  obtain ⟨n', hn', hunique⟩ := Option.bind_eq_some_iff.mp hn
  obtain rfl : n' = n := by
    split_ifs at hunique
    exact Option.some.inj hunique
  exact (syncConfigFromOd_queues hn').trans rfl

theorem new_ready : Ready config.rpdoNumber (Machine.start n) := by
  refine ⟨uncommitted_start hn, ?_⟩
  intro i c hc
  change n.running.rpdos[i]? = some c at hc
  rw [(new_config hn).2.1] at hc
  rw [NodeConfig.rpdoNumber, hc]
  rfl

theorem new_balanced (number : ℕ → Option UInt16) : Balanced number (Ledger.opened n) 0 0 := by
  have hqueues := new_queues hn
  simp only [Node.queues, Prod.mk.injEq] at hqueues
  obtain ⟨hevents, hheartbeats, hcount⟩ := hqueues
  refine ⟨?_, ?_, ?_⟩
  · change n.eventQueue.Holds [] (0 + 0)
    rw [hevents]
    exact Deque.holds_empty
  · change n.hbEventQueue.Holds [] (0 + 0)
    rw [hheartbeats]
    exact Deque.holds_empty
  · change n.eventOverflowCount.toNat = 0
    rw [hcount]
    rfl

/-- In every run each queue holds, in the order of production, the events left after as
many of the oldest as were taken or driven out, and the events driven out of both
queues are counted, up to the largest count. -/
theorem no_event_lost_uncounted {decodes : OD → OdEvent → Bool} {calls : List (AppCall OD)}
    {l : Ledger OD evt dirty} (hrun : (Ledger.opened n).audit decodes calls = some l) :
    let produced := producedEvents config.rpdoNumber l.machine.bus.trace
    let queue := l.machine.node.eventQueue
    let hbQueue := l.machine.node.hbEventQueue
    let count := l.machine.node.eventOverflowCount
    (∃ dropped hbDropped, queue.items = produced.drop (l.drained + dropped) ∧
      hbQueue.items = l.heartbeats.drop (l.hbDrained + hbDropped) ∧
      l.drained + dropped ≤ produced.length ∧
      l.hbDrained + hbDropped ≤ l.heartbeats.length ∧
      count.toNat = min (dropped + hbDropped) 0xFFFFFFFF) ∧
    (count ≠ 0xFFFFFFFF → produced.length + l.heartbeats.length =
      (l.drained + l.hbDrained) + (queue.items.length + hbQueue.items.length) + count.toNat) := by
  intro produced queue hbQueue count
  obtain ⟨dropped, hbDropped, hbalanced⟩ :=
    audit_balanced (new_ready hn) (new_balanced hn config.rpdoNumber) hrun
  have hcount : count.toNat = min (dropped + hbDropped) 0xFFFFFFFF := hbalanced.count
  refine ⟨⟨dropped, hbDropped, hbalanced.events.items, hbalanced.heartbeats.items,
    hbalanced.events.gone_le, hbalanced.heartbeats.gone_le, hcount⟩, ?_⟩
  intro hmax
  have hunsaturated : count.toNat ≠ 0xFFFFFFFF := fun h => hmax (UInt32.toNat_inj.mp h)
  have hevents : produced.length = l.drained + dropped + queue.items.length :=
    hbalanced.events.length
  have hheartbeats : l.heartbeats.length = l.hbDrained + hbDropped + hbQueue.items.length :=
    hbalanced.heartbeats.length
  omega

end New

/-! ## Runs of the small device -/

/-- The node is started and receives its control word five times before the first event
is taken. -/
def overflowCalls : List (AppCall GeneratedOd) :=
  let word : CanFrame := .literal 0x205 [0x0F, 0x00]
  [.call (.process 0 [] []),
    .call (.process 1000 [.literal 0x000 [1, 5], word, word, word, word, word] []),
    .call .nextEvent]

def auditSample (config : NodeConfig) (calls : List (AppCall GeneratedOd)) :
    Option (Ledger GeneratedOd 4 4) := do
  let n ← Node.new config sampleOd
  (Ledger.opened n).audit (fun _ _ => true) calls

theorem auditSample_of_any {config : NodeConfig} {calls : List (AppCall GeneratedOd)}
    {p : Ledger GeneratedOd 4 4 → Bool} (h : (auditSample config calls).any p = true) :
    ∃ n l, Node.new config sampleOd = some n ∧
      (Ledger.opened n).audit (fun _ _ => true) calls = some l ∧ p l = true := by
  obtain ⟨l, hl, hp⟩ := (Option.any_eq_true p _).mp h
  unfold auditSample at hl
  obtain ⟨n, hn, hr⟩ := Option.bind_eq_some_iff.mp hl
  exact ⟨n, l, hn, hr, hp⟩

theorem no_event_lost_uncounted_overflow :
    ∃ (n : Node GeneratedOd 4 4) (l : Ledger GeneratedOd 4 4),
      Node.new (.fromOd sampleOd sampleNode) sampleOd = some n ∧
      (Ledger.opened n).audit (fun _ _ => true) overflowCalls = some l ∧
      l.machine.node.eventOverflowCount = 1 ∧ l.drained = 1 ∧
      (producedEvents (NodeConfig.fromOd sampleOd sampleNode).rpdoNumber
        l.machine.bus.trace).length + l.heartbeats.length =
        (l.drained + l.hbDrained) + (l.machine.node.eventQueue.items.length +
          l.machine.node.hbEventQueue.items.length) + l.machine.node.eventOverflowCount.toNat := by
  have hany : (auditSample (.fromOd sampleOd sampleNode) overflowCalls).any (fun l =>
      l.machine.node.eventOverflowCount == 1 && l.drained == 1) = true := by
    decide
  obtain ⟨n, l, hn, hr, hp⟩ := auditSample_of_any hany
  rw [Bool.and_eq_true, beq_iff_eq, beq_iff_eq] at hp
  have hcount : l.machine.node.eventOverflowCount ≠ 0xFFFFFFFF := by
    rw [hp.1]
    decide
  exact ⟨n, l, hn, hr, hp.1, hp.2, (no_event_lost_uncounted hn hr).2 hcount⟩

/-- A receive PDO with a deadline and a number beyond 512, of which no event can be reported. -/
def unreportedConfig : NodeConfig :=
  { NodeConfig.fromOd sampleOd sampleNode with rpdo := [⟨600, 0x205, 255, 10, [], true⟩] }

def unreportedCalls : List (AppCall GeneratedOd) :=
  [.call (.process 0 [] []),
    .call (.process 1000 [.literal 0x000 [1, 5],
      .literal 0x205 []] []),
    .call (.process 20000 [] [])]

/-- The deadline expires, and no event is queued, taken or counted. -/
theorem deadline_not_counted :
    ∃ (n : Node GeneratedOd 4 4) (l : Ledger GeneratedOd 4 4),
      Node.new unreportedConfig sampleOd = some n ∧
      (Ledger.opened n).audit (fun _ _ => true) unreportedCalls = some l ∧
      .deadlineExpired 0 ∈ l.machine.bus.trace ∧
      (l.drained + l.hbDrained) + (l.machine.node.eventQueue.items.length +
        l.machine.node.hbEventQueue.items.length) +
        l.machine.node.eventOverflowCount.toNat = 0 := by
  have hany : (auditSample unreportedConfig unreportedCalls).any (fun l =>
      l.machine.bus.trace.contains (.deadlineExpired 0) &&
      (l.drained + l.hbDrained) + (l.machine.node.eventQueue.items.length +
        l.machine.node.hbEventQueue.items.length) +
        l.machine.node.eventOverflowCount.toNat == 0) = true := by
    decide
  obtain ⟨n, l, hn, hr, hp⟩ := auditSample_of_any hany
  rw [Bool.and_eq_true, beq_iff_eq, List.contains_iff_mem] at hp
  exact ⟨n, l, hn, hr, hp.1, hp.2⟩

end Canopen
