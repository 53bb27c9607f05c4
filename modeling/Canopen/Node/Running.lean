import Canopen.Node.Trace

/-!
# The running configuration

What the services of a node are configured with, in one record, and how the
functions that read the dictionary act on it. `ConfigStep` says once how a step of
a node changes its dictionary and its running configuration.
-/

namespace Canopen

open LittleEndian Pdo Sdo

variable {OD : Type} [ObjectDictionary OD] {evt dirty : ℕ}

/-- The configuration a node runs with. -/
structure Running where
  nodeId : NodeId
  /-- Request and response COB-ID of every SDO server. -/
  sdoCobs : List (UInt16 × UInt16)
  tpdos : List TpdoConfig
  rpdos : List RpdoConfig
  heartbeatUs : UInt64
  monitors : List (Option (NodeId × UInt16))
  syncCob : UInt16
  windowUs : UInt64
  /-- COB-ID, period and counter overflow of the SYNC producer. -/
  producer : UInt16 × UInt64 × UInt8

def SdoChannel.cobs (ch : SdoChannel) : UInt16 × UInt16 := (ch.cobRx, ch.cobTx)

def SyncProducer.parameters (p : SyncProducer) : UInt16 × UInt64 × UInt8 :=
  (p.cobId, p.intervalUs, p.overflow)

def Node.running (n : Node OD evt dirty) : Running where
  nodeId := n.nodeId
  sdoCobs := n.sdo.map SdoChannel.cobs
  tpdos := n.tpdo.slots.map (·.config)
  rpdos := n.rpdo.slots.map (·.config)
  heartbeatUs := n.heartbeat.intervalUs
  monitors := n.hbMonitors.map monitorConfig
  syncCob := n.sync.cob
  windowUs := n.syncWindow.lengthUs
  producer := n.syncProducer.parameters

/-! ## Reading the dictionary -/

/-- Read configurations one after the other through the same buffers. -/
def rereadEach {κ : Type} (f : ℕ → κ → ReadBufs → κ × ReadBufs) :
    ℕ → List κ → ReadBufs → List κ × ReadBufs
  | _, [], b => ([], b)
  | n, config :: configs, b =>
    let (config, b) := f n config b
    let (configs, b) := rereadEach f (n + 1) configs b
    (config :: configs, b)

/-- The monitors the entries of 0x1016 ask for, from slot `slot` on. -/
def configuredMonitors (od : OD) : ℕ → ℕ → FixedBuffer UInt8 4 → List (Option (NodeId × UInt16))
  | _, 0, _ => []
  | slot, k + 1, buf =>
    let (ok, buf) := readInto od 0x1016 (UInt8.ofNat (slot + 1)) buf
    (if ok then monitoredNode (word32 buf.cells) else none) :: configuredMonitors od (slot + 1) k buf

namespace Running

def rereadPdos (c : Running) (od : OD) : Running :=
  let (tpdos, b) := rereadEach (syncTpdoConfig od) 0 c.tpdos .zero
  { c with tpdos := tpdos, rpdos := (rereadEach (syncRpdoConfig od) 0 c.rpdos b).1 }

def rereadHeartbeat (c : Running) (od : OD) : Running :=
  let (ok, buf2) := readInto od 0x1017 0 (.filled 2 0)
  { c with
    heartbeatUs := if ok then (word16 buf2.cells).toUInt64 * 1000 else c.heartbeatUs
    monitors := configuredMonitors od 0 c.monitors.length (.filled 4 0) }

def withSync (c : Running) (p : Node.SyncParameters) : Running :=
  { c with
    syncCob := p.cobId
    windowUs := p.windowUs
    producer := (if p.produce then p.cobId else 0, p.periodUs, p.overflow) }

/-- `Node.resyncAfter` on the running configuration. -/
def resyncAfter (c : Running) (od : OD) (index : UInt16) : Option Running :=
  let c := if isPdoConfigIndex index then c.rereadPdos od else c
  let c := if index = 0x1016 ∨ index = 0x1017 then c.rereadHeartbeat od else c
  if index = 0x1005 ∨ index = 0x1006 ∨ index = 0x1007 ∨ index = 0x1019 then
    (Node.syncParameters od).map c.withSync
  else some c

end Running

/-! ## The functions of the node -/

section Functions

theorem syncTpdoSlots_configs (od : OD) (k : ℕ) (slots : List TpdoSlot) (b : ReadBufs) :
    ((syncTpdoSlots od k slots b).1.map (·.config), (syncTpdoSlots od k slots b).2) =
      rereadEach (syncTpdoConfig od) k (slots.map (·.config)) b := by
  induction slots generalizing k b with
  | nil => rfl
  | cons slot slots ih =>
    simp only [syncTpdoSlots, List.map_cons, rereadEach, ← ih]

theorem syncRpdoSlots_configs (od : OD) (k : ℕ) (slots : List RpdoSlot) (b : ReadBufs) :
    ((syncRpdoSlots od k slots b).1.map (·.config), (syncRpdoSlots od k slots b).2) =
      rereadEach (syncRpdoConfig od) k (slots.map (·.config)) b := by
  induction slots generalizing k b with
  | nil => rfl
  | cons slot slots ih =>
    simp only [syncRpdoSlots, List.map_cons, rereadEach, ← ih]

theorem syncPdoFromOd_running (n : Node OD evt dirty) :
    n.syncPdoFromOd.running = n.running.rereadPdos n.od := by
  have htpdo := syncTpdoSlots_configs n.od 0 n.tpdo.slots .zero
  have hrpdo := syncRpdoSlots_configs n.od 0 n.rpdo.slots
    (syncTpdoSlots n.od 0 n.tpdo.slots .zero).2
  unfold Running.rereadPdos Node.running
  simp only [← htpdo, ← hrpdo]
  rfl

omit [ObjectDictionary OD] in
theorem syncMonitor_config (preserve : Bool) (configured : Option (NodeId × UInt16))
    (existing : Option HeartbeatMonitor) :
    monitorConfig (syncMonitor preserve configured existing) = configured := by
  unfold syncMonitor
  split
  · rfl
  · split
    · split_ifs with h
      · simp only [Bool.and_eq_true, beq_iff_eq] at h
        simp [monitorConfig, h.1.2, h.2]
      · rfl
    · rfl

theorem syncMonitors_config (od : OD) (preserve : Bool) (slot : ℕ)
    (monitors : List (Option HeartbeatMonitor)) (buf : FixedBuffer UInt8 4) :
    (syncMonitors od preserve slot monitors buf).map monitorConfig =
      configuredMonitors od slot monitors.length buf := by
  induction monitors generalizing slot buf with
  | nil => rfl
  | cons monitor monitors ih =>
    simp only [syncMonitors, List.map_cons, List.length_cons, configuredMonitors,
      syncMonitor_config, ih]

theorem syncHeartbeatFromOd_running (n : Node OD evt dirty) (preserve : Bool) :
    (n.syncHeartbeatFromOd preserve).running = n.running.rereadHeartbeat n.od := by
  unfold Node.running Running.rereadHeartbeat Node.syncHeartbeatFromOd
  simp only [syncMonitors_config, List.length_map]
  congr 1
  split_ifs <;> rfl

theorem configure_parameters (p : SyncProducer) (cobId : UInt16) (intervalUs : UInt64)
    (overflow : UInt8) :
    (p.configure cobId intervalUs overflow).parameters = (cobId, intervalUs, overflow) := by
  unfold SyncProducer.configure
  split_ifs with h
  · rw [SyncProducer.parameters, h.1, h.2.1, h.2.2]
  · rfl

omit [ObjectDictionary OD] in
theorem applySync_running (n : Node OD evt dirty) (p : Node.SyncParameters) :
    (n.applySync p).running = n.running.withSync p := by
  simp [Node.running, Running.withSync, Node.applySync, configure_parameters, SyncWindow.configure]

theorem syncConfigFromOd_running {n n' : Node OD evt dirty} (h : n.syncConfigFromOd = some n') :
    ∃ p, Node.syncParameters n.od = some p ∧ n'.running = n.running.withSync p := by
  obtain ⟨p, hp, rfl⟩ := Option.map_eq_some_iff.mp h
  exact ⟨p, hp, applySync_running n p⟩

omit [ObjectDictionary OD] in
@[simp] theorem clearSyncState_running (n : Node OD evt dirty) :
    n.clearSyncState.running = n.running := by
  simp [Node.running, Node.clearSyncState, SyncProducer.parameters, SyncProducer.reset,
    SyncWindow.reset, RpdoEngine.resetDeadlineMonitoring, RpdoEngine.discardPending,
    TpdoEngine.resetCommunicationState, Function.comp_def]

omit [ObjectDictionary OD] in
@[simp] theorem leaveOperational_running (n : Node OD evt dirty) :
    n.leaveOperational.running = n.running := by
  simp [Node.running, Node.leaveOperational, SyncWindow.reset, RpdoEngine.resetDeadlineMonitoring,
    RpdoEngine.discardPending, TpdoEngine.discardSyncEvents, TpdoEngine.discardAsyncEvents,
    Function.comp_def]

theorem resyncAfter_running {n n' : Node OD evt dirty} {index : UInt16}
    (h : n.resyncAfter index = some n') :
    n.running.resyncAfter n'.od index = some n'.running := by
  rw [(resyncAfter_reread h).od]
  unfold Node.resyncAfter at h
  unfold Running.resyncAfter
  dsimp only at h ⊢
  have hpdo : (if isPdoConfigIndex index then n.running.rereadPdos n.od else n.running) =
      (if isPdoConfigIndex index then n.syncPdoFromOd else n).running := by
    split_ifs
    · exact (syncPdoFromOd_running n).symm
    · rfl
  have hod : (if isPdoConfigIndex index then n.syncPdoFromOd else n).od = n.od := by
    split_ifs <;> rfl
  rw [hpdo, ← hod]
  generalize (if isPdoConfigIndex index then n.syncPdoFromOd else n) = n₁ at h ⊢
  have hheartbeat : (if index = 0x1016 ∨ index = 0x1017 then n₁.running.rereadHeartbeat n₁.od
      else n₁.running) =
      (if index = 0x1016 ∨ index = 0x1017 then n₁.syncHeartbeatFromOd true else n₁).running := by
    split_ifs
    · exact (syncHeartbeatFromOd_running n₁ true).symm
    · rfl
  have hod₁ : (if index = 0x1016 ∨ index = 0x1017 then n₁.syncHeartbeatFromOd true else n₁).od =
      n₁.od := by
    split_ifs <;> rfl
  rw [hheartbeat, ← hod₁]
  generalize (if index = 0x1016 ∨ index = 0x1017 then n₁.syncHeartbeatFromOd true else n₁) = n₂
    at h ⊢
  split_ifs at h ⊢
  · obtain ⟨p, hp, hrun⟩ := syncConfigFromOd_running h
    rw [hp, hrun]
    rfl
  · cases h
    rfl

/-- A new node runs with what it is built from, the heartbeat and SYNC objects read once. -/
theorem new_running {config : NodeConfig} {od : OD} {n : Node OD evt dirty}
    (h : Node.new config od = some n) :
    n.od = ObjectDictionary.storeErrorRegister (ObjectDictionary.storeSdoServerCobIds
        (Node.initial config od : Node OD evt dirty).writePdoCobIdsToOd.od config.nodeId) 0 ∧
      (n.sdoCobIdsAreUnique && n.syncCobIdIsUnique) = true ∧
      ∃ p, Node.syncParameters n.od = some p ∧
        n.running = ((Node.initial config od : Node OD evt dirty).running.rereadHeartbeat n.od).withSync p := by
  obtain ⟨n', hn', hunique⟩ := Option.bind_eq_some_iff.mp h
  obtain ⟨haccepted, rfl⟩ : (n'.sdoCobIdsAreUnique && n'.syncCobIdIsUnique) = true ∧ n' = n := by
    split_ifs at hunique with haccepted
    exact ⟨haccepted, Option.some.inj hunique⟩
  have hod := ((syncHeartbeatFromOd_reread _ false).trans (syncConfigFromOd_reread hn')).od
  obtain ⟨p, hp, hrun⟩ := syncConfigFromOd_running hn'
  rw [syncHeartbeatFromOd_running] at hrun
  refine ⟨hod, haccepted, p, ?_, ?_⟩
  · rw [hod]
    exact hp
  · rw [hod]
    exact hrun

end Functions

/-! ## Steps -/

section Steps

variable {allowed : (OD → OD) → Prop} {m m' : Machine OD evt dirty}

/-- How a step changes the dictionary and the running configuration. -/
inductive ConfigStep (allowed : (OD → OD) → Prop) (m m' : Machine OD evt dirty) : Prop
  /-- Receive PDOs write to the dictionary, if anything does. -/
  | rpdo (ws : List OdWrite) (hod : Wrote m.node.od ws m'.node.od)
    (hlog : ∀ w ∈ ws, .odWrite .rpdo w m.state ∈ m'.bus.trace)
    (hrun : m'.node.running = m.node.running)
  /-- The application changes the dictionary. -/
  | application (f : OD → OD) (hf : allowed f) (hod : m'.node.od = f m.node.od)
    (hrun : m'.node.running = m.node.running)
  /-- The dictionary refuses a download. -/
  | refused (index : UInt16) (subindex : UInt8) (data : List UInt8) (e : OdError)
    (hw : (ObjectDictionary.write m.node.od index subindex data).1 = .error e)
    (hod : m'.node.od = (ObjectDictionary.write m.node.od index subindex data).2)
    (hrun : m'.node.running = m.node.running)
  /-- A download is committed and what it concerns is re-read. -/
  | committed (index : UInt16) (subindex : UInt8) (data : List UInt8) (nowUs : UInt64)
    (hvalid : validateDownload m.node.od (m.node.sdoContext nowUs) index subindex data = .ok ())
    (hw : (ObjectDictionary.write m.node.od index subindex data).1 = .ok ())
    (hod : m'.node.od = (ObjectDictionary.write m.node.od index subindex data).2)
    (hrun : m.node.running.resyncAfter m'.node.od index = some m'.node.running)
  /-- A reset re-reads everything. -/
  | reset (p : Node.SyncParameters) (hod : m'.node.od = m.node.od)
    (hp : Node.syncParameters m.node.od = some p)
    (hrun : m'.node.running =
      ((m.node.running.rereadPdos m.node.od).rereadHeartbeat m.node.od).withSync p)

theorem configStep_kept (hod : m'.node.od = m.node.od) (hrun : m'.node.running = m.node.running) :
    ConfigStep allowed m m' :=
  .rpdo [] (hod ▸ .nil) (by simp) hrun

theorem slotPollWith_config {σ : Type} (od : OD) (nowUs : UInt64)
    (dirtySet : List (UInt16 × UInt8)) (accept : TpdoSlot → CanFrame → σ → Bool × σ)
    (slot : TpdoSlot) (s : σ) :
    (slot.pollWith od nowUs dirtySet accept s).1.config = slot.config := by
  have hlatched : (slot.latchDirty dirtySet).config = slot.config := by
    unfold TpdoSlot.latchDirty
    split_ifs <;> rfl
  unfold TpdoSlot.pollWith
  split_ifs
  · rfl
  · dsimp only
    split_ifs
    · split
      · dsimp only
        split_ifs <;> exact hlatched
      · exact hlatched
    · exact hlatched

theorem pollWith_configs {σ : Type} (od : OD) (nowUs : UInt64) (dirtySet : List (UInt16 × UInt8))
    (accept : ℕ → TpdoSlot → CanFrame → σ → Bool × σ) (i : ℕ) (slots : List TpdoSlot) (s : σ) :
    (TpdoEngine.pollWith od nowUs dirtySet accept i slots s).1.map (·.config) =
      slots.map (·.config) := by
  induction slots generalizing i s with
  | nil => rfl
  | cons slot slots ih =>
    unfold TpdoEngine.pollWith
    simp only [List.map_cons, slotPollWith_config, ih]

theorem slotOnSync_config (slot : TpdoSlot) (od : OD) : (slot.onSync od).1.config = slot.config := by
  unfold TpdoSlot.onSync
  dsimp only
  split_ifs <;> rfl

omit [ObjectDictionary OD] in
theorem latchEvent_config (slot : TpdoSlot) : slot.latchEvent.config = slot.config := by
  unfold TpdoSlot.latchEvent
  split_ifs <;> rfl

theorem configs_map {σ κ : Type} {config : σ → κ} {f : σ → σ} (hf : ∀ s, config (f s) = config s)
    (slots : List σ) : (slots.map f).map config = slots.map config := by
  rw [List.map_map]
  apply List.map_congr_left
  intro s _
  exact hf s

theorem configs_set {σ κ : Type} {config : σ → κ} {slots : List σ} {i : ℕ} {s s' : σ}
    (hget : slots[i]? = some s) (hs : config s' = config s) :
    (slots.set i s').map config = slots.map config := by
  obtain ⟨hi, rfl⟩ := List.getElem?_eq_some_iff.mp hget
  have hi' : i < (slots.map config).length := by rwa [List.length_map]
  have hold : (slots.map config)[i] = config slots[i] := List.getElem_map config
  rw [List.map_set, hs, ← hold, List.set_getElem_self]

omit [ObjectDictionary OD] in
theorem running_eq_of_quiet (h : Quiet m m') : m'.node.running = m.node.running := by
  simp only [Node.running, SyncProducer.parameters, h.nodeId, h.sdo, h.tpdo, h.rpdo, h.interval,
    h.monitors, h.cob, h.window, h.producer.1, h.producer.2.1, h.producer.2.2]

theorem request_channel {i : ℕ} {ch : SdoChannel} {request : SdoFrame} {nowUs : UInt64}
    (hr : (m.answerRequest i ch request nowUs).1.resync
      (m.answerRequest i ch request nowUs).2 = some m') :
    ∃ ch', m'.node.sdo = m.node.sdo.set i ch' ∧ ch'.cobs = ch.cobs ∧
      ch'.server = (m.requestChannel ch request nowUs).server := by
  obtain ⟨hread, -⟩ := resync_reread hr
  obtain ⟨ch', b', hsdo, -, ⟨-, rfl, -⟩ | ⟨data, -, hsend⟩⟩ := answerRequest_cases m i ch request nowUs
  · exact ⟨_, hread.sdo.trans hsdo, rfl, rfl⟩
  · refine ⟨ch', hread.sdo.trans hsdo, ?_⟩
    have hch' : ch' = (((m.requestChannel ch request nowUs).queue data nowUs).trySend m.state i
        ((m.bus.log (m.requestObs i ch request nowUs)).log [.sdoProduced i data nowUs])).1 :=
      congrArg Prod.fst hsend
    rw [hch']
    rcases trySend_cases m.state i ((m.requestChannel ch request nowUs).queue data nowUs)
        ((m.bus.log (m.requestObs i ch request nowUs)).log [.sdoProduced i data nowUs]) with
      heq | ⟨frame, since, result, -, -, heq⟩
    · rw [heq]
      exact ⟨rfl, rfl⟩
    · rw [heq]
      split_ifs <;> exact ⟨rfl, rfl⟩

/-- No channel has a committed write left to report. -/
def Uncommitted (m : Machine OD evt dirty) : Prop :=
  ∀ ch ∈ m.node.sdo, ch.server.committedWrite = none

omit [ObjectDictionary OD] in
theorem channelStep_committed {state : NmtState} {i : ℕ} {ch ch' : SdoChannel} {b b' : Bus}
    (hs : ChannelStep state i ch b ch' b') :
    ch'.server.committedWrite = ch.server.committedWrite := by
  cases hs with
  | beginPoll nowUs =>
    unfold SdoChannel.beginPoll
    split_ifs
    · rfl
    · unfold SdoServer.checkTimeout
      cases ch.server.transfer with
      | none => rfl
      | some t =>
        dsimp only
        split_ifs <;> rfl
  | trySend =>
    rcases trySend_cases state i ch b with heq | ⟨frame, since, result, -, -, heq⟩
    · rw [heq]
    · rw [heq]
      split_ifs <;> rfl
  | nextSegment b free hpoll =>
    unfold SdoServer.pollBlockUpload at hpoll
    split at hpoll
    · split_ifs at hpoll
      · cases hpoll
      · cases hpoll
        rfl
    · cases hpoll

/-- Only these steps touch the SDO channels. -/
theorem step_sdo (hs : Step allowed m m') :
    m'.node.sdo = m.node.sdo ∨ m'.node.sdo = m.node.sdo.map SdoChannel.abort ∨
    ∃ i ch ch', m.node.sdo[i]? = some ch ∧ m'.node.sdo = m.node.sdo.set i ch' ∧
      ch'.cobs = ch.cobs ∧
      (ch'.server.committedWrite = ch.server.committedWrite ∨ ch'.server.committedWrite = none) := by
  cases hs with
  | quiet hq => exact .inl hq.sdo
  | boot nowUs hb =>
    obtain ⟨heartbeat, frame, result, ⟨hnode, -⟩ | ⟨nmt, -, hnode, -⟩⟩ := boot_cases hb nowUs
    · exact .inl (by rw [hnode])
    · exact .inl (by rw [hnode])
  | channel i hch hstep =>
    have hcobs := channelStep_cobs hstep
    exact .inr (.inr ⟨i, _, _, hch, rfl, Prod.ext hcobs.1 hcobs.2,
      .inl (channelStep_committed hstep)⟩)
  | request i request nowUs hch serves free hr =>
    obtain ⟨ch', hsdo, hcobs, hserver⟩ := request_channel hr
    exact .inr (.inr ⟨i, _, ch', hch, hsdo, hcobs, .inr (by rw [hserver]; rfl)⟩)
  | stateChanged s hnew hne hold =>
    rw [stateChanged_sdo]
    split_ifs
    · exact .inr (.inl rfl)
    · exact .inl rfl
  | reset resetType hr => exact .inr (.inl (requestReset_done hr).sdo)
  | receiveRpdo i frame nowUs operational hslot =>
    left
    unfold Machine.receiveRpdo
    dsimp only
    split_ifs <;> rfl
  | pulse nowUs operational => exact .inl rfl
  | retry nowUs =>
    rcases retryPendingSyncTpdo_cases m nowUs with heq | heq | ⟨-, last, heq⟩ <;>
      exact .inl (by rw [heq])
  | deadlines nowUs =>
    rcases checkDeadlines_cases m nowUs with ⟨-, queue, count, heq⟩ | ⟨-, heq⟩
    · exact .inl (by rw [heq])
    · exact .inl (by rw [heq]; rfl)
  | pollTpdo nowUs =>
    left
    unfold Machine.pollTpdo
    split_ifs <;> rfl
  | latchSyncEvents => exact .inl rfl
  | clearDirty => exact .inl rfl
  | notifyChanged index subindex => exact .inl rfl
  | odMut f h => exact .inl rfl
  | storeErrorRegister emcy h => exact .inl rfl

theorem uncommitted_step (h : Uncommitted m) (hs : Step allowed m m') : Uncommitted m' := by
  unfold Uncommitted at h ⊢
  rcases step_sdo hs with heq | heq | ⟨i, ch, ch', hget, heq, -, hcommitted⟩ <;> rw [heq]
  · exact h
  · intro ch hch
    obtain ⟨ch₀, hch₀, rfl⟩ := List.mem_map.mp hch
    exact h ch₀ hch₀
  · intro ch₀ hch₀
    rcases List.mem_or_eq_of_mem_set hch₀ with hch₀ | rfl
    · exact h ch₀ hch₀
    · rcases hcommitted with hkept | hnone
      · rw [hkept]
        exact h ch (List.mem_of_getElem? hget)
      · exact hnone

theorem configStep_request {i : ℕ} {ch : SdoChannel} {request : SdoFrame} {nowUs : UInt64}
    (hnone : ch.server.committedWrite = none) (hch : m.node.sdo[i]? = some ch)
    (hr : (m.answerRequest i ch request nowUs).1.resync
      (m.answerRequest i ch request nowUs).2 = some m') : ConfigStep allowed m m' := by
  obtain ⟨ch', hsdo, hcobs, -⟩ := request_channel hr
  have hsdoCobs : m'.node.sdo.map SdoChannel.cobs = m.node.sdo.map SdoChannel.cobs := by
    rw [hsdo]
    exact configs_set hch hcobs
  have hod : m'.node.od = (m.served ch request nowUs).1.od := (resync_reread hr).1.od
  have hcommitted : (m.answerRequest i ch request nowUs).2 =
      (m.served ch request nowUs).1.server.committedWrite := rfl
  -- apart from its SDO channels the node is as before until the configuration is re-read
  have hkept (hc : (m.served ch request nowUs).1.server.committedWrite = none) :
      m'.node.running = m.node.running := by
    rw [hcommitted, hc] at hr
    cases hr
    exact congrArg (fun cobs => { m.node.running with sdoCobs := cobs }) hsdoCobs
  rcases processWithContext_cases ⟨ch.server, m.node.od, m.node.eventQueue, []⟩ request
      (m.node.sdoContext nowUs) with ⟨hsame, -⟩ | ⟨index, subindex, data, success, -, heq⟩
  · exact configStep_kept (hod.trans hsame.od) (hkept (hsame.committed.trans hnone))
  · rcases commitDownload_cases ⟨ch.server, m.node.od, m.node.eventQueue, []⟩
        (m.node.sdoContext nowUs) index subindex data success with
      ⟨code, -, h⟩ | ⟨e, code, -, hw, h⟩ | ⟨hvalid, hw, h⟩
    · have hserved : m.served ch request nowUs = _ := heq.trans h
      rw [hserved] at hod hkept
      exact configStep_kept hod (hkept hnone)
    · have hserved : m.served ch request nowUs = _ := heq.trans h
      rw [hserved] at hod hkept
      exact .refused index subindex data e hw hod (hkept hnone)
    · have hserved : m.served ch request nowUs = _ := heq.trans h
      rw [hcommitted, hserved] at hr
      obtain ⟨n, hn, rfl⟩ := Option.map_eq_some_iff.mp hr
      rw [hserved] at hod
      refine .committed index subindex data nowUs hvalid hw hod ?_
      have hrun := resyncAfter_running hn
      have hbefore : (m.answerRequest i ch request nowUs).1.node.running = m.node.running := by
        have hsdo' : (m.answerRequest i ch request nowUs).1.node.sdo = m.node.sdo.set i ch' := by
          rw [← hsdo]
          exact (resyncAfter_reread hn).sdo.symm
        have hcobs' : (m.answerRequest i ch request nowUs).1.node.sdo.map SdoChannel.cobs =
            m.node.sdo.map SdoChannel.cobs := by
          rw [hsdo']
          exact configs_set hch hcobs
        exact congrArg (fun cobs => { m.node.running with sdoCobs := cobs }) hcobs'
      rw [hbefore] at hrun
      exact hrun

theorem configStep_reset {resetType : ResetType} (hr : m.requestReset resetType = some m') :
    ConfigStep allowed m m' := by
  have hdone := requestReset_done hr
  unfold Machine.requestReset Machine.reset Node.resetSyncState at hr
  obtain ⟨n, hn, rfl⟩ := Option.map_eq_some_iff.mp hr
  obtain ⟨n', hn', rfl⟩ := Option.map_eq_some_iff.mp hn
  obtain ⟨p, hp, hrun⟩ := syncConfigFromOd_running hn'
  refine .reset p hdone.od hp ?_
  have haborted : (m.node.sdo.map SdoChannel.abort).map SdoChannel.cobs =
      m.node.sdo.map SdoChannel.cobs :=
    configs_map (f := SdoChannel.abort) (fun _ => rfl) m.node.sdo
  have hrun' : n'.clearSyncState.running = _ :=
    (clearSyncState_running n').trans hrun
  rw [syncHeartbeatFromOd_running, syncPdoFromOd_running] at hrun'
  refine hrun'.trans ?_
  exact congrArg (fun cobs => (({ m.node.running with sdoCobs := cobs }.rereadPdos
    m.node.od).rereadHeartbeat m.node.od).withSync p) haborted

omit [ObjectDictionary OD] in
theorem running_setTpdo (n : Node OD evt dirty) {slots : List TpdoSlot}
    (h : slots.map (·.config) = n.tpdo.slots.map (·.config)) :
    ({ n with tpdo := ⟨slots⟩ } : Node OD evt dirty).running = n.running :=
  congrArg (fun tpdos => { n.running with tpdos := tpdos }) h

omit [ObjectDictionary OD] in
theorem running_setRpdo (n : Node OD evt dirty) {rpdo : RpdoEngine}
    (h : rpdo.slots.map (·.config) = n.rpdo.slots.map (·.config)) :
    ({ n with rpdo := rpdo } : Node OD evt dirty).running = n.running :=
  congrArg (fun rpdos => { n.running with rpdos := rpdos }) h

omit [ObjectDictionary OD] in
theorem running_setSdo (n : Node OD evt dirty) {sdo : List SdoChannel}
    (h : sdo.map SdoChannel.cobs = n.sdo.map SdoChannel.cobs) :
    ({ n with sdo := sdo } : Node OD evt dirty).running = n.running :=
  congrArg (fun cobs => { n.running with sdoCobs := cobs }) h

theorem configStep_commitRpdo {slots : List RpdoSlot} {s : RpdoState OD evt} {obs : List Obs}
    (hw : Wrote m.node.od s.writes s.od)
    (hslots : slots.map (·.config) = m.node.rpdo.slots.map (·.config)) :
    ConfigStep allowed m (m.commitRpdo slots s obs) := by
  refine .rpdo s.writes hw ?_ ?_
  · intro w hw
    refine List.mem_append_right _ (List.mem_append_right _ ?_)
    exact List.mem_map_of_mem hw
  · exact congrArg (fun rpdos => { m.node.running with rpdos := rpdos }) hslots

theorem configStep_pulse (m : Machine OD evt dirty) (nowUs : UInt64) :
    ConfigStep allowed m (m.applyPulse.sendPulse nowUs) := by
  have hslots : (RpdoEngine.onSync m.node.rpdo.slots m.rpdoState).1.map (·.config) =
      m.node.rpdo.slots.map (·.config) := by
    rw [onSync_slots]
    exact configs_map (f := fun slot : RpdoSlot => { slot with pending := none }) (fun _ => rfl) _
  obtain ⟨obs, htrace, -⟩ := sendPulse_trace m.applyPulse nowUs
  have hsent : (m.applyPulse.sendPulse nowUs).node.running = m.applyPulse.node.running :=
    running_setTpdo m.applyPulse.node
      (configs_map (fun slot => slotOnSync_config slot m.applyPulse.node.od) _)
  have hwrites : ∀ w ∈ (RpdoEngine.onSync m.node.rpdo.slots m.rpdoState).2.writes,
      .odWrite .rpdo w m.state ∈ m.applyPulse.bus.trace := by
    intro w hw
    refine List.mem_append_right _ (List.mem_append_right _ ?_)
    exact List.mem_map_of_mem hw
  refine .rpdo _ (onSync_wrote m.node.rpdo.slots .nil) ?_ ?_
  · intro w hw
    rw [htrace]
    exact List.mem_append_left _ (hwrites w hw)
  · rw [hsent]
    exact congrArg (fun rpdos => { m.node.running with rpdos := rpdos }) hslots

/-- Everything a step can do to the dictionary and the running configuration. -/
theorem step_config (hu : Uncommitted m) (hs : Step allowed m m') : ConfigStep allowed m m' := by
  cases hs with
  | quiet hq => exact configStep_kept hq.od (running_eq_of_quiet hq)
  | boot nowUs hb =>
    refine configStep_kept ?_ ?_
    · unfold Machine.boot
      rw [if_neg (by simp [hb])]
      dsimp only
      split_ifs <;> rfl
    · unfold Machine.boot
      rw [if_neg (by simp [hb])]
      dsimp only
      split_ifs <;> rfl
  | channel i hch hstep =>
    refine configStep_kept rfl ?_
    have hcobs := channelStep_cobs hstep
    apply running_setSdo
    exact configs_set hch (Prod.ext hcobs.1 hcobs.2)
  | request i request nowUs hch serves free hr =>
    exact configStep_request (hu _ (List.mem_of_getElem? hch)) hch hr
  | stateChanged s hnew hne hold =>
    refine configStep_kept (stateChanged_od m s) ?_
    rw [stateChanged_node]
    dsimp only
    split_ifs
    · rfl
    · have haborted : (m.node.sdo.map SdoChannel.abort).map SdoChannel.cobs =
          m.node.sdo.map SdoChannel.cobs :=
        configs_map (f := SdoChannel.abort) (fun _ => rfl) m.node.sdo
      let n : Node OD evt dirty := { m.node with nmt := ⟨s⟩ }
      exact (running_setSdo n.leaveOperational haborted).trans (leaveOperational_running n)
    · exact leaveOperational_running _
  | reset resetType hr => exact configStep_reset hr
  | receiveRpdo i frame nowUs operational hslot =>
    unfold Machine.receiveRpdo
    dsimp only
    split_ifs
    · exact configStep_kept rfl rfl
    · refine configStep_kept rfl ?_
      apply running_setRpdo
      exact configs_set hslot rfl
    · exact configStep_commitRpdo (applyMapped_wrote _ _ _ .nil) (configs_set hslot rfl)
  | pulse nowUs operational => exact configStep_pulse m nowUs
  | retry nowUs =>
    rcases retryPendingSyncTpdo_cases m nowUs with heq | heq | ⟨-, last, heq⟩ <;>
      rw [heq] <;> exact configStep_kept rfl rfl
  | deadlines nowUs =>
    rcases checkDeadlines_cases m nowUs with ⟨-, queue, count, heq⟩ | ⟨-, heq⟩
    · rw [heq]
      refine configStep_kept rfl (running_setRpdo m.node ?_)
      apply configs_map
      intro slot
      split_ifs <;> rfl
    · rw [heq]
      exact configStep_kept rfl (leaveOperational_running m.node)
  | pollTpdo nowUs =>
    unfold Machine.pollTpdo
    split_ifs
    · exact configStep_kept rfl (running_setTpdo m.node (pollWith_configs ..))
    · exact configStep_kept rfl rfl
  | latchSyncEvents =>
    have hslots : (m.node.tpdo.latchSyncEvents m.node.dirtySet).slots.map (·.config) =
        m.node.tpdo.slots.map (·.config) := by
      unfold TpdoEngine.latchSyncEvents
      split_ifs
      · rfl
      · apply configs_map
        intro slot
        unfold TpdoSlot.latchSyncEvent
        split_ifs <;> rfl
    exact configStep_kept rfl (running_setTpdo m.node hslots)
  | clearDirty => exact configStep_kept rfl rfl
  | notifyChanged index subindex =>
    refine configStep_kept rfl (running_setTpdo m.node (configs_map ?_ _))
    intro slot
    split_ifs
    · exact latchEvent_config slot
    · rfl
  | odMut f hf =>
    refine .application f hf rfl (running_setTpdo m.node (configs_map ?_ _))
    intro slot
    split_ifs
    · exact latchEvent_config slot
    · rfl
  | storeErrorRegister emcy hf => exact .application _ hf rfl rfl

end Steps
end Canopen
