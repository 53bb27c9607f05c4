import Canopen.Node.Coherence

/-!
# Run-time state of the PDO services

What the PDO services keep from one call to the next, without their configuration.
`PdoAct` lists once how an action changes it: a pulse, a reception, the latch and the
transmit stages, an application event; any other action leaves it alone, or discards
the work in it and ends outside Operational.
-/

namespace Canopen

open Pdo Sdo

variable {OD : Type} [ObjectDictionary OD] {evt dirty : ℕ}

/-- A transmit PDO without its configuration. -/
structure Pdo.TpdoRuntime where
  syncCounter : UInt8
  lastSendUs : UInt64
  syncEventPending : Bool
  asyncEventPending : Bool
  deriving DecidableEq, Repr

def Pdo.TpdoSlot.runtime (slot : TpdoSlot) : TpdoRuntime :=
  ⟨slot.syncCounter, slot.lastSendUs, slot.syncEventPending, slot.asyncEventPending⟩

/-- A receive PDO without its configuration. -/
structure Pdo.RpdoRuntime where
  pending : Option CanFrame
  lastRxUs : UInt64
  armed : Bool
  expired : Bool
  deriving DecidableEq, Repr

def Pdo.RpdoSlot.runtime (slot : RpdoSlot) : RpdoRuntime :=
  ⟨slot.pending, slot.lastRxUs, slot.armed, slot.expired⟩

structure PdoRuntime where
  tpdo : List TpdoRuntime
  rpdo : List RpdoRuntime
  lengthErrors : UInt32
  dirtySet : List (UInt16 × UInt8)
  refused : List CanFrame
  lastAttemptUs : Option UInt64
  windowOpenedUs : UInt64
  windowActive : Bool
  deriving DecidableEq, Repr

def Node.pdoRuntime (n : Node OD evt dirty) : PdoRuntime where
  tpdo := n.tpdo.slots.map TpdoSlot.runtime
  rpdo := n.rpdo.slots.map RpdoSlot.runtime
  lengthErrors := n.rpdo.lengthErrors
  dirtySet := n.dirtySet
  refused := n.pendingSyncTpdo
  lastAttemptUs := n.syncTpdoLastAttemptUs
  windowOpenedUs := n.syncWindow.openedAtUs
  windowActive := n.syncWindow.active

/-- The run-time state once its work is given up. Divisors and send times stay. -/
def PdoRuntime.discard (r : PdoRuntime) : PdoRuntime where
  tpdo := r.tpdo.map ({ · with syncEventPending := false, asyncEventPending := false })
  rpdo := r.rpdo.map ({ · with pending := none, armed := false, expired := false })
  lengthErrors := r.lengthErrors
  dirtySet := []
  refused := []
  lastAttemptUs := none
  windowOpenedUs := 0
  windowActive := false

/-- A reset restarts the divisors, too. -/
def PdoRuntime.restart (r : PdoRuntime) : PdoRuntime :=
  { r.discard with tpdo := r.discard.tpdo.map ({ · with syncCounter := 0 }) }

def Obs.ofPdo : Obs → Bool
  | .offer .syncTpdo _ _ _ => true
  | .offer (.eventTpdo _ _) _ _ _ => true
  | .rpdoReceived _ _ => true
  | .deadlineExpired _ => true
  | .pulse _ => true
  | _ => false

/-- Nothing of the PDO services is recorded between two machines. -/
def QuietPdo (m m' : Machine OD evt dirty) : Prop :=
  ∃ obs, m'.bus.trace = m.bus.trace ++ obs ∧ ∀ o ∈ obs, o.ofPdo = false

/-- An action that leaves the PDO services alone. -/
structure Untouched (m m' : Machine OD evt dirty) : Prop where
  runtime : m'.node.pdoRuntime = m.node.pdoRuntime
  trace : QuietPdo m m'

/-- An action that ends outside Operational; PDO work is given up. -/
structure Discarded (m m' : Machine OD evt dirty) : Prop where
  state : m'.state ≠ .operational
  runtime : m'.node.pdoRuntime = m.node.pdoRuntime.discard ∨
    m'.node.pdoRuntime = m.node.pdoRuntime.restart
  trace : QuietPdo m m'

section Untouched

omit [ObjectDictionary OD]

variable {m m' m'' : Machine OD evt dirty}

theorem quietPdo_refl (m : Machine OD evt dirty) : QuietPdo m m :=
  ⟨[], (List.append_nil _).symm, by simp⟩

theorem QuietPdo.trans (h : QuietPdo m m') (h' : QuietPdo m' m'') : QuietPdo m m'' := by
  obtain ⟨obs, htrace, hobs⟩ := h
  obtain ⟨obs', htrace', hobs'⟩ := h'
  refine ⟨obs ++ obs', ?_, ?_⟩
  · rw [htrace', htrace, List.append_assoc]
  · intro o ho
    rcases List.mem_append.mp ho with ho | ho
    · exact hobs o ho
    · exact hobs' o ho

theorem untouched_refl (m : Machine OD evt dirty) : Untouched m m :=
  ⟨rfl, quietPdo_refl m⟩

theorem Untouched.trans (h : Untouched m m') (h' : Untouched m' m'') : Untouched m m'' :=
  ⟨h'.runtime.trans h.runtime, h.trace.trans h'.trace⟩

theorem ofPdo_of_channel {o : Obs} (h : o.ofChannel = true) : o.ofPdo = false := by
  unfold Obs.ofChannel at h
  split at h
  · rfl
  · rfl
  · rfl
  · rfl
  · cases h

theorem quietPdo_of_channel {b : Bus} (n n' : Node OD evt dirty) (h : ChannelOnly m.bus b) :
    QuietPdo (⟨n, m.bus⟩ : Machine OD evt dirty) ⟨n', b⟩ := by
  obtain ⟨obs, htrace, hobs⟩ := h
  exact ⟨obs, htrace, fun o ho => ofPdo_of_channel (hobs o ho)⟩

theorem quietPdo_of_quiet (h : Quiet m m') : QuietPdo m m' := by
  obtain ⟨obs, htrace, hobs⟩ := h.trace
  refine ⟨obs, htrace, ?_⟩
  intro o ho
  obtain ⟨kind, frame, result, rfl, rfl | ⟨rfl, -⟩ | ⟨rfl, -⟩ | ⟨rfl, -⟩⟩ := hobs o ho
  · rfl
  · rfl
  · rfl
  · rfl

theorem untouched_of_quiet (h : Quiet m m')
    (hlast : m'.node.syncTpdoLastAttemptUs = m.node.syncTpdoLastAttemptUs) : Untouched m m' := by
  refine ⟨?_, quietPdo_of_quiet h⟩
  unfold Node.pdoRuntime
  rw [h.tpdo, h.rpdo, h.dirtySet, h.pendingSyncTpdo, hlast, h.window]

theorem pushHeartbeatEvents_lastAttempt (n : Node OD evt dirty) (l : List HeartbeatEvent) :
    (l.foldl Node.pushHeartbeatEvent n).syncTpdoLastAttemptUs = n.syncTpdoLastAttemptUs := by
  induction l generalizing n with
  | nil => rfl
  | cons e l ih => exact ih _

theorem lssRequest_untouched (m : Machine OD evt dirty) (frame : CanFrame) :
    Untouched m (m.lssRequest frame) := by
  apply untouched_of_quiet (lssRequest_quiet m frame)
  unfold Machine.lssRequest
  dsimp only
  split <;> rfl

theorem heartbeatFrame_untouched {frame : CanFrame} {i : ℕ} {monitor : HeartbeatMonitor}
    (h : m.node.monitorFor frame = some (i, monitor)) (nowUs : UInt64) :
    Untouched m (m.heartbeatFrame i monitor frame nowUs) := by
  apply untouched_of_quiet (heartbeatFrame_quiet h nowUs)
  exact pushHeartbeatEvents_lastAttempt _ _

theorem checkHeartbeats_untouched (m : Machine OD evt dirty) (nowUs : UInt64) :
    Untouched m (m.checkHeartbeats nowUs) := by
  apply untouched_of_quiet (checkHeartbeats_quiet m nowUs)
  exact pushHeartbeatEvents_lastAttempt _ _

theorem sendHeartbeat_untouched (m : Machine OD evt dirty) (nowUs : UInt64) :
    Untouched m (m.sendHeartbeat nowUs) := by
  apply untouched_of_quiet (sendHeartbeat_quiet m nowUs)
  unfold Machine.sendHeartbeat
  split_ifs
  · split
    · dsimp only
      split_ifs <;> rfl
    · rfl
  · rfl

theorem sendEmcys_lastAttempt (k : ℕ) (m : Machine OD evt dirty) :
    (Machine.sendEmcys k m).node.syncTpdoLastAttemptUs = m.node.syncTpdoLastAttemptUs := by
  induction k generalizing m with
  | zero => rfl
  | succ k ih =>
    unfold Machine.sendEmcys
    split
    · dsimp only
      split_ifs
      · exact ih _
      · rfl
    · rfl

theorem sendEmcy_untouched (m : Machine OD evt dirty) : Untouched m m.sendEmcy := by
  apply untouched_of_quiet (sendEmcy_quiet m)
  unfold Machine.sendEmcy
  split_ifs
  · exact sendEmcys_lastAttempt _ m
  · rfl

theorem boot_untouched (m : Machine OD evt dirty) (nowUs : UInt64) :
    Untouched m (m.boot nowUs).1 := by
  by_cases hb : m.node.booted
  · rw [Machine.boot, if_pos hb]
    exact untouched_refl m
  · obtain ⟨heartbeat, frame, result, ⟨hnode, htrace⟩ | ⟨nmt, -, hnode, htrace⟩⟩ :=
      boot_cases (by simpa using hb) nowUs
    · exact ⟨by rw [hnode]; rfl, _, htrace, by simp [Obs.ofPdo]⟩
    · exact ⟨by rw [hnode]; rfl, _, htrace, by simp [Obs.ofPdo]⟩

theorem onChannel_untouched {f : SdoChannel → Bus → SdoChannel × Bus} {i : ℕ}
    (hf : ∀ ch b, ChannelOnly b (f ch b).2) (m : Machine OD evt dirty) :
    Untouched m (m.onChannel i f) := by
  unfold Machine.onChannel
  split
  · next ch _ => exact ⟨rfl, quietPdo_of_channel m.node _ (hf ch m.bus)⟩
  · exact untouched_refl m

theorem onChannels_untouched {f : ℕ → SdoChannel → Bus → SdoChannel × Bus}
    (hf : ∀ i ch b, ChannelOnly b (f i ch b).2) (m : Machine OD evt dirty) :
    Untouched m (m.onChannels f) := by
  unfold Machine.onChannels
  generalize List.range m.node.sdo.length = indices
  induction indices generalizing m with
  | nil => exact untouched_refl m
  | cons i indices ih => exact (onChannel_untouched (hf i) m).trans (ih _)

end Untouched

/-! ## Requests, state changes and resets -/

section Requests

variable {m m' : Machine OD evt dirty}

theorem syncTpdoSlots_runtime (od : OD) (k : ℕ) (slots : List TpdoSlot) (b : ReadBufs) :
    (syncTpdoSlots od k slots b).1.map TpdoSlot.runtime = slots.map TpdoSlot.runtime := by
  induction slots generalizing k b with
  | nil => rfl
  | cons slot slots ih =>
    simp only [syncTpdoSlots, List.map_cons, ih]
    rfl

theorem syncRpdoSlots_runtime (od : OD) (k : ℕ) (slots : List RpdoSlot) (b : ReadBufs) :
    (syncRpdoSlots od k slots b).1.map RpdoSlot.runtime = slots.map RpdoSlot.runtime := by
  induction slots generalizing k b with
  | nil => rfl
  | cons slot slots ih =>
    simp only [syncRpdoSlots, List.map_cons, ih]
    rfl

theorem syncPdoFromOd_runtime (n : Node OD evt dirty) :
    n.syncPdoFromOd.pdoRuntime = n.pdoRuntime := by
  unfold Node.pdoRuntime Node.syncPdoFromOd
  simp only [syncTpdoSlots_runtime, syncRpdoSlots_runtime]

theorem syncConfigFromOd_runtime {n n' : Node OD evt dirty} (h : n.syncConfigFromOd = some n') :
    n'.pdoRuntime = n.pdoRuntime := by
  obtain ⟨p, -, rfl⟩ := Option.map_eq_some_iff.mp h
  rfl

theorem new_runtime {config : NodeConfig} {od : OD} {n : Node OD evt dirty}
    (h : Node.new config od = some n) :
    n.pdoRuntime = (Node.initial config od : Node OD evt dirty).pdoRuntime := by
  obtain ⟨n', hn', hunique⟩ := Option.bind_eq_some_iff.mp h
  split_ifs at hunique
  cases hunique
  unfold Node.configured at hn'
  dsimp only at hn'
  exact (syncConfigFromOd_runtime hn').trans rfl

theorem resyncAfter_runtime {n n' : Node OD evt dirty} {index : UInt16}
    (h : n.resyncAfter index = some n') : n'.pdoRuntime = n.pdoRuntime := by
  unfold Node.resyncAfter at h
  dsimp only at h
  have hpdo : (if isPdoConfigIndex index then n.syncPdoFromOd else n).pdoRuntime = n.pdoRuntime := by
    split_ifs
    · exact syncPdoFromOd_runtime n
    · rfl
  generalize (if isPdoConfigIndex index then n.syncPdoFromOd else n) = n₁ at h hpdo
  have hheartbeat : (if index = 0x1016 ∨ index = 0x1017 then n₁.syncHeartbeatFromOd true
      else n₁).pdoRuntime = n₁.pdoRuntime := by
    split_ifs <;> rfl
  generalize (if index = 0x1016 ∨ index = 0x1017 then n₁.syncHeartbeatFromOd true else n₁) = n₂
    at h hheartbeat
  split_ifs at h
  · rw [syncConfigFromOd_runtime h, hheartbeat, hpdo]
  · cases h
    rw [hheartbeat, hpdo]

theorem answerRequest_runtime (m : Machine OD evt dirty) (i : ℕ) (ch : SdoChannel)
    (request : SdoFrame) (nowUs : UInt64) :
    (m.answerRequest i ch request nowUs).1.node.pdoRuntime = m.node.pdoRuntime := by
  unfold Machine.answerRequest
  dsimp only
  split <;> rfl

theorem request_runtime {i : ℕ} {ch : SdoChannel} {request : SdoFrame} {nowUs : UInt64}
    (h : (m.answerRequest i ch request nowUs).1.resync (m.answerRequest i ch request nowUs).2 =
      some m') : m'.node.pdoRuntime = m.node.pdoRuntime := by
  rw [← answerRequest_runtime m i ch request nowUs]
  unfold Machine.resync at h
  split at h
  · obtain ⟨n, hn, rfl⟩ := Option.map_eq_some_iff.mp h
    exact resyncAfter_runtime hn
  · cases h
    rfl

theorem handleSdoRequest_untouched {i : ℕ} {frame : CanFrame} {nowUs : UInt64}
    (h : m.handleSdoRequest i frame nowUs = some m') : Untouched m m' := by
  unfold Machine.handleSdoRequest at h
  cases hch : m.node.sdo[i]? with
  | none =>
    rw [hch] at h
    cases h
    exact untouched_refl m
  | some ch =>
    simp only [hch] at h
    split_ifs at h
    · cases h
      exact untouched_refl m
    · cases h
      exact untouched_refl m
    · obtain ⟨obs, htrace, hobs⟩ := request_trace h
      refine ⟨?_, _, htrace, ?_⟩
      · exact request_runtime h
      · intro o ho
        rcases List.mem_append.mp ho with ho | ho
        · rcases List.mem_append.mp ho with ho | ho
          · exact ofPdo_of_channel (requestHead_ofChannel _ ho)
          · obtain ⟨w, -, rfl⟩ := List.mem_map.mp ho
            rfl
        · exact ofPdo_of_channel (hobs _ ho)

theorem ofPdo_abortObs {sdo : List SdoChannel} : ∀ o ∈ abortObs sdo, o.ofPdo = false := by
  intro o ho
  obtain ⟨i, frame, reason, idle, rfl⟩ := mem_abortObs ho
  rfl

omit [ObjectDictionary OD] in
theorem leaveOperational_runtime (n : Node OD evt dirty) :
    n.leaveOperational.pdoRuntime = n.pdoRuntime.discard := by
  simp only [Node.pdoRuntime, Node.leaveOperational, PdoRuntime.discard, List.map_map,
    RpdoEngine.discardPending, RpdoEngine.resetDeadlineMonitoring, TpdoEngine.discardAsyncEvents,
    TpdoEngine.discardSyncEvents]
  rfl

omit [ObjectDictionary OD] in
theorem clearSyncState_runtime (n : Node OD evt dirty) :
    n.clearSyncState.pdoRuntime = n.pdoRuntime.restart := by
  simp only [Node.pdoRuntime, Node.clearSyncState, PdoRuntime.restart, PdoRuntime.discard,
    List.map_map, RpdoEngine.discardPending, RpdoEngine.resetDeadlineMonitoring,
    TpdoEngine.resetCommunicationState]
  rfl

theorem requestReset_discarded {resetType : ResetType} (h : m.requestReset resetType = some m') :
    Discarded m m' := by
  have hdone := requestReset_done h
  refine ⟨?_, .inr ?_, _, hdone.trace, ?_⟩
  · rw [hdone.state]
    decide
  · unfold Machine.requestReset Machine.reset Node.resetSyncState at h
    obtain ⟨n, hn, rfl⟩ := Option.map_eq_some_iff.mp h
    obtain ⟨n', hn', rfl⟩ := Option.map_eq_some_iff.mp hn
    change n'.clearSyncState.pdoRuntime = _
    rw [clearSyncState_runtime, syncConfigFromOd_runtime hn']
    change PdoRuntime.restart (Node.pdoRuntime (Node.syncPdoFromOd _)) = _
    rw [syncPdoFromOd_runtime]
    rfl
  · intro o ho
    rcases List.mem_append.mp ho with ho | ho
    · exact ofPdo_abortObs o ho
    · rw [List.mem_singleton.mp ho]
      rfl

omit [ObjectDictionary OD] in
theorem stateChanged_discarded (m : Machine OD evt dirty) {s : NmtState}
    (hs : s ≠ .operational) : Discarded m (m.stateChanged ⟨s⟩) := by
  refine ⟨?_, .inl ?_, _, stateChanged_trace m s, ?_⟩
  · rw [stateChanged_state]
    exact hs
  · rw [stateChanged_node]
    dsimp only
    rw [if_neg hs]
    split_ifs
    · exact leaveOperational_runtime { m.node with nmt := ⟨s⟩ }
    · exact leaveOperational_runtime { m.node with nmt := ⟨s⟩ }
  · intro o ho
    rcases List.mem_cons.mp ho with rfl | ho
    · rfl
    · split_ifs at ho
      · exact ofPdo_abortObs o ho
      · cases ho

omit [ObjectDictionary OD] in
theorem stateChanged_untouched (m : Machine OD evt dirty) :
    Untouched m (m.stateChanged ⟨.operational⟩) := by
  refine ⟨?_, _, stateChanged_trace m .operational, ?_⟩
  · rw [stateChanged_node]
    rfl
  · simp [Machine.stateChangedObs, Obs.ofPdo]

theorem nmtFrame_pdo {frame : CanFrame} (h : m.nmtFrame frame = some m') :
    Untouched m m' ∨ Discarded m m' := by
  unfold Machine.nmtFrame at h
  split_ifs at h
  · split at h
    · next cmd _ =>
      unfold Machine.nmtCommand at h
      rcases m.node.nmt.processCommand_cases cmd (frame.data.getD 1 0) m.node.nodeId with
        hc | ⟨s, -, -, -, -, hc⟩ | hc | hc <;> rw [hc] at h
      · cases h
        exact .inl (untouched_refl m)
      · cases h
        by_cases hs : s = .operational
        · rw [hs]
          exact .inl (stateChanged_untouched m)
        · exact .inr (stateChanged_discarded m hs)
      · exact .inr (requestReset_discarded h)
      · exact .inr (requestReset_discarded h)
    · cases h
      exact .inl (untouched_refl m)
  · cases h
    exact .inl (untouched_refl m)

end Requests

/-! ## Application changes -/

def Machine.emcyAfter (m : Machine OD evt dirty) : Call OD → Option EmcyProducer
  | .setError code bits data => some (m.node.emcy.setError code bits data)
  | .clearError bits => some (m.node.emcy.clearError bits)
  | .clearAllErrors => some m.node.emcy.clearAll
  | _ => none

/-- Whether 0x1001 reads differently from a value. -/
def registerDiffers (od : OD) (value : UInt8) : Bool :=
  match ObjectDictionary.read od 0x1001 0 (FixedBuffer.filled 8 0) with
  | (.ok len, old) => !(len.1 == 1 && old.cells.getD 0 0 == value)
  | (.error _, _) => true

/-- The application changes an object that the PDO maps: it says so, a guard finds a
readable value changed, or the error register changes. -/
def Machine.changes (m : Machine OD evt dirty) (slot : TpdoSlot) : Action OD → Bool
  | .call (.notifyChanged index subindex) _ => slot.maps (index, subindex)
  | .call (.odMut f) _ => slot.config.mappings.any (Machine.mappingChanged m.node.od (f m.node.od))
  | .call c _ => slot.maps (0x1001, 0) &&
    (m.emcyAfter c).any fun emcy => registerDiffers m.node.od emcy.errorRegister
  | _ => false

/-- A call of the application latches an event in the PDOs concerned, and may record the
change in the dirty set. -/
structure Notified (m m' : Machine OD evt dirty) (changes : TpdoSlot → Bool) : Prop where
  slots : m'.node.tpdo.slots = m.node.tpdo.slots.map fun slot =>
    if changes slot then slot.latchEvent else slot
  dirty : ∀ slot : TpdoSlot, slot.hasDirtyMapping m'.node.dirtySet = true →
    slot.hasDirtyMapping m.node.dirtySet = true ∨ changes slot = true
  kept : ∀ slot : TpdoSlot, slot.hasDirtyMapping m.node.dirtySet = true →
    slot.hasDirtyMapping m'.node.dirtySet = true
  runtime : m'.node.pdoRuntime =
    { m.node.pdoRuntime with tpdo := m'.node.pdoRuntime.tpdo, dirtySet := m'.node.dirtySet }
  trace : QuietPdo m m'

section Changes

variable {m m' : Machine OD evt dirty}

theorem hasDirtyMapping_append {slot : TpdoSlot} {dirtySet dirtySet' : List (UInt16 × UInt8)} :
    slot.hasDirtyMapping (dirtySet ++ dirtySet') =
      (slot.hasDirtyMapping dirtySet || slot.hasDirtyMapping dirtySet') := by
  unfold TpdoSlot.hasDirtyMapping
  cases dirtySet with
  | nil => simp
  | cons addr dirtySet =>
    cases dirtySet' with
    | nil => simp
    | cons addr' dirtySet' => simp [List.any_append, Bool.or_assoc]

theorem latch_of_enabled (slot : TpdoSlot) (addr : UInt16 × UInt8) :
    (if slot.config.enabled && slot.maps addr then slot.latchEvent else slot) =
      if slot.maps addr then slot.latchEvent else slot := by
  cases henabled : slot.config.enabled with
  | true => simp
  | false => simp [TpdoSlot.latchEvent, henabled]

omit [ObjectDictionary OD] in
theorem quietPdo_log (m : Machine OD evt dirty) (n : Node OD evt dirty) {obs : List Obs}
    (hobs : ∀ o ∈ obs, o.ofPdo = false) : QuietPdo m (⟨n, m.bus.log obs⟩ : Machine OD evt dirty) :=
  ⟨obs, rfl, hobs⟩

theorem ofPdo_latchObs {selected : TpdoSlot → Bool} {dirtySet : List (UInt16 × UInt8)}
    {slots : List TpdoSlot} : ∀ o ∈ latchObs selected dirtySet slots, o.ofPdo = false := by
  intro o ho
  obtain ⟨i, addr, rfl⟩ := mem_latchObs ho
  rfl

omit [ObjectDictionary OD] in
theorem notifyChanged_notified (m : Machine OD evt dirty) (index : UInt16) (subindex : UInt8) :
    Notified m (m.notifyChanged index subindex) (·.maps (index, subindex)) where
  slots := by
    apply List.map_congr_left
    intro slot _
    exact latch_of_enabled slot _
  dirty slot h := by
    unfold Machine.notifyChanged Machine.log at h
    dsimp only at h
    split_ifs at h
    · exact .inl h
    · rw [hasDirtyMapping_append, Bool.or_eq_true] at h
      apply h.imp id
      intro hmaps
      simpa [TpdoSlot.hasDirtyMapping] using hmaps
  kept slot h := by
    unfold Machine.notifyChanged Machine.log
    dsimp only
    split_ifs
    · exact h
    · rw [hasDirtyMapping_append, h, Bool.true_or]
  runtime := rfl
  trace := by
    apply quietPdo_log
    intro o ho
    rcases List.mem_cons.mp ho with rfl | ho
    · rfl
    · exact ofPdo_latchObs o ho

omit [ObjectDictionary OD] in
/-- A call that concerns no PDO. -/
theorem notified_of_runtime (htpdo : m'.node.tpdo = m.node.tpdo)
    (hruntime : m'.node.pdoRuntime = m.node.pdoRuntime) (htrace : QuietPdo m m') :
    Notified m m' fun _ => false where
  slots := by
    rw [htpdo]
    exact (List.map_id _).symm
  dirty slot h := by
    have hdirty : m'.node.dirtySet = m.node.dirtySet := congrArg PdoRuntime.dirtySet hruntime
    rw [hdirty] at h
    exact .inl h
  kept slot h := by
    have hdirty : m'.node.dirtySet = m.node.dirtySet := congrArg PdoRuntime.dirtySet hruntime
    rw [hdirty]
    exact h
  runtime := hruntime.trans (by
    have hdirty : m'.node.dirtySet = m.node.dirtySet := congrArg PdoRuntime.dirtySet hruntime
    rw [hruntime, hdirty]
    rfl)
  trace := htrace

theorem setEmcy_notified (m : Machine OD evt dirty) (emcy : EmcyProducer) :
    Notified m (m.setEmcy emcy) fun slot =>
      slot.maps (0x1001, 0) && registerDiffers m.node.od emcy.errorRegister := by
  unfold Machine.setEmcy Machine.mirrorErrorRegister
  dsimp only
  change Notified m (if registerDiffers m.node.od emcy.errorRegister then _ else _) _
  cases registerDiffers m.node.od emcy.errorRegister with
  | true =>
    simp only [Bool.and_true, if_true]
    exact { notifyChanged_notified _ 0x1001 0 with }
  | false =>
    simp only [Bool.and_false, Bool.false_eq_true, if_false]
    exact notified_of_runtime rfl rfl (quietPdo_refl m)

theorem odMut_notified (m : Machine OD evt dirty) (f : OD → OD) :
    Notified m (m.odMut f)
      fun slot => slot.config.mappings.any (Machine.mappingChanged m.node.od (f m.node.od)) where
  slots := rfl
  dirty slot h := .inl h
  kept slot h := h
  runtime := rfl
  trace := by
    apply quietPdo_log
    intro o ho
    obtain ⟨⟨slot, i⟩, -, ho⟩ := List.mem_flatMap.mp ho
    rcases List.mem_cons.mp ho with rfl | ho
    · rfl
    · split_ifs at ho
      · rw [List.mem_singleton.mp ho]
        rfl
      · cases ho

/-- A call between two processing calls is a reset or notifies the PDOs. -/
theorem call_notified {c : Call OD} (hc : c.isProcess = false) (h : m.call c = some m') :
    ((∀ slot, m.changes slot (.call c hc) = false) ∧ Discarded m m') ∨
      Notified m m' (m.changes · (.call c hc)) := by
  have hquiet {n : Node OD evt dirty} (hnone : ∀ slot, m.changes slot (.call c hc) = false)
      (htpdo : n.tpdo = m.node.tpdo) (hruntime : n.pdoRuntime = m.node.pdoRuntime) :
      Notified m ⟨n, m.bus⟩ (m.changes · (.call c hc)) := by
    rw [funext hnone]
    exact notified_of_runtime htpdo hruntime (quietPdo_refl m)
  cases c with
  | process nowUs rx answers => cases hc
  | requestReset resetType => exact .inl ⟨fun _ => Bool.and_false _, requestReset_discarded h⟩
  | notifyChanged index subindex =>
    cases h
    exact .inr (notifyChanged_notified m index subindex)
  | setError code bits data =>
    cases h
    exact .inr (setEmcy_notified m _)
  | clearError bits =>
    cases h
    exact .inr (setEmcy_notified m _)
  | clearAllErrors =>
    cases h
    exact .inr (setEmcy_notified m _)
  | odMut f =>
    cases h
    exact .inr (odMut_notified m f)
  | nextEvent =>
    cases h
    exact .inr (hquiet (fun _ => Bool.and_false _) rfl rfl)
  | nextHeartbeatEvent =>
    cases h
    exact .inr (hquiet (fun _ => Bool.and_false _) rfl rfl)
  | takeResetEvent =>
    cases h
    exact .inr (hquiet (fun _ => Bool.and_false _) rfl rfl)

end Changes

/-! ## Actions -/

/-- How an action changes the run-time state of the PDO services. -/
inductive PdoAct (m : Machine OD evt dirty) : Action OD → Machine OD evt dirty → Prop
  | untouched {a m'} (hidle : ∀ slot, m.changes slot a = false)
    (hpulse : m.isPulse a = true → m.state ≠ .operational)
    (hexpire : ∀ nowUs, a ≠ .expire nowUs) (hfinish : ∀ nowUs, a ≠ .finish nowUs)
    (h : Untouched m m') : PdoAct m a m'
  | discarded {a m'} (hidle : ∀ slot, m.changes slot a = false)
    (hpulse : m.isPulse a = false) (hfinish : ∀ nowUs, a ≠ .finish nowUs)
    (h : Discarded m m') : PdoAct m a m'
  | latch {nowUs m'} (h : Untouched m.latchSyncEvents m') : PdoAct m (.expire nowUs) m'
  | receive {nowUs frame i slot} (hs : m.rpdoSlot frame = some (i, slot)) :
    PdoAct m (.frame nowUs frame) (m.receiveRpdo i slot frame nowUs)
  | pulse {a m₁ nowUs} (hp : m.isPulse a = true) (hop : m.state = .operational)
    (hnow : a.nowUs = some nowUs) (hquiet : Quiet m m₁) :
    PdoAct m a (m₁.applyPulse.sendPulse nowUs)
  | finish {nowUs} : PdoAct m (.finish nowUs) (m.finishStages nowUs)
  | notified {c h m'} (hn : Notified m m' (m.changes · (.call c h))) : PdoAct m (.call c h) m'

section Act

variable {m m' : Machine OD evt dirty}

theorem produceSync_untouched {nowUs : UInt64}
    (hp : m.isPulse (.produceSync nowUs) = true → m.state ≠ .operational) :
    Untouched m (m.produceSync nowUs) := by
  unfold Machine.produceSync
  by_cases h : (m.node.booted && m.state != .stopped) = true
  · rw [if_pos h]
    have hpoll := m.node.syncProducer.poll_config nowUs
    cases hf : (m.node.syncProducer.poll nowUs).2 with
    | none => simpa only [hf] using untouched_of_quiet (setProducer_quiet m hpoll) rfl
    | some frame =>
      have hguards := h
      rw [Bool.and_eq_true, bne_iff_ne] at hguards
      have hkind : FrameKind.sync = .lss ∨ (FrameKind.sync = .heartbeat ∧ m.node.booted) ∨
          (FrameKind.sync = .sync ∧ m.node.booted ∧ m.state ≠ .stopped) ∨
          (FrameKind.sync = .emcy ∧ m.node.booted ∧ m.state.servesSdo) :=
        .inr (.inr (.inl ⟨rfl, hguards.1, hguards.2⟩))
      have hsent : Quiet m ⟨{ m.node with
          syncProducer := (m.node.syncProducer.poll nowUs).1.confirmSent nowUs }, m.bus⟩ :=
        setProducer_quiet m hpoll
      simp only [hf]
      unfold Machine.handleSync
      split_ifs with haccepted hop'
      · exact absurd hop' (by
          apply hp
          simp only [Machine.isPulse, h, hf, Option.isSome_some, Bool.and_self, Bool.true_and,
            beq_iff_eq]
          exact haccepted)
      · exact untouched_of_quiet (quiet_transmit hsent frame hkind) rfl
      · exact untouched_of_quiet (quiet_transmit (setProducer_quiet m hpoll) frame hkind) rfl
  · rw [if_neg h]
    exact untouched_refl m

theorem syncFrame_untouched {frame : CanFrame} (nowUs : UInt64)
    (hp : (m.node.sync.process frame).2.isSome = true → m.state ≠ .operational) :
    Untouched m (m.syncFrame frame nowUs) := by
  have hcounter := untouched_of_quiet (syncCounter_quiet m frame) rfl
  unfold Machine.syncFrame
  dsimp only
  split_ifs with hvalid
  · unfold Machine.handleSync
    rw [if_neg (by exact hp hvalid)]
    exact hcounter
  · exact hcounter

theorem frame_pdo {nowUs : UInt64} {frame : CanFrame} (h : m.act (.frame nowUs frame) = some m') :
    PdoAct m (.frame nowUs frame) m' := by
  have hact := h
  have hother (hroute : m.node.route frame ≠ .sync) : m.isPulse (.frame nowUs frame) = false := by
    simp [Machine.isPulse, hroute]
  have huntouched (hroute : m.node.route frame ≠ .sync) (hu : Untouched m m') :
      PdoAct m (.frame nowUs frame) m' :=
    .untouched (fun _ => rfl) (by simp [hother hroute]) (by simp) (by simp) hu
  rw [Machine.act, dispatchFrame_eq] at h
  cases hroute : m.node.route frame with
  | sdo i =>
    rw [hroute] at h
    exact huntouched (by simp [hroute]) (handleSdoRequest_untouched h)
  | sync =>
    by_cases hp : m.isPulse (.frame nowUs frame) = true → m.state ≠ .operational
    · have hvalid : (m.node.sync.process frame).2.isSome = true → m.state ≠ .operational := by
        simpa [Machine.isPulse, hroute] using hp
      rw [hroute] at h
      cases h
      exact .untouched (fun _ => rfl) hp (by simp) (by simp) (syncFrame_untouched nowUs hvalid)
    · rw [Classical.not_imp, not_not] at hp
      obtain ⟨m₁, now, hnow, hquiet, -, rfl⟩ := pulse_eq hp.1 hp.2 hact
      exact .pulse hp.1 hp.2 hnow hquiet
  | nmt =>
    rw [hroute] at h
    rcases nmtFrame_pdo h with hu | hd
    · exact huntouched (by simp [hroute]) hu
    · exact .discarded (fun _ => rfl) (hother (by simp [hroute])) (by simp) hd
  | lss =>
    rw [hroute] at h
    cases h
    exact huntouched (by simp [hroute]) (lssRequest_untouched m frame)
  | monitor i monitor =>
    rw [hroute] at h
    cases h
    exact huntouched (by simp [hroute]) (heartbeatFrame_untouched (route_monitor hroute) nowUs)
  | rpdo =>
    cases hs : m.rpdoSlot frame with
    | some p =>
      rw [(rpdoSlot_act hs nowUs).1] at hact
      cases hact
      exact .receive hs
    | none =>
      have hsame : m.processRpdoFrame frame nowUs = m := by
        unfold Machine.processRpdoFrame
        split_ifs with hop
        · rw [Machine.rpdoSlot, if_pos ⟨hroute, hop⟩] at hs
          split
          · rfl
          · next i hi =>
            rw [hi, Option.bind_some, Option.map_eq_none_iff] at hs
            rw [hs]
        · rfl
      rw [hroute, Machine.take, hsame] at h
      cases h
      exact huntouched (by simp [hroute]) (untouched_refl m)

theorem act_pdo {a : Action OD} (h : m.act a = some m') : PdoAct m a m' := by
  cases a with
  | boot nowUs answers =>
    cases h
    have hanswers : Untouched m ⟨m.node, ⟨answers, m.bus.trace⟩⟩ := ⟨rfl, quietPdo_refl m⟩
    exact .untouched (fun _ => rfl) (by simp [Machine.isPulse]) (by simp) (by simp)
      (hanswers.trans (boot_untouched _ nowUs))
  | expire nowUs =>
    cases h
    exact .latch (onChannels_untouched (fun i ch b => channelStep_ofChannel
      (.beginPoll nowUs ch b : ChannelStep m.state i _ _ _ _)) m.latchSyncEvents)
  | frame nowUs frame => exact frame_pdo h
  | service nowUs =>
    cases h
    exact .untouched (fun _ => rfl) (by simp [Machine.isPulse]) (by simp) (by simp)
      (onChannels_untouched (fun i ch b => service_channelOnly m.state nowUs i ch b) m)
  | produceSync nowUs =>
    by_cases hp : m.isPulse (.produceSync nowUs) = true → m.state ≠ .operational
    · cases h
      exact .untouched (fun _ => rfl) hp (by simp) (by simp) (produceSync_untouched hp)
    · rw [Classical.not_imp, not_not] at hp
      obtain ⟨m₁, now, hnow, hquiet, -, rfl⟩ := pulse_eq hp.1 hp.2 h
      exact .pulse hp.1 hp.2 hnow hquiet
  | finish nowUs =>
    rw [Machine.act_finish h]
    exact .finish
  | call c hc =>
    rcases call_notified hc h with ⟨hidle, hd⟩ | hn
    · exact .discarded hidle rfl (by simp) hd
    · exact .notified hn

end Act

/-! ## Observations and states -/

def Obs.sampled : Obs → Option (List CanFrame)
  | .pulse frames => some frames
  | _ => none

namespace Machine

def isSyncPulse (m : Machine OD evt dirty) (a : Action OD) : Bool :=
  m.state == .operational && m.isPulse a

/-- What an action adds to the trace. -/
def observed (m : Machine OD evt dirty) (a : Action OD) : List Obs :=
  match m.act a with
  | some m' => m'.bus.trace.drop m.bus.trace.length
  | none => []

end Machine

section Stages

variable {m m' : Machine OD evt dirty}

theorem sampled_of_not_pdo {o : Obs} (h : o.ofPdo = false) : o.sampled = none := by
  unfold Obs.sampled
  split
  · cases h
  · rfl

theorem observed_eq {a : Action OD} {obs : List Obs} (ha : m.act a = some m')
    (htrace : m'.bus.trace = m.bus.trace ++ obs) : m.observed a = obs := by
  rw [Machine.observed, ha]
  change m'.bus.trace.drop m.bus.trace.length = obs
  rw [htrace, List.drop_left]

theorem applyPulse_trace (m : Machine OD evt dirty) :
    ∃ obs, m.applyPulse.bus.trace = m.bus.trace ++ obs ∧
      ∀ o ∈ obs, o.ofPdo = false := by
  refine ⟨_, rfl, ?_⟩
  intro o ho
  rcases List.mem_append.mp ho with ho | ho
  · obtain ⟨i, slot, frame, rfl, -⟩ := mem_appliedObs ho
    rfl
  · obtain ⟨w, -, rfl⟩ := List.mem_map.mp ho
    rfl

/-- What a pulse records: the frames it samples, with the dictionary the pulse leaves,
and their offers. -/
theorem pulse_observed {a : Action OD} (hp : m.isSyncPulse a = true) (ha : m.act a = some m') :
    ∃ before offers,
      m.observed a = before ++ .pulse (m.node.tpdo.onSync m'.node.od).2 :: offers ∧
      (∀ o ∈ before, o.ofPdo = false) ∧
      ∀ o ∈ offers, ∃ frame result state, o = .offer .syncTpdo frame result state := by
  rw [Machine.isSyncPulse, Bool.and_eq_true, beq_iff_eq] at hp
  obtain ⟨m₁, nowUs, -, hquiet, -, rfl⟩ := pulse_eq hp.2 hp.1 ha
  obtain ⟨obs, htrace, hobs⟩ := quietPdo_of_quiet hquiet
  obtain ⟨applied, happlied, hbefore⟩ := applyPulse_trace m₁
  obtain ⟨offers, hoffers, hkind⟩ := sendPulse_trace m₁.applyPulse nowUs
  have htpdo : m₁.applyPulse.node.tpdo = m.node.tpdo := hquiet.tpdo
  have hod : (m₁.applyPulse.sendPulse nowUs).node.od = m₁.applyPulse.node.od := rfl
  rw [hod, ← htpdo]
  generalize m₁.applyPulse = m₂ at *
  refine ⟨obs ++ applied ++ sampledObs m₂.node.tpdo.slots, offers, ?_, ?_, ?_⟩
  · apply observed_eq ha
    rw [hoffers, happlied, htrace]
    simp only [List.append_assoc]
  · intro o ho
    rcases List.mem_append.mp ho with ho | ho
    · rcases List.mem_append.mp ho with ho | ho
      · exact hobs o ho
      · exact hbefore o ho
    · obtain ⟨i, slot, rfl, -⟩ := mem_sampledObs ho
      rfl
  · intro o ho
    obtain ⟨frame, -, result, rfl⟩ := hkind o ho
    exact ⟨frame, result, _, rfl⟩

theorem pulse_sampled {a : Action OD} (hp : m.isSyncPulse a = true) (ha : m.act a = some m') :
    (m.observed a).filterMap Obs.sampled = [(m.node.tpdo.onSync m'.node.od).2] := by
  obtain ⟨before, offers, hobserved, hbefore, hoffers⟩ := pulse_observed hp ha
  have hlast : offers.filterMap Obs.sampled = [] := by
    apply List.filterMap_eq_nil_iff.mpr
    intro o ho
    obtain ⟨frame, result, state, rfl⟩ := hoffers o ho
    rfl
  rw [hobserved, List.filterMap_append,
    List.filterMap_eq_nil_iff.mpr fun o ho => sampled_of_not_pdo (hbefore o ho)]
  change [] ++ (m.node.tpdo.onSync m'.node.od).2 :: offers.filterMap Obs.sampled = _
  rw [hlast]
  rfl

/-- A frame of a receive PDO records its reception, if anything of the PDO services. -/
theorem receiveRpdo_trace (m : Machine OD evt dirty) (i : ℕ) (slot : RpdoSlot) (frame : CanFrame)
    (nowUs : UInt64) : ∃ obs, (m.receiveRpdo i slot frame nowUs).bus.trace = m.bus.trace ++ obs ∧
      ∀ o ∈ obs, o = .rpdoReceived i frame ∨ o.ofPdo = false := by
  unfold Machine.receiveRpdo
  dsimp only
  split_ifs
  · exact ⟨[], rfl, by simp⟩
  · exact ⟨_, rfl, fun o ho => .inl (List.mem_singleton.mp ho)⟩
  · refine ⟨_, rfl, ?_⟩
    intro o ho
    rcases List.mem_append.mp ho with ho | ho
    · simp only [List.mem_cons, List.not_mem_nil, or_false] at ho
      rcases ho with rfl | rfl
      · exact .inl rfl
      · exact .inr rfl
    · obtain ⟨w, -, rfl⟩ := List.mem_map.mp ho
      exact .inr rfl

theorem receiveRpdo_tpdo (m : Machine OD evt dirty) (i : ℕ) (slot : RpdoSlot) (frame : CanFrame)
    (nowUs : UInt64) : (m.receiveRpdo i slot frame nowUs).node.tpdo = m.node.tpdo ∧
      (m.receiveRpdo i slot frame nowUs).node.dirtySet = m.node.dirtySet := by
  unfold Machine.receiveRpdo
  dsimp only
  split_ifs <;> exact ⟨rfl, rfl⟩

theorem receiveRpdo_state (m : Machine OD evt dirty) (i : ℕ) (slot : RpdoSlot) (frame : CanFrame)
    (nowUs : UInt64) : (m.receiveRpdo i slot frame nowUs).state = m.state := by
  unfold Machine.receiveRpdo
  dsimp only
  split_ifs <;> rfl

theorem pollTpdo_state (m : Machine OD evt dirty) (nowUs : UInt64) :
    (m.pollTpdo nowUs).state = m.state := by
  unfold Machine.pollTpdo
  split_ifs <;> rfl

omit [ObjectDictionary OD] in
theorem retryPendingSyncTpdo_state (m : Machine OD evt dirty) (nowUs : UInt64) :
    (m.retryPendingSyncTpdo nowUs).state = m.state := by
  rcases retryPendingSyncTpdo_cases m nowUs with heq | heq | ⟨-, last, heq⟩ <;> rw [heq] <;> rfl

omit [ObjectDictionary OD] in
theorem quiet_state (h : Quiet m m') : m'.state = m.state := by
  rw [Machine.state, Machine.state, h.nmt]

omit [ObjectDictionary OD] in
theorem checkDeadlines_state (m : Machine OD evt dirty) (nowUs : UInt64) :
    (m.checkDeadlines nowUs).state = m.state := by
  obtain ⟨-, queue, count, heq⟩ | ⟨-, heq⟩ := checkDeadlines_cases m nowUs
  · rw [heq]
    rfl
  · rw [heq]
    rfl

theorem finishStages_state (m : Machine OD evt dirty) (nowUs : UInt64) :
    (m.finishStages nowUs).state = m.state := by
  unfold Machine.finishStages
  calc (Machine.pollTpdo _ nowUs).clearDirty.state
      = (Machine.sendEmcy _).state := pollTpdo_state _ nowUs
    _ = (Machine.checkHeartbeats _ nowUs).state := quiet_state (sendEmcy_quiet _)
    _ = (Machine.sendHeartbeat _ nowUs).state := quiet_state (checkHeartbeats_quiet _ nowUs)
    _ = (Machine.checkDeadlines _ nowUs).state := quiet_state (sendHeartbeat_quiet _ nowUs)
    _ = (Machine.retryPendingSyncTpdo _ nowUs).state := checkDeadlines_state _ nowUs
    _ = m.state := retryPendingSyncTpdo_state m nowUs

/-- Outside Operational the transmit stages give up the PDO work. -/
theorem finishStages_discarded (hne : m.state ≠ .operational) (nowUs : UInt64) :
    Discarded m (m.finishStages nowUs) := by
  have hstate := finishStages_state m nowUs
  have hretry : (m.retryPendingSyncTpdo nowUs).node.pdoRuntime.discard = m.node.pdoRuntime.discard ∧
      (m.retryPendingSyncTpdo nowUs).bus = m.bus := by
    rcases retryPendingSyncTpdo_cases m nowUs with heq | heq | ⟨hop, -⟩
    · rw [heq]
      exact ⟨rfl, rfl⟩
    · rw [heq]
      exact ⟨rfl, rfl⟩
    · exact absurd hop hne
  have hretried := (retryPendingSyncTpdo_state m nowUs).trans_ne hne
  unfold Machine.finishStages at hstate ⊢
  dsimp only at hstate ⊢
  generalize m.retryPendingSyncTpdo nowUs = m₁ at hretry hretried hstate ⊢
  obtain ⟨hop, -⟩ | ⟨-, hdeadlines⟩ := checkDeadlines_cases m₁ nowUs
  · exact absurd hop hretried
  rw [hdeadlines] at hstate ⊢
  have hleft : ({ m₁ with node := m₁.node.leaveOperational } : Machine OD evt dirty).node.pdoRuntime =
      m.node.pdoRuntime.discard := (leaveOperational_runtime m₁.node).trans hretry.1
  have hbus : ({ m₁ with node := m₁.node.leaveOperational } : Machine OD evt dirty).bus = m.bus :=
    hretry.2
  generalize ({ m₁ with node := m₁.node.leaveOperational } : Machine OD evt dirty) = m₂
    at hleft hbus hstate ⊢
  have hrest := (sendHeartbeat_untouched m₂ nowUs).trans
    ((checkHeartbeats_untouched _ nowUs).trans (sendEmcy_untouched _))
  generalize (Machine.checkHeartbeats (m₂.sendHeartbeat nowUs) nowUs).sendEmcy = m₃
    at hrest hstate ⊢
  have hpoll : m₃.pollTpdo nowUs = m₃ :=
    if_neg fun hop => hne (hstate.symm.trans ((pollTpdo_state m₃ nowUs).trans hop))
  rw [hpoll]
  have hruntime := hrest.runtime.trans hleft
  refine ⟨?_, .inl ?_, ?_⟩
  · intro hop
    rw [hpoll] at hstate
    exact hne (hstate.symm.trans hop)
  · rw [← hruntime]
    have hdirty : m₃.node.dirtySet = [] := congrArg PdoRuntime.dirtySet hruntime
    rw [Machine.clearDirty, ← hdirty]
  · obtain ⟨obs, htrace, hobs⟩ := hrest.trace
    exact ⟨obs, by rw [Machine.clearDirty, htrace, hbus], hobs⟩

end Stages
end Canopen
