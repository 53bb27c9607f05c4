import Canopen.Node.Coherence
import Canopen.Lib.History

/-!
# The SYNC cycle

What happens to SYNC production in a run: the parameters change or the node is reset,
the time base is established, a frame is offered. The spacing of the frames and their
counters are stated over the record of these events, and the local pulse, the refused
frame and the unrelated download over the single actions of the run.
-/

namespace Canopen

open Derive History Pdo Sdo

variable {OD : Type} [ObjectDictionary OD] {evt dirty : ℕ}

/-- What happens to SYNC production. -/
inductive Beat
  /-- The parameters of production change, or the node is reset. -/
  | restart
  /-- The time base is established. -/
  | armed (nowUs : UInt64)
  /-- A frame is offered under a period and a counter overflow, and accepted or not. -/
  | sync (nowUs periodUs : UInt64) (overflow : UInt8) (frame : CanFrame) (accepted : Bool)
  deriving DecidableEq, Repr

namespace Beat

def isRestart : Beat → Bool
  | .restart => true
  | _ => false

/-- The instants a period is measured from: the time base, and every accepted frame. -/
def startUs : Beat → Option UInt64
  | .armed nowUs => some nowUs
  | .sync nowUs _ _ _ true => some nowUs
  | _ => none

def counter : Beat → Option UInt8
  | .sync _ _ _ frame true => frame.data.head?
  | _ => none

/-- The frame on offer, and whether it is accepted. -/
def offered : Beat → Option (CanFrame × Bool)
  | .sync _ _ _ frame accepted => some (frame, accepted)
  | _ => none

end Beat

/-- The counter of the last accepted frame since production was last restarted. -/
def lastCounter (past : List Beat) : Option UInt8 :=
  ((since Beat.isRestart past).filterMap Beat.counter).getLast?

/-- The counter that follows: 1, 2, up to the overflow value, and 1 again. -/
def nextCounter (overflow : UInt8) : Option UInt8 → UInt8
  | none => 1
  | some c => if c = overflow then 1 else c + 1

/-- A frame comes at least a period after every earlier start, in a cycle that has a
time base, and carries the next counter, or nothing when there is no counter. -/
def Beat.InCycle (past : List Beat) : Beat → Prop
  | .sync nowUs periodUs overflow frame _ =>
    (∀ startUs ∈ past.filterMap Beat.startUs, startUs.toNat + periodUs.toNat ≤ nowUs.toNat) ∧
    (∃ armedUs, .armed armedUs ∈ since Beat.isRestart past) ∧
    ((overflow = 0 ∧ frame.data = []) ∨
      (2 ≤ overflow ∧ frame.data = [nextCounter overflow (lastCounter past)]))
  | _ => True

def Obs.isReset : Obs → Bool
  | .reset _ => true
  | _ => false

/-- A SYNC frame that is offered, and whether the transport takes it. -/
def Obs.syncFrame : Obs → Option (CanFrame × Bool)
  | .offer .sync frame result _ => some (frame, result == .accepted)
  | _ => none

/-- Neither a reset nor a SYNC frame. -/
def Obs.sparesSync (o : Obs) : Bool := !o.isReset && o.syncFrame.isNone

theorem sparesSync_iff {o : Obs} : o.sparesSync = true ↔ o.isReset = false ∧ o.syncFrame = none := by
  simp [Obs.sparesSync]

namespace Machine

/-- Between two states the parameters of production change or the node is reset. -/
def restarts (m m' : Machine OD evt dirty) : Bool :=
  m'.node.syncProducer.parameters != m.node.syncProducer.parameters ||
    (m'.bus.trace.drop m.bus.trace.length).any Obs.isReset

/-- What polling the producer comes to. -/
def pollBeats (m : Machine OD evt dirty) (nowUs : UInt64) : List Beat :=
  let p := m.node.syncProducer
  match (p.poll nowUs).2 with
  | some frame =>
    [.sync nowUs p.intervalUs p.overflow frame (m.bus.answers.headD .accepted == .accepted)]
  | none => if p.isEnabled && !p.armed then [.armed nowUs] else []

/-- What an action does to SYNC production. -/
def beats (m : Machine OD evt dirty) : Action OD → List Beat
  | .produceSync nowUs => if m.node.booted && m.state != .stopped then m.pollBeats nowUs else []
  | a =>
    match m.act a with
    | some m' => if m.restarts m' then [.restart] else []
    | none => []

end Machine

/-! ## Actions that leave the producer alone -/

/-- The producer stays as it is, no SYNC frame is offered, and the node is not reset. -/
structure KeepsProducer (m m' : Machine OD evt dirty) : Prop where
  producer : m'.node.syncProducer = m.node.syncProducer
  trace : ∃ obs, m'.bus.trace = m.bus.trace ++ obs ∧ ∀ o ∈ obs, o.sparesSync = true

section KeepsProducer

omit [ObjectDictionary OD]

variable {m m' m'' : Machine OD evt dirty}

theorem keepsProducer_refl (m : Machine OD evt dirty) : KeepsProducer m m :=
  ⟨rfl, [], (List.append_nil _).symm, by simp⟩

theorem KeepsProducer.trans (h : KeepsProducer m m') (h' : KeepsProducer m' m'') :
    KeepsProducer m m'' := by
  obtain ⟨obs, htrace, hobs⟩ := h.trace
  obtain ⟨obs', htrace', hobs'⟩ := h'.trace
  refine ⟨h'.producer.trans h.producer, obs ++ obs', ?_, ?_⟩
  · rw [htrace', htrace, List.append_assoc]
  · intro o ho
    rcases List.mem_append.mp ho with ho | ho
    · exact hobs o ho
    · exact hobs' o ho

theorem keepsProducer_transmit {kind : FrameKind} (hkind : kind ≠ .sync) (frame : CanFrame)
    {n : Node OD evt dirty} (hproducer : n.syncProducer = m.node.syncProducer) :
    KeepsProducer m ⟨n, (m.bus.transmit m.state kind frame).2⟩ := by
  refine ⟨hproducer, [.offer kind frame (m.bus.answers.headD .accepted) m.state], rfl, ?_⟩
  intro o ho
  rw [List.mem_singleton] at ho
  rw [ho]
  cases kind with
  | sync => exact absurd rfl hkind
  | _ => rfl

theorem keepsProducer_node {n : Node OD evt dirty} (hproducer : n.syncProducer = m.node.syncProducer) :
    KeepsProducer m ⟨n, m.bus⟩ :=
  ⟨hproducer, [], (List.append_nil _).symm, by simp⟩

theorem KeepsProducer.restarts (h : KeepsProducer m m') : m.restarts m' = false := by
  obtain ⟨obs, htrace, hobs⟩ := h.trace
  unfold Machine.restarts
  rw [h.producer, htrace, List.drop_left, Bool.or_eq_false_iff]
  refine ⟨by simp, ?_⟩
  rw [List.any_eq_false]
  intro o ho
  rw [(sparesSync_iff.mp (hobs o ho)).1]
  simp

theorem sparesSync_of_channel {o : Obs} (h : o.ofChannel = true) : o.sparesSync = true := by
  cases o with
  | reset resetType => cases h
  | offer kind frame result state =>
    cases kind with
    | sync => cases h
    | _ => rfl
  | _ => rfl

theorem keepsProducer_channels {f : ℕ → SdoChannel → Bus → SdoChannel × Bus}
    (hf : ∀ i ch b, ChannelOnly b (f i ch b).2) (m : Machine OD evt dirty) :
    KeepsProducer m (m.onChannels f) := by
  unfold Machine.onChannels
  generalize List.range m.node.sdo.length = indices
  induction indices generalizing m with
  | nil => exact keepsProducer_refl m
  | cons i indices ih =>
    have hone : KeepsProducer m (m.onChannel i (f i)) := by
      unfold Machine.onChannel
      split
      · next ch _ =>
        obtain ⟨obs, htrace, hobs⟩ := hf i ch m.bus
        exact ⟨rfl, obs, htrace, fun o ho => sparesSync_of_channel (hobs o ho)⟩
      · exact keepsProducer_refl m
    exact hone.trans (ih _)

theorem keepsProducer_boot (m : Machine OD evt dirty) (nowUs : UInt64) :
    KeepsProducer m (m.boot nowUs).1 := by
  by_cases hb : m.node.booted
  · rw [Machine.boot, if_pos hb]
    exact keepsProducer_refl m
  · obtain ⟨heartbeat, frame, result, ⟨hnode, htrace⟩ | ⟨nmt, -, hnode, htrace⟩⟩ :=
      boot_cases (by simpa using hb) nowUs
    · exact ⟨by rw [hnode], _, htrace, by simp [Obs.sparesSync, Obs.isReset, Obs.syncFrame]⟩
    · exact ⟨by rw [hnode], _, htrace, by simp [Obs.sparesSync, Obs.isReset, Obs.syncFrame]⟩

theorem sparesSync_latchObs {selected : TpdoSlot → Bool} {dirtySet : List (UInt16 × UInt8)}
    {slots : List TpdoSlot} : ∀ o ∈ latchObs selected dirtySet slots, o.sparesSync = true := by
  intro o ho
  obtain ⟨i, addr, rfl⟩ := mem_latchObs ho
  rfl

theorem keepsProducer_stateChanged (m : Machine OD evt dirty) (s : NmtState) :
    KeepsProducer m (m.stateChanged ⟨s⟩) := by
  refine ⟨?_, _, stateChanged_trace m s, ?_⟩
  · rw [stateChanged_node]
    dsimp only
    split_ifs <;> rfl
  · intro o ho
    rcases List.mem_cons.mp ho with rfl | ho
    · rfl
    · split_ifs at ho
      · obtain ⟨i, frame, reason, idle, rfl⟩ := mem_abortObs ho
        rfl
      · cases ho

theorem keepsProducer_retry (m : Machine OD evt dirty) (nowUs : UInt64) :
    KeepsProducer m (m.retryPendingSyncTpdo nowUs) := by
  rcases retryPendingSyncTpdo_cases m nowUs with heq | heq | ⟨-, last, heq⟩
  · rw [heq]
    exact keepsProducer_refl m
  · rw [heq]
    exact ⟨rfl, [], (List.append_nil _).symm, by simp⟩
  · rw [heq]
    obtain ⟨obs, htrace, hobs⟩ := transmitAll_trace m.state .syncTpdo m.node.pendingSyncTpdo m.bus
    refine ⟨rfl, obs, htrace, ?_⟩
    intro o ho
    obtain ⟨frame, -, result, rfl⟩ := hobs o ho
    rfl

theorem keepsProducer_deadlines (m : Machine OD evt dirty) (nowUs : UInt64) :
    KeepsProducer m (m.checkDeadlines nowUs) := by
  obtain ⟨-, queue, count, heq⟩ | ⟨-, heq⟩ := checkDeadlines_cases m nowUs
  · rw [heq]
    refine ⟨rfl, _, rfl, ?_⟩
    intro o ho
    obtain ⟨p, -, rfl⟩ := List.mem_map.mp ho
    rfl
  · rw [heq]
    exact ⟨rfl, [], (List.append_nil _).symm, by simp⟩

theorem foldl_pushHeartbeatEvent_producer (n : Node OD evt dirty) (l : List HeartbeatEvent) :
    (l.foldl Node.pushHeartbeatEvent n).syncProducer = n.syncProducer := by
  induction l generalizing n with
  | nil => rfl
  | cons e l ih => exact (ih _).trans rfl

theorem keepsProducer_sendEmcys (k : ℕ) (m : Machine OD evt dirty) :
    KeepsProducer m (Machine.sendEmcys k m) := by
  induction k generalizing m with
  | zero => exact keepsProducer_refl m
  | succ k ih =>
    unfold Machine.sendEmcys
    dsimp only
    split
    · next frame _ =>
      have hemcy : FrameKind.emcy ≠ .sync := by decide
      split_ifs
      · have htaken : KeepsProducer m ⟨{ m.node with emcy := m.node.emcy.takePending },
            (m.bus.transmit m.state .emcy frame).2⟩ := keepsProducer_transmit hemcy frame rfl
        exact htaken.trans (ih _)
      · exact keepsProducer_transmit hemcy frame rfl
    · exact keepsProducer_refl m

theorem keepsProducer_pollTpdo [ObjectDictionary OD] (m : Machine OD evt dirty) (nowUs : UInt64) :
    KeepsProducer m (m.pollTpdo nowUs) := by
  unfold Machine.pollTpdo
  split_ifs
  · obtain ⟨obs, htrace, hobs⟩ := pollWith_trace m.node.od nowUs m.node.dirtySet m.state 0
      m.node.tpdo.slots (m.bus.log (latchObs TpdoSlot.isEventDriven m.node.dirtySet
        m.node.tpdo.slots))
    refine ⟨rfl, _, htrace.trans (List.append_assoc _ _ _), ?_⟩
    intro o ho
    rcases List.mem_append.mp ho with ho | ho
    · exact sparesSync_latchObs o ho
    · obtain ⟨k, slot, -, application, frame, result, rfl, -⟩ := hobs o ho
      rfl
  · exact keepsProducer_refl m

theorem keepsProducer_finish [ObjectDictionary OD] (m : Machine OD evt dirty) (nowUs : UInt64) :
    KeepsProducer m (m.finishStages nowUs) := by
  have hheartbeat (m : Machine OD evt dirty) : KeepsProducer m (m.sendHeartbeat nowUs) := by
    unfold Machine.sendHeartbeat
    dsimp only
    split_ifs
    · split
      · next frame _ =>
        have hkind : FrameKind.heartbeat ≠ .sync := by decide
        split_ifs
        · apply keepsProducer_transmit hkind frame
          rfl
        · exact keepsProducer_transmit hkind frame rfl
      · exact keepsProducer_refl m
    · exact keepsProducer_refl m
  have hmonitors (m : Machine OD evt dirty) : KeepsProducer m (m.checkHeartbeats nowUs) :=
    keepsProducer_node (foldl_pushHeartbeatEvent_producer _ _)
  have hemcy (m : Machine OD evt dirty) : KeepsProducer m m.sendEmcy := by
    unfold Machine.sendEmcy
    split_ifs
    · exact keepsProducer_sendEmcys _ m
    · exact keepsProducer_refl m
  have hclear (m : Machine OD evt dirty) : KeepsProducer m m.clearDirty := keepsProducer_node rfl
  unfold Machine.finishStages
  apply (keepsProducer_retry m nowUs).trans
  apply (keepsProducer_deadlines _ nowUs).trans
  apply (hheartbeat _).trans
  apply (hmonitors _).trans
  apply (hemcy _).trans
  exact (keepsProducer_pollTpdo _ nowUs).trans (hclear _)

theorem keepsProducer_commit (m : Machine OD evt dirty) (slots : List RpdoSlot)
    (s : RpdoState OD evt) {obs : List Obs} (hobs : ∀ o ∈ obs, o.sparesSync = true) :
    KeepsProducer m (m.commitRpdo slots s obs) := by
  refine ⟨rfl, _, rfl, ?_⟩
  intro o ho
  rcases List.mem_append.mp ho with ho | ho
  · exact hobs o ho
  · obtain ⟨w, -, rfl⟩ := List.mem_map.mp ho
    rfl

theorem keepsProducer_sync [ObjectDictionary OD] (m : Machine OD evt dirty) (nowUs : UInt64) :
    KeepsProducer m (m.handleSync nowUs) := by
  unfold Machine.handleSync
  split_ifs
  · have happlied : KeepsProducer m m.applyPulse := by
      apply keepsProducer_commit
      intro o ho
      obtain ⟨i, slot, frame, rfl, -⟩ := mem_appliedObs ho
      rfl
    obtain ⟨obs, htrace, hobs⟩ := sendPulse_trace m.applyPulse nowUs
    apply happlied.trans
    refine ⟨rfl, _, htrace, ?_⟩
    intro o ho
    rcases List.mem_append.mp ho with ho | ho
    · obtain ⟨i, slot, rfl, -⟩ := mem_sampledObs ho
      rfl
    · rcases List.mem_cons.mp ho with rfl | ho
      · rfl
      · obtain ⟨frame, -, result, rfl⟩ := hobs o ho
        rfl
  · exact keepsProducer_refl m

theorem keepsProducer_rpdo [ObjectDictionary OD] (m : Machine OD evt dirty) (frame : CanFrame)
    (nowUs : UInt64) : KeepsProducer m (m.processRpdoFrame frame nowUs) := by
  unfold Machine.processRpdoFrame
  split_ifs
  · split
    · exact keepsProducer_refl m
    · split
      · unfold Machine.receiveRpdo
        dsimp only
        split_ifs
        · exact ⟨rfl, [], rfl, by simp⟩
        · exact ⟨rfl, _, rfl, by simp [Obs.sparesSync, Obs.isReset, Obs.syncFrame]⟩
        · exact keepsProducer_commit m _ _ (by simp [Obs.sparesSync, Obs.isReset, Obs.syncFrame])
      · exact keepsProducer_refl m
  · exact keepsProducer_refl m

theorem keepsProducer_setEmcy [ObjectDictionary OD] (m : Machine OD evt dirty)
    (emcy : EmcyProducer) : KeepsProducer m (m.setEmcy emcy) := by
  unfold Machine.setEmcy Machine.mirrorErrorRegister
  dsimp only
  split_ifs
  · refine ⟨rfl, _, rfl, ?_⟩
    intro o ho
    rcases List.mem_cons.mp ho with rfl | ho
    · rfl
    · exact sparesSync_latchObs o ho
  · exact ⟨rfl, [], (List.append_nil _).symm, by simp⟩

end KeepsProducer

/-! ## Reconfiguration and reset -/

/-- The producer is as it was, or it starts afresh; no SYNC frame is offered. -/
structure ProducerStep (m m' : Machine OD evt dirty) : Prop where
  kept : m.restarts m' = false → m'.node.syncProducer = m.node.syncProducer
  fresh : m.restarts m' = true →
    m'.node.syncProducer.armed = false ∧ m'.node.syncProducer.counter = 0
  overflow : m'.node.syncProducer.overflow = m.node.syncProducer.overflow ∨
    isValidSyncCounterOverflow m'.node.syncProducer.overflow = true
  silent : ∃ obs, m'.bus.trace = m.bus.trace ++ obs ∧ ∀ o ∈ obs, o.syncFrame = none

section Reconfiguration

variable {m m' : Machine OD evt dirty}

omit [ObjectDictionary OD] in
theorem KeepsProducer.step (h : KeepsProducer m m') : ProducerStep m m' := by
  obtain ⟨obs, htrace, hobs⟩ := h.trace
  refine ⟨fun _ => h.producer, ?_, .inl (by rw [h.producer]), obs, htrace, ?_⟩
  · intro hrestart
    rw [h.restarts] at hrestart
    cases hrestart
  · exact fun o ho => (sparesSync_iff.mp (hobs o ho)).2

omit [ObjectDictionary OD] in
/-- New parameters restart production; the old ones leave it alone. -/
theorem configure_step {cobId : UInt16} {intervalUs : UInt64} {overflow : UInt8} {obs : List Obs}
    (hproducer : m'.node.syncProducer = m.node.syncProducer.configure cobId intervalUs overflow)
    (hvalid : isValidSyncCounterOverflow overflow = true)
    (htrace : m'.bus.trace = m.bus.trace ++ obs) (hobs : ∀ o ∈ obs, o.sparesSync = true) :
    ProducerStep m m' := by
  unfold SyncProducer.configure at hproducer
  split_ifs at hproducer with hsame
  · exact KeepsProducer.step ⟨hproducer, obs, htrace, hobs⟩
  · have hchanged : m.restarts m' = true := by
      unfold Machine.restarts
      rw [Bool.or_eq_true]
      left
      rw [bne_iff_ne, hproducer]
      intro heq
      simp only [SyncProducer.parameters, Prod.mk.injEq] at heq
      exact hsame ⟨heq.1.symm, heq.2.1.symm, heq.2.2.symm⟩
    refine ⟨?_, ?_, ?_, obs, htrace, ?_⟩
    · intro hkept
      rw [hchanged] at hkept
      cases hkept
    · intro _
      rw [hproducer]
      exact ⟨rfl, rfl⟩
    · rw [hproducer]
      exact .inr hvalid
    · exact fun o ho => (sparesSync_iff.mp (hobs o ho)).2

theorem syncParameters_overflow {od : OD} {p : Node.SyncParameters}
    (h : Node.syncParameters od = some p) : isValidSyncCounterOverflow p.overflow = true := by
  unfold Node.syncParameters at h
  dsimp only at h
  split at h
  · obtain ⟨sync, -, hrest⟩ := Option.bind_eq_some_iff.mp h
    obtain ⟨hvalid, hp⟩ := Option.ite_none_right_eq_some.mp hrest
    cases hp
    exact hvalid
  · obtain ⟨sync, -, hrest⟩ := Option.bind_eq_some_iff.mp h
    obtain ⟨hvalid, hp⟩ := Option.ite_none_right_eq_some.mp hrest
    cases hp
    exact hvalid

/-- A committed download re-reads the SYNC objects, if it is one of them. -/
theorem resyncAfter_producer {n n' : Node OD evt dirty} {index : UInt16}
    (h : n.resyncAfter index = some n') : n'.syncProducer = n.syncProducer ∨
      ∃ p, Node.syncParameters n'.od = some p ∧ n'.syncProducer =
        n.syncProducer.configure (if p.produce then p.cobId else 0) p.periodUs p.overflow := by
  have hod := (resyncAfter_reread h).od
  unfold Node.resyncAfter at h
  dsimp only at h
  have hpdo : (if isPdoConfigIndex index then n.syncPdoFromOd else n).syncProducer =
        n.syncProducer ∧ (if isPdoConfigIndex index then n.syncPdoFromOd else n).od = n.od := by
    split_ifs <;> exact ⟨rfl, rfl⟩
  generalize (if isPdoConfigIndex index then n.syncPdoFromOd else n) = n₁ at h hpdo
  have hheartbeat : (if index = 0x1016 ∨ index = 0x1017 then n₁.syncHeartbeatFromOd true
        else n₁).syncProducer = n₁.syncProducer ∧
      (if index = 0x1016 ∨ index = 0x1017 then n₁.syncHeartbeatFromOd true else n₁).od = n₁.od := by
    split_ifs <;> exact ⟨rfl, rfl⟩
  generalize (if index = 0x1016 ∨ index = 0x1017 then n₁.syncHeartbeatFromOd true else n₁) = n₂
    at h hheartbeat
  split_ifs at h
  · obtain ⟨p, hp, rfl⟩ := Option.map_eq_some_iff.mp h
    refine .inr ⟨p, ?_, ?_⟩
    · rw [hod, ← hpdo.2, ← hheartbeat.2]
      exact hp
    · rw [← hpdo.1, ← hheartbeat.1]
      rfl
  · cases h
    exact .inl (hheartbeat.1.trans hpdo.1)

theorem handleSdoRequest_producer {i : ℕ} {frame : CanFrame} {nowUs : UInt64}
    (h : m.handleSdoRequest i frame nowUs = some m') :
    m'.node.syncProducer = m.node.syncProducer ∨
      ∃ p, Node.syncParameters m'.node.od = some p ∧ m'.node.syncProducer =
        m.node.syncProducer.configure (if p.produce then p.cobId else 0) p.periodUs p.overflow := by
  unfold Machine.handleSdoRequest at h
  cases hch : m.node.sdo[i]? with
  | none =>
    rw [hch] at h
    cases h
    exact .inl rfl
  | some ch =>
    simp only [hch] at h
    split_ifs at h
    · cases h
      exact .inl rfl
    · cases h
      exact .inl rfl
    · have hkept : (m.answerRequest i ch (SdoFrame.ofData frame.data) nowUs).1.node.syncProducer =
          m.node.syncProducer := rfl
      generalize m.answerRequest i ch (SdoFrame.ofData frame.data) nowUs = r at h hkept
      unfold Machine.resync at h
      split at h
      · obtain ⟨n, hn, rfl⟩ := Option.map_eq_some_iff.mp h
        rw [← hkept]
        exact resyncAfter_producer hn
      · cases h
        exact .inl hkept

theorem handleSdoRequest_sparesSync {i : ℕ} {frame : CanFrame} {nowUs : UInt64}
    (h : m.handleSdoRequest i frame nowUs = some m') :
    ∃ obs, m'.bus.trace = m.bus.trace ++ obs ∧ ∀ o ∈ obs, o.sparesSync = true := by
  unfold Machine.handleSdoRequest at h
  cases hch : m.node.sdo[i]? with
  | none =>
    rw [hch] at h
    cases h
    exact (keepsProducer_refl m).trace
  | some ch =>
    simp only [hch] at h
    split_ifs at h
    · cases h
      exact (keepsProducer_refl m).trace
    · cases h
      exact (keepsProducer_refl m).trace
    · obtain ⟨obs, htrace, hobs⟩ := request_trace h
      refine ⟨_, htrace, ?_⟩
      intro o ho
      rcases List.mem_append.mp ho with ho | ho
      · rcases List.mem_append.mp ho with ho | ho
        · exact sparesSync_of_channel (requestHead_ofChannel o ho)
        · obtain ⟨w, -, rfl⟩ := List.mem_map.mp ho
          rfl
      · exact sparesSync_of_channel (hobs o ho)

theorem handleSdoRequest_step {i : ℕ} {frame : CanFrame} {nowUs : UInt64}
    (h : m.handleSdoRequest i frame nowUs = some m') : ProducerStep m m' := by
  obtain ⟨obs, htrace, hobs⟩ := handleSdoRequest_sparesSync h
  rcases handleSdoRequest_producer h with hkept | ⟨p, hp, hproducer⟩
  · exact KeepsProducer.step ⟨hkept, obs, htrace, hobs⟩
  · exact configure_step hproducer (syncParameters_overflow hp) htrace hobs

theorem requestReset_step {resetType : ResetType} (h : m.requestReset resetType = some m') :
    ProducerStep m m' := by
  have htrace := (requestReset_done h).trace
  have hrestart : m.restarts m' = true := by
    unfold Machine.restarts
    rw [Bool.or_eq_true]
    right
    rw [htrace, List.drop_left]
    simp [Obs.isReset]
  unfold Machine.requestReset Machine.reset Node.resetSyncState at h
  obtain ⟨n, hn, rfl⟩ := Option.map_eq_some_iff.mp h
  obtain ⟨n', hn', rfl⟩ := Option.map_eq_some_iff.mp hn
  obtain ⟨p, hp, rfl⟩ := Option.map_eq_some_iff.mp hn'
  refine ⟨?_, fun _ => ⟨rfl, rfl⟩, ?_, _, htrace, ?_⟩
  · intro hkept
    rw [hrestart] at hkept
    cases hkept
  · right
    have hparameters := configure_parameters m.node.syncProducer (if p.produce then p.cobId else 0)
      p.periodUs p.overflow
    have hoverflow := congrArg (·.2.2) hparameters
    change isValidSyncCounterOverflow (m.node.syncProducer.configure
      (if p.produce then p.cobId else 0) p.periodUs p.overflow).overflow = true
    rw [show (m.node.syncProducer.configure (if p.produce then p.cobId else 0) p.periodUs
      p.overflow).overflow = p.overflow from hoverflow]
    exact syncParameters_overflow hp
  · intro o ho
    rcases List.mem_append.mp ho with ho | ho
    · obtain ⟨i, frame, reason, idle, rfl⟩ := mem_abortObs ho
      rfl
    · rw [List.mem_singleton.mp ho]
      rfl

theorem nmtFrame_step {frame : CanFrame} (h : m.nmtFrame frame = some m') :
    ProducerStep m m' := by
  unfold Machine.nmtFrame at h
  split_ifs at h
  · split at h
    · next cmd _ =>
      unfold Machine.nmtCommand at h
      rcases m.node.nmt.processCommand_cases cmd (frame.data.getD 1 0) m.node.nodeId with
        hc | ⟨s, -, -, -, -, hc⟩ | hc | hc <;> rw [hc] at h
      · cases h
        exact (keepsProducer_refl m).step
      · cases h
        exact (keepsProducer_stateChanged m s).step
      · exact requestReset_step h
      · exact requestReset_step h
    · cases h
      exact (keepsProducer_refl m).step
  · cases h
    exact (keepsProducer_refl m).step

theorem call_step {c : Call OD} (hc : c.isProcess = false) (h : m.call c = some m') :
    ProducerStep m m' := by
  have hkept {obs : List Obs} (hproducer : m'.node.syncProducer = m.node.syncProducer)
      (htrace : m'.bus.trace = m.bus.trace ++ obs) (hobs : ∀ o ∈ obs, o.sparesSync = true) :
      ProducerStep m m' := KeepsProducer.step ⟨hproducer, obs, htrace, hobs⟩
  cases c with
  | process nowUs rx answers => cases hc
  | requestReset resetType => exact requestReset_step h
  | notifyChanged index subindex =>
    cases h
    refine hkept rfl rfl ?_
    intro o ho
    rcases List.mem_cons.mp ho with rfl | ho
    · rfl
    · exact sparesSync_latchObs o ho
  | setError code bits data =>
    cases h
    exact (keepsProducer_setEmcy m _).step
  | clearError bits =>
    cases h
    exact (keepsProducer_setEmcy m _).step
  | clearAllErrors =>
    cases h
    exact (keepsProducer_setEmcy m _).step
  | odMut f =>
    cases h
    refine hkept rfl rfl ?_
    intro o ho
    obtain ⟨⟨slot, i⟩, -, ho⟩ := List.mem_flatMap.mp ho
    rcases List.mem_cons.mp ho with rfl | ho
    · rfl
    · split_ifs at ho
      · rw [List.mem_singleton] at ho
        rw [ho]
        rfl
      · cases ho
  | nextEvent =>
    cases h
    exact hkept rfl (List.append_nil _).symm (by simp)
  | nextHeartbeatEvent =>
    cases h
    exact hkept rfl (List.append_nil _).symm (by simp)
  | takeResetEvent =>
    cases h
    exact hkept rfl (List.append_nil _).symm (by simp)

/-- Every action but SYNC production keeps the producer or starts it afresh. -/
theorem act_step {a : Action OD} (ha : ∀ nowUs, a ≠ .produceSync nowUs)
    (h : m.act a = some m') : ProducerStep m m' := by
  cases a with
  | boot nowUs answers =>
    cases h
    have hanswers : KeepsProducer m ⟨m.node, ⟨answers, m.bus.trace⟩⟩ :=
      ⟨rfl, [], (List.append_nil _).symm, by simp⟩
    exact (hanswers.trans (keepsProducer_boot _ nowUs)).step
  | expire nowUs =>
    cases h
    have hlatch : KeepsProducer m m.latchSyncEvents := ⟨rfl, _, rfl, sparesSync_latchObs⟩
    apply (hlatch.trans (keepsProducer_channels _ _)).step
    intro i ch b
    exact channelStep_ofChannel (.beginPoll nowUs ch b : ChannelStep m.state i _ _ _ _)
  | frame nowUs frame =>
    rw [Machine.act, dispatchFrame_eq] at h
    cases hroute : m.node.route frame with
    | sdo i =>
      rw [hroute] at h
      exact handleSdoRequest_step h
    | sync =>
      rw [hroute] at h
      cases h
      have hcounter : KeepsProducer m ⟨{ m.node with sync := (m.node.sync.process frame).1 },
          m.bus⟩ := ⟨rfl, [], (List.append_nil _).symm, by simp⟩
      unfold Machine.syncFrame
      dsimp only
      split_ifs
      · exact (hcounter.trans (keepsProducer_sync _ nowUs)).step
      · exact hcounter.step
    | nmt =>
      rw [hroute] at h
      exact nmtFrame_step h
    | lss =>
      rw [hroute] at h
      cases h
      apply KeepsProducer.step
      unfold Machine.lssRequest
      dsimp only
      split
      · next frame _ =>
        have hkind : FrameKind.lss ≠ .sync := by decide
        apply keepsProducer_transmit hkind frame
        rfl
      · apply keepsProducer_node
        rfl
    | monitor i monitor =>
      rw [hroute] at h
      cases h
      have hkept : KeepsProducer m (m.heartbeatFrame i monitor frame nowUs) :=
        keepsProducer_node (foldl_pushHeartbeatEvent_producer _ _)
      exact hkept.step
    | rpdo =>
      rw [hroute] at h
      cases h
      exact (keepsProducer_rpdo m frame nowUs).step
  | service nowUs =>
    cases h
    exact (keepsProducer_channels
      (fun i ch b => service_channelOnly m.state nowUs i ch b) m).step
  | produceSync nowUs => exact absurd rfl (ha nowUs)
  | finish nowUs =>
    rw [Machine.act_finish h]
    exact (keepsProducer_finish m nowUs).step
  | call c hc => exact call_step hc h

end Reconfiguration

/-! ## The cycle -/

/-- What the producer knows of the record, up to the time `clock`. -/
structure Cycle (past : List Beat) (clock : ℕ) (p : SyncProducer) : Prop where
  overflow : p.overflow = 0 ∨ 2 ≤ p.overflow
  counter : lastCounter past = if p.counter = 0 then none else some p.counter
  counter_le : p.counter ≤ p.overflow
  starts : ∀ t ∈ past.filterMap Beat.startUs, t.toNat ≤ clock
  fresh : p.armed = false → p.counter = 0
  sent : p.armed = true → p.lastSentUs.toNat ≤ clock ∧
    (∀ t ∈ past.filterMap Beat.startUs, t.toNat ≤ p.lastSentUs.toNat) ∧
    ∃ t, .armed t ∈ since Beat.isRestart past

section Cycle

variable {past : List Beat} {clock : ℕ} {p p' : SyncProducer}

theorem Cycle.mono (h : Cycle past clock p) {clock' : ℕ} (hle : clock ≤ clock') :
    Cycle past clock' p where
  overflow := h.overflow
  counter := h.counter
  counter_le := h.counter_le
  starts t ht := (h.starts t ht).trans hle
  fresh := h.fresh
  sent harmed := ⟨(h.sent harmed).1.trans hle, (h.sent harmed).2⟩

theorem since_append_beat {b : Beat} (hb : b.isRestart = false) (past : List Beat) :
    since Beat.isRestart (past ++ [b]) = since Beat.isRestart past ++ [b] := by
  apply since_append_of_not_cut
  simpa using hb

theorem lastCounter_append {b : Beat} (hb : b.isRestart = false) (past : List Beat) :
    lastCounter (past ++ [b]) = b.counter.or (lastCounter past) := by
  unfold lastCounter
  rw [since_append_beat hb, List.filterMap_append]
  cases hc : b.counter with
  | none => simp [hc]
  | some c => simp [hc]

/-- Production starts afresh. -/
theorem Cycle.restart (h : Cycle past clock p) (harmed : p'.armed = false)
    (hcounter : p'.counter = 0) (hoverflow : p'.overflow = 0 ∨ 2 ≤ p'.overflow) :
    Cycle (past ++ [.restart]) clock p' := by
  have hsince : since Beat.isRestart (past ++ [.restart]) = [] :=
    since_append_cut past rfl (by simp)
  refine ⟨hoverflow, ?_, ?_, ?_, fun _ => hcounter, ?_⟩
  · rw [lastCounter, hsince, hcounter]
    rfl
  · rw [hcounter]
    exact UInt8.zero_le
  · rw [List.filterMap_append]
    simpa [Beat.startUs] using h.starts
  · rw [harmed]
    intro hfalse
    cases hfalse

/-- The time base is established. -/
theorem Cycle.arm (h : Cycle past clock p) {nowUs : UInt64}
    (hnow : clock ≤ nowUs.toNat) :
    Cycle (past ++ [.armed nowUs]) nowUs.toNat { p with armed := true, lastSentUs := nowUs } := by
  have hstarts : ∀ t ∈ (past ++ [Beat.armed nowUs]).filterMap Beat.startUs,
      t.toNat ≤ nowUs.toNat := by
    rw [List.filterMap_append]
    intro t ht
    rcases List.mem_append.mp ht with ht | ht
    · exact (h.starts t ht).trans hnow
    · rw [show t = nowUs by simpa [Beat.startUs] using ht]
  refine ⟨h.overflow, ?_, h.counter_le, hstarts, ?_, ?_⟩
  · rw [lastCounter_append rfl]
    exact h.counter
  · intro hfalse
    cases hfalse
  · intro _
    refine ⟨le_rfl, hstarts, nowUs, ?_⟩
    rw [since_append_beat rfl]
    exact List.mem_append_right _ List.mem_cons_self

theorem poll_due {p : SyncProducer} {nowUs : UInt64} (henabled : p.isEnabled = true)
    (harmed : p.armed = true) (hlate : p.intervalUs ≤ nowUs - p.lastSentUs) :
    p.poll nowUs = (p, CanFrame.new p.cobId (if 2 ≤ p.overflow then [p.peekCounter] else [])) := by
  unfold SyncProducer.poll
  rw [henabled, harmed, if_neg (by decide), if_neg (by decide), if_neg (UInt64.not_lt.mpr hlate)]
  split_ifs <;> rfl

/-- What polling does: nothing, establish the time base, or hand out the due frame. -/
theorem poll_cases (p : SyncProducer) (nowUs : UInt64) :
    (p.poll nowUs = (p, none) ∧ (p.isEnabled && !p.armed) = false) ∨
    (p.poll nowUs = ({ p with armed := true, lastSentUs := nowUs }, none) ∧ p.armed = false ∧
      (p.isEnabled && !p.armed) = true) ∨
    (p.isEnabled = true ∧ p.armed = true ∧ p.intervalUs ≤ nowUs - p.lastSentUs ∧
      p.poll nowUs = (p, CanFrame.new p.cobId (if 2 ≤ p.overflow then [p.peekCounter] else []))) := by
  cases henabled : p.isEnabled with
  | false => exact .inl ⟨by simp [SyncProducer.poll, henabled], by simp⟩
  | true =>
    cases harmed : p.armed with
    | false => exact .inr (.inl ⟨by simp [SyncProducer.poll, henabled, harmed], rfl, by simp⟩)
    | true =>
      by_cases hearly : nowUs - p.lastSentUs < p.intervalUs
      · exact .inl ⟨by simp [SyncProducer.poll, henabled, harmed, hearly], by simp⟩
      · have hlate := UInt64.not_lt.mp hearly
        exact .inr (.inr ⟨rfl, rfl, hlate, poll_due henabled harmed hlate⟩)

theorem Cycle.peekCounter (h : Cycle past clock p) (hcounted : 2 ≤ p.overflow) :
    p.peekCounter = nextCounter p.overflow (lastCounter past) := by
  have hle := h.counter_le
  rw [h.counter]
  unfold SyncProducer.peekCounter
  split_ifs with hwrap hzero hzero
  · rw [hzero] at hwrap
    exact absurd (UInt8.le_trans hcounted hwrap) (by decide)
  · rw [nextCounter, if_pos (UInt8.le_antisymm hle hwrap)]
  · rw [hzero]
    rfl
  · rw [nextCounter, if_neg (fun heq => hwrap (by rw [heq]; exact UInt8.le_refl _))]

theorem Cycle.due (h : Cycle past clock p) {nowUs : UInt64} (hnow : clock ≤ nowUs.toNat)
    (harmed : p.armed = true) (hlate : p.intervalUs ≤ nowUs - p.lastSentUs) {frame : CanFrame}
    (hframe : CanFrame.new p.cobId (if 2 ≤ p.overflow then [p.peekCounter] else []) = some frame)
    (accepted : Bool) :
    Beat.InCycle past (.sync nowUs p.intervalUs p.overflow frame accepted) := by
  obtain ⟨hsent, hstarts, hbase⟩ := h.sent harmed
  have hperiod : p.lastSentUs.toNat + p.intervalUs.toNat ≤ nowUs.toNat := by
    rw [UInt64.le_iff_toNat_le, UInt64.toNat_sub_of_le _ _
      (UInt64.le_iff_toNat_le.mpr (hsent.trans hnow))] at hlate
    omega
  refine ⟨?_, hbase, ?_⟩
  · intro t ht
    have hle := hstarts t ht
    omega
  · rw [(CanFrame.id_of_new hframe).2]
    rcases h.overflow with hzero | hcounted
    · left
      rw [hzero]
      exact ⟨rfl, by simp⟩
    · right
      rw [if_pos hcounted, h.peekCounter hcounted]
      exact ⟨hcounted, rfl⟩

theorem Cycle.refuse (h : Cycle past clock p) (nowUs periodUs : UInt64) (overflow : UInt8)
    (frame : CanFrame) : Cycle (past ++ [.sync nowUs periodUs overflow frame false]) clock p := by
  have hfilter : (past ++ [Beat.sync nowUs periodUs overflow frame false]).filterMap Beat.startUs =
      past.filterMap Beat.startUs := by
    rw [List.filterMap_append]
    simp [Beat.startUs]
  refine ⟨h.overflow, ?_, h.counter_le, ?_, h.fresh, ?_⟩
  · rw [lastCounter_append rfl]
    exact h.counter
  · rw [hfilter]
    exact h.starts
  · intro harmed
    obtain ⟨hsent, hstarts, t, ht⟩ := h.sent harmed
    rw [hfilter, since_append_beat rfl]
    exact ⟨hsent, hstarts, t, List.mem_append_left _ ht⟩

/-- An accepted frame is the start of the next period. -/
theorem Cycle.accept (h : Cycle past clock p) {nowUs : UInt64} (hnow : clock ≤ nowUs.toNat)
    (harmed : p.armed = true) {frame : CanFrame}
    (hframe : CanFrame.new p.cobId (if 2 ≤ p.overflow then [p.peekCounter] else []) = some frame) :
    Cycle (past ++ [.sync nowUs p.intervalUs p.overflow frame true]) nowUs.toNat
      (p.confirmSent nowUs) := by
  have hdata := (CanFrame.id_of_new hframe).2
  have hle := h.counter_le
  have hpeek (hcounted : 2 ≤ p.overflow) : p.peekCounter ≠ 0 ∧ p.peekCounter ≤ p.overflow := by
    unfold SyncProducer.peekCounter
    split_ifs with hwrap
    · exact ⟨by decide, UInt8.le_trans (by decide) hcounted⟩
    · have hlt : p.counter.toNat < p.overflow.toNat := UInt8.lt_iff_toNat_lt.mp (UInt8.not_le.mp hwrap)
      have hbound := p.overflow.toNat_lt
      have hnext : (p.counter + 1).toNat = p.counter.toNat + 1 := by
        rw [UInt8.toNat_add]
        change (p.counter.toNat + 1) % 256 = _
        omega
      refine ⟨?_, ?_⟩
      · intro hzero
        rw [hzero] at hnext
        cases hnext
      · rw [UInt8.le_iff_toNat_le, hnext]
        exact hlt
  have hstarts : ∀ t ∈ (past ++ [Beat.sync nowUs p.intervalUs p.overflow frame true]).filterMap
      Beat.startUs, t.toNat ≤ nowUs.toNat := by
    rw [List.filterMap_append]
    intro t ht
    rcases List.mem_append.mp ht with ht | ht
    · exact (h.starts t ht).trans hnow
    · rw [show t = nowUs by simpa [Beat.startUs] using ht]
  refine ⟨h.overflow, ?_, ?_, hstarts, ?_, ?_⟩
  · rw [lastCounter_append rfl]
    rcases h.overflow with hzero | hcounted
    · have hnone : ¬2 ≤ p.overflow := by
        rw [hzero]
        decide
      rw [if_neg hnone] at hdata
      rw [Beat.counter, hdata, SyncProducer.confirmSent, if_neg hnone]
      exact h.counter
    · rw [if_pos hcounted] at hdata
      rw [Beat.counter, hdata, SyncProducer.confirmSent, if_pos hcounted]
      dsimp only
      rw [if_neg (hpeek hcounted).1]
      rfl
  · unfold SyncProducer.confirmSent
    dsimp only
    split_ifs with hcounted
    · exact (hpeek hcounted).2
    · exact hle
  · intro hfalse
    change p.armed = false at hfalse
    rw [harmed] at hfalse
    cases hfalse
  · intro _
    obtain ⟨-, -, t, ht⟩ := h.sent harmed
    refine ⟨le_rfl, hstarts, t, ?_⟩
    rw [since_append_beat rfl]
    exact List.mem_append_left _ ht

end Cycle

/-! ## SYNC production -/

section Production

variable {m m' : Machine OD evt dirty}

/-- SYNC production, by what it adds to the record. -/
theorem produceSync_cases (m : Machine OD evt dirty) (nowUs : UInt64) :
    let p := m.node.syncProducer
    (m.beats (.produceSync nowUs) = [] ∧ m.produceSync nowUs = m) ∨
    (m.beats (.produceSync nowUs) = [.armed nowUs] ∧ m.produceSync nowUs =
      ⟨{ m.node with syncProducer := { p with armed := true, lastSentUs := nowUs } }, m.bus⟩) ∨
    ∃ frame, m.node.booted = true ∧ m.state ≠ .stopped ∧ p.isEnabled = true ∧ p.armed = true ∧
      p.intervalUs ≤ nowUs - p.lastSentUs ∧
      CanFrame.new p.cobId (if 2 ≤ p.overflow then [p.peekCounter] else []) = some frame ∧
      ((m.beats (.produceSync nowUs) = [.sync nowUs p.intervalUs p.overflow frame true] ∧
        m.produceSync nowUs = Machine.handleSync ⟨{ m.node with
          syncProducer := p.confirmSent nowUs }, (m.bus.transmit m.state .sync frame).2⟩ nowUs) ∨
      (m.beats (.produceSync nowUs) = [.sync nowUs p.intervalUs p.overflow frame false] ∧
        m.produceSync nowUs = ⟨m.node, (m.bus.transmit m.state .sync frame).2⟩)) := by
  intro p
  unfold Machine.beats Machine.pollBeats Machine.produceSync
  by_cases hrun : (m.node.booted && m.state != .stopped) = true
  · simp only [if_pos hrun]
    rw [Bool.and_eq_true, bne_iff_ne] at hrun
    rcases poll_cases m.node.syncProducer nowUs with ⟨hpoll, hidle⟩ | ⟨hpoll, -, harm⟩ |
      ⟨henabled, harmed, hlate, hpoll⟩
    · left
      rw [hpoll]
      simp only [hidle, Bool.false_eq_true, if_false, true_and]
    · right
      left
      rw [hpoll]
      simp only [harm, if_true, true_and]
      rfl
    · have hidle : (m.node.syncProducer.isEnabled && !m.node.syncProducer.armed) = false := by
        rw [harmed]
        exact Bool.and_false _
      cases hframe : CanFrame.new p.cobId (if 2 ≤ p.overflow then [p.peekCounter] else []) with
      | none =>
        left
        rw [hpoll, hframe]
        simp only [hidle, Bool.false_eq_true, if_false, true_and]
      | some frame =>
        right
        right
        refine ⟨frame, hrun.1, hrun.2, henabled, harmed, hlate, rfl, ?_⟩
        rw [hpoll, hframe]
        dsimp only
        by_cases haccepted : (m.bus.transmit m.state .sync frame).1 = .accepted
        · left
          have hbeat : (m.bus.answers.headD .accepted == .accepted) = true := by
            rw [beq_iff_eq]
            exact haccepted
          rw [hbeat, if_pos haccepted]
          exact ⟨rfl, rfl⟩
        · right
          have hbeat : (m.bus.answers.headD .accepted == .accepted) = false := by
            rw [beq_eq_false_iff_ne]
            exact haccepted
          rw [hbeat, if_neg haccepted]
          exact ⟨rfl, rfl⟩
  · left
    simp only [if_neg hrun, true_and]

theorem produceSync_cycle {past : List Beat} {clock : ℕ} (h : Cycle past clock m.node.syncProducer)
    {nowUs : UInt64} (hnow : clock ≤ nowUs.toNat) :
    Cycle (past ++ m.beats (.produceSync nowUs)) nowUs.toNat
      (m.produceSync nowUs).node.syncProducer ∧
    Supported (fun _ => false) Beat.InCycle past (m.beats (.produceSync nowUs)) := by
  rcases produceSync_cases m nowUs with ⟨hbeats, heq⟩ | ⟨hbeats, heq⟩ |
    ⟨frame, -, -, -, harmed, hlate, hframe, ⟨hbeats, heq⟩ | ⟨hbeats, heq⟩⟩
  · rw [hbeats, heq, List.append_nil]
    exact ⟨h.mono hnow, trivial⟩
  · rw [hbeats, heq]
    exact ⟨h.arm hnow, trivial, trivial⟩
  · rw [hbeats, heq]
    refine ⟨?_, h.due hnow harmed hlate hframe true, trivial⟩
    rw [(keepsProducer_sync _ nowUs).producer]
    exact h.accept hnow harmed hframe
  · rw [hbeats, heq]
    refine ⟨?_, h.due hnow harmed hlate hframe false, trivial⟩
    exact (h.refuse nowUs _ _ frame).mono hnow

theorem beats_of_act {a : Action OD} (ha : ∀ nowUs, a ≠ .produceSync nowUs)
    (h : m.act a = some m') : m.beats a = if m.restarts m' then [.restart] else [] := by
  cases a with
  | produceSync nowUs => exact absurd rfl (ha nowUs)
  | _ =>
    unfold Machine.beats
    dsimp only
    rw [h]

theorem act_cycle {past : List Beat} {clock : ℕ} (h : Cycle past clock m.node.syncProducer)
    {a : Action OD} (htime : ∀ t, a.nowUs = some t → clock ≤ t.toNat) (ha : m.act a = some m')
    {bound : ℕ} (hclock : clock ≤ bound) (hbound : ∀ t, a.nowUs = some t → t.toNat ≤ bound) :
    Cycle (past ++ m.beats a) bound m'.node.syncProducer ∧
      Supported (fun _ => false) Beat.InCycle past (m.beats a) := by
  by_cases hproduce : ∃ nowUs, a = .produceSync nowUs
  · obtain ⟨nowUs, rfl⟩ := hproduce
    cases ha
    obtain ⟨hcycle, hsupported⟩ := produceSync_cycle h (htime nowUs rfl)
    exact ⟨hcycle.mono (hbound nowUs rfl), hsupported⟩
  · have hother : ∀ nowUs, a ≠ .produceSync nowUs := fun nowUs heq => hproduce ⟨nowUs, heq⟩
    have hstep := act_step hother ha
    rw [beats_of_act hother ha]
    cases hrestart : m.restarts m' with
    | false =>
      simp only [Bool.false_eq_true, if_false, List.append_nil]
      rw [hstep.kept hrestart]
      exact ⟨h.mono hclock, trivial⟩
    | true =>
      obtain ⟨harmed, hcounter⟩ := hstep.fresh hrestart
      simp only [if_true]
      refine ⟨(h.restart harmed hcounter ?_).mono hclock, trivial, trivial⟩
      rcases hstep.overflow with hkept | hvalid
      · rw [hkept]
        exact h.overflow
      · unfold isValidSyncCounterOverflow at hvalid
        rw [Bool.or_eq_true, beq_iff_eq, Bool.and_eq_true] at hvalid
        exact hvalid.imp id fun hrange => by simpa using hrange.1

/-- The times of a list of actions, in order. -/
def timesUs (actions : List (Action OD)) : List UInt64 := actions.filterMap Action.nowUs

/-- Every run with non-decreasing time keeps to the cycle. -/
theorem acts_cycle {actions : List (Action OD)} {past : List Beat} {clock : ℕ}
    (h : Cycle past clock m.node.syncProducer) (bound : ℕ)
    (hsupported : Supported (fun _ => false) Beat.InCycle [] past)
    (htime : (timesUs actions).Pairwise (· ≤ ·)) (hfrom : ∀ t ∈ timesUs actions, clock ≤ t.toNat)
    (hclock : clock ≤ bound) (hto : ∀ t ∈ timesUs actions, t.toNat ≤ bound)
    (hrun : m.acts actions = some m') :
    Cycle (past ++ Runs.log Machine.act Machine.beats m actions) bound m'.node.syncProducer ∧
      Supported (fun _ => false) Beat.InCycle []
        (past ++ Runs.log Machine.act Machine.beats m actions) := by
  induction actions generalizing m past clock with
  | nil =>
    cases hrun
    rw [Runs.log, List.append_nil]
    exact ⟨h.mono hclock, hsupported⟩
  | cons a actions ih =>
    obtain ⟨m₁, h₁, hrest⟩ := Runs.run_cons.mp hrun
    have hall : timesUs (a :: actions) = a.nowUs.toList ++ timesUs actions := by
      unfold timesUs
      rw [List.filterMap_cons]
      cases a.nowUs with
      | none => rfl
      | some t => rfl
    rw [hall] at htime hfrom hto
    have hmem : ∀ t, a.nowUs = some t → t ∈ a.nowUs.toList := by
      intro t ht
      rw [ht]
      exact List.mem_cons_self
    -- the clock after the action: its time, if it has one
    let clock' := (a.nowUs.map UInt64.toNat).getD clock
    have hclock' : clock ≤ clock' ∧ clock' ≤ bound ∧ (∀ t, a.nowUs = some t → t.toNat ≤ clock') ∧
        ∀ t ∈ timesUs actions, clock' ≤ t.toNat := by
      cases htm : a.nowUs with
      | none =>
        simp only [clock', htm]
        refine ⟨le_rfl, hclock, by simp, ?_⟩
        intro t ht
        exact hfrom t (List.mem_append_right _ ht)
      | some t₀ =>
        simp only [clock', htm]
        refine ⟨hfrom t₀ (List.mem_append_left _ (hmem t₀ htm)),
          hto t₀ (List.mem_append_left _ (hmem t₀ htm)), ?_, ?_⟩
        · intro t ht
          cases ht
          exact le_rfl
        · intro t ht
          exact UInt64.le_iff_toNat_le.mp
            ((List.pairwise_append.mp htime).2.2 t₀ (hmem t₀ htm) t ht)
    obtain ⟨hle, hbound, htaken, hlater⟩ := hclock'
    obtain ⟨hcycle, hbeats⟩ := act_cycle h
      (fun t ht => hfrom t (List.mem_append_left _ (hmem t ht))) h₁ hle htaken
    have hsupported' : Supported (fun _ => false) Beat.InCycle [] (past ++ m.beats a) := by
      apply supported_append hsupported
      rw [sinceFrom_of_not_cut (by simp), List.nil_append]
      exact hbeats
    have hfinal := ih hcycle hsupported' (List.pairwise_append.mp htime).2.1 hlater hbound
      (fun t ht => hto t (List.mem_append_right _ ht)) hrest
    rw [List.append_assoc] at hfinal
    rw [Runs.log, h₁]
    exact hfinal

/-! ## Single actions -/

/-- The SYNC pulses recorded so far. -/
def Machine.pulses (m : Machine OD evt dirty) : ℕ :=
  m.bus.trace.countP fun o => match o with
    | .pulse _ => true
    | _ => false

/-- A pulse that is handled in Operational is recorded once. -/
theorem handleSync_pulses (m : Machine OD evt dirty) (nowUs : UInt64) :
    (m.handleSync nowUs).pulses = m.pulses + if m.state = .operational then 1 else 0 := by
  unfold Machine.handleSync
  split_ifs
  · obtain ⟨obs, htrace, hobs⟩ := sendPulse_trace m.applyPulse nowUs
    have hoffers : obs.countP (fun o => match o with
        | .pulse _ => true
        | _ => false) = 0 := by
      rw [List.countP_eq_zero]
      intro o ho
      obtain ⟨frame, -, result, rfl⟩ := hobs o ho
      simp
    have hsampled : (sampledObs m.applyPulse.node.tpdo.slots).countP (fun o => match o with
        | .pulse _ => true
        | _ => false) = 0 := by
      rw [List.countP_eq_zero]
      intro o ho
      obtain ⟨i, slot, rfl, -⟩ := mem_sampledObs ho
      simp
    have happlied : m.applyPulse.pulses = m.pulses := by
      unfold Machine.pulses
      change (m.bus.trace ++ (appliedObs m.node.rpdo.slots ++ _)).countP _ = _
      rw [List.countP_append, Nat.add_eq_left, List.countP_eq_zero]
      intro o ho
      rcases List.mem_append.mp ho with ho | ho
      · obtain ⟨i, slot, frame, rfl, -⟩ := mem_appliedObs ho
        simp
      · obtain ⟨w, -, rfl⟩ := List.mem_map.mp ho
        simp
    unfold Machine.pulses at happlied ⊢
    rw [htrace, List.countP_append, List.countP_append, List.countP_cons, happlied, hsampled, hoffers]
    simp
  · rfl

/-- The frame offered next, if the producer is as it is now and polled later. -/
theorem offered_again {m₁ : Machine OD evt dirty} {nowUs nowUs' : UInt64} {frame : CanFrame}
    (hproducer : m₁.node.syncProducer = m.node.syncProducer)
    (hsent : m.node.syncProducer.lastSentUs ≤ nowUs) (hle : nowUs ≤ nowUs')
    (henabled : m.node.syncProducer.isEnabled = true) (harmed : m.node.syncProducer.armed = true)
    (hlate : m.node.syncProducer.intervalUs ≤ nowUs - m.node.syncProducer.lastSentUs)
    (hframe : CanFrame.new m.node.syncProducer.cobId (if 2 ≤ m.node.syncProducer.overflow then
      [m.node.syncProducer.peekCounter] else []) = some frame)
    (hbooted : m₁.node.booted = true) (hstate : m₁.state ≠ .stopped) :
    ∃ accepted, m₁.beats (.produceSync nowUs') = [.sync nowUs' m.node.syncProducer.intervalUs
      m.node.syncProducer.overflow frame accepted] := by
  have hlate' : m.node.syncProducer.intervalUs ≤ nowUs' - m.node.syncProducer.lastSentUs := by
    rw [UInt64.le_iff_toNat_le, UInt64.toNat_sub_of_le _ _ hsent] at hlate
    rw [UInt64.le_iff_toNat_le, UInt64.toNat_sub_of_le _ _ (UInt64.le_trans hsent hle)]
    rw [UInt64.le_iff_toNat_le] at hle
    omega
  have hpoll : (m.node.syncProducer.poll nowUs').2 = some frame := by
    rw [poll_due henabled harmed hlate']
    exact hframe
  unfold Machine.beats Machine.pollBeats
  dsimp only
  rw [if_pos (by simp [hbooted, hstate]), hproducer, hpoll]
  exact ⟨_, rfl⟩

/-- Without an entry in the record the producer stays as it is. -/
theorem acts_unrecorded {actions : List (Action OD)} (hrun : m.acts actions = some m')
    (hlog : Runs.log Machine.act Machine.beats m actions = []) :
    m'.node.syncProducer = m.node.syncProducer := by
  induction actions generalizing m with
  | nil =>
    cases hrun
    rfl
  | cons a actions ih =>
    obtain ⟨m₁, h₁, hrest⟩ := Runs.run_cons.mp hrun
    rw [Runs.log, h₁, List.append_eq_nil_iff] at hlog
    rw [ih hrest hlog.2]
    by_cases hproduce : ∃ nowUs, a = .produceSync nowUs
    · obtain ⟨nowUs, rfl⟩ := hproduce
      cases h₁
      have hbeats := hlog.1
      rcases produceSync_cases m nowUs with ⟨-, heq⟩ | ⟨harm, -⟩ |
        ⟨frame, -, -, -, -, -, -, ⟨hsync, -⟩ | ⟨hsync, -⟩⟩
      · rw [heq]
      · rw [hbeats] at harm
        cases harm
      · rw [hbeats] at hsync
        cases hsync
      · rw [hbeats] at hsync
        cases hsync
    · have hother : ∀ nowUs, a ≠ .produceSync nowUs := fun nowUs heq => hproduce ⟨nowUs, heq⟩
      apply (act_step hother h₁).kept
      have hbeats := hlog.1
      rw [beats_of_act hother h₁] at hbeats
      by_contra hrestart
      rw [Bool.not_eq_false] at hrestart
      rw [if_pos hrestart] at hbeats
      cases hbeats

/-- The transport takes the SYNC frame offered now, if one is. -/
def Machine.syncAccepted (m : Machine OD evt dirty) (nowUs : UInt64) : Bool :=
  (m.beats (.produceSync nowUs)).any fun b => match b with
    | .sync _ _ _ _ accepted => accepted
    | _ => false

/-- What an action does besides keeping to the cycle: the SYNC frames it offers to the
transport are those of its record, the local pulse goes with the accepted frame, a refused
frame changes nothing and is offered again, and a download after which the SYNC objects hold
the parameters in force changes nothing. -/
structure SyncStep (m m' : Machine OD evt dirty) (a : Action OD) : Prop where
  offers : ∃ obs, m'.bus.trace = m.bus.trace ++ obs ∧
    obs.filterMap Obs.syncFrame = (m.beats a).filterMap Beat.offered
  pulse : ∀ nowUs, a = .produceSync nowUs → m'.pulses = m.pulses +
    if m.syncAccepted nowUs = true ∧ m.state = .operational then 1 else 0
  refused : ∀ nowUs periodUs overflow frame,
    m.beats a = [.sync nowUs periodUs overflow frame false] →
      m'.node.syncProducer = m.node.syncProducer ∧
      ∀ rest m₁ nowUs', m'.acts rest = some m₁ →
        Runs.log Machine.act Machine.beats m' rest = [] → nowUs ≤ nowUs' →
        m₁.node.booted = true → m₁.state ≠ .stopped →
        ∃ accepted, m₁.beats (.produceSync nowUs') =
          [.sync nowUs' periodUs overflow frame accepted]
  download : ∀ nowUs frame i p, a = .frame nowUs frame → m.node.route frame = .sdo i →
    Node.syncParameters m'.node.od = some p →
    m.node.syncProducer.parameters =
      (if p.produce then p.cobId else 0, p.periodUs, p.overflow) →
    m'.node.syncProducer = m.node.syncProducer

theorem produceSync_pulses (m : Machine OD evt dirty) (nowUs : UInt64) :
    (m.produceSync nowUs).pulses = m.pulses +
      if m.syncAccepted nowUs = true ∧ m.state = .operational then 1 else 0 := by
  have hoffer (n : Node OD evt dirty) (frame : CanFrame) :
      Machine.pulses ⟨n, (m.bus.transmit m.state .sync frame).2⟩ = m.pulses := by
    unfold Machine.pulses
    change (m.bus.trace ++ [Obs.offer .sync frame (m.bus.answers.headD .accepted) m.state]).countP _
      = _
    rw [List.countP_append]
    rfl
  unfold Machine.syncAccepted
  rcases produceSync_cases m nowUs with ⟨hbeats, heq⟩ | ⟨hbeats, heq⟩ |
    ⟨frame, -, -, -, -, -, -, ⟨hbeats, heq⟩ | ⟨hbeats, heq⟩⟩
  · rw [hbeats, heq]
    simp
  · rw [hbeats, heq]
    simp
    rfl
  · rw [hbeats, heq, handleSync_pulses, hoffer]
    simp
    rfl
  · rw [hbeats, heq, hoffer]
    simp

theorem beats_accepted {nowUs t periodUs : UInt64} {overflow : UInt8} {frame : CanFrame} {accepted : Bool}
    (h : m.beats (.produceSync nowUs) = [.sync t periodUs overflow frame accepted]) :
    (m.bus.answers.headD .accepted == .accepted) = accepted := by
  unfold Machine.beats Machine.pollBeats at h
  dsimp only at h
  split_ifs at h
  all_goals
    split at h
    · cases h
      rfl
    · cases h

/-- The frames on offer are those of the record. -/
theorem act_offers {a : Action OD} (ha : m.act a = some m') :
    ∃ obs, m'.bus.trace = m.bus.trace ++ obs ∧
      obs.filterMap Obs.syncFrame = (m.beats a).filterMap Beat.offered := by
  by_cases hproduce : ∃ nowUs, a = .produceSync nowUs
  · obtain ⟨nowUs, rfl⟩ := hproduce
    cases ha
    rcases produceSync_cases m nowUs with ⟨hbeats, heq⟩ | ⟨hbeats, heq⟩ |
      ⟨frame, -, -, -, -, -, -, ⟨hbeats, heq⟩ | ⟨hbeats, heq⟩⟩
    · rw [hbeats, heq]
      exact ⟨[], (List.append_nil _).symm, rfl⟩
    · rw [hbeats, heq]
      exact ⟨[], (List.append_nil _).symm, rfl⟩
    · obtain ⟨obs, htrace, hobs⟩ := (keepsProducer_sync (⟨{ m.node with
        syncProducer := m.node.syncProducer.confirmSent nowUs },
        (m.bus.transmit m.state .sync frame).2⟩ : Machine OD evt dirty) nowUs).trace
      have hsilent : obs.filterMap Obs.syncFrame = [] :=
        List.filterMap_eq_nil_iff.mpr fun o ho => (sparesSync_iff.mp (hobs o ho)).2
      rw [heq, htrace, hbeats]
      refine ⟨.offer .sync frame (m.bus.answers.headD .accepted) m.state :: obs, ?_, ?_⟩
      · exact List.append_assoc _ [_] obs
      · rw [List.filterMap_cons, hsilent, Obs.syncFrame, beats_accepted hbeats]
        rfl
    · rw [heq, hbeats]
      refine ⟨[.offer .sync frame (m.bus.answers.headD .accepted) m.state], rfl, ?_⟩
      rw [List.filterMap_cons, Obs.syncFrame, beats_accepted hbeats]
      rfl
  · have hother : ∀ nowUs, a ≠ .produceSync nowUs := fun nowUs heq => hproduce ⟨nowUs, heq⟩
    obtain ⟨obs, htrace, hobs⟩ := (act_step hother ha).silent
    refine ⟨obs, htrace, ?_⟩
    rw [List.filterMap_eq_nil_iff.mpr hobs, beats_of_act hother ha]
    split_ifs <;> rfl

/-- Every action of a run with non-decreasing time. -/
theorem act_syncStep {past : List Beat} {clock : ℕ} (h : Cycle past clock m.node.syncProducer)
    {a : Action OD} (htime : ∀ t, a.nowUs = some t → clock ≤ t.toNat)
    (ha : m.act a = some m') : SyncStep m m' a := by
  refine ⟨act_offers ha, ?_, ?_, ?_⟩
  · rintro nowUs rfl
    cases ha
    exact produceSync_pulses m nowUs
  · intro nowUs periodUs overflow frame hbeats
    by_cases hproduce : ∃ nowUs, a = .produceSync nowUs
    · obtain ⟨nowUs', rfl⟩ := hproduce
      cases ha
      rcases produceSync_cases m nowUs' with ⟨hb, -⟩ | ⟨hb, -⟩ |
        ⟨frame', -, -, henabled, harmed, hlate, hframe, ⟨hb, -⟩ | ⟨hb, heq⟩⟩
      · rw [hbeats] at hb
        cases hb
      · rw [hbeats] at hb
        cases hb
      · rw [hbeats] at hb
        cases hb
      · rw [hbeats] at hb
        cases hb
        rw [heq]
        refine ⟨rfl, ?_⟩
        intro rest m₁ later hrest hlog hle hbooted hstate
        have hsent := (h.sent harmed).1.trans (htime nowUs rfl)
        have hkept := acts_unrecorded hrest hlog
        exact offered_again hkept (UInt64.le_iff_toNat_le.mpr hsent) hle
          henabled harmed hlate hframe hbooted hstate
    · have hother : ∀ nowUs, a ≠ .produceSync nowUs := fun nowUs heq => hproduce ⟨nowUs, heq⟩
      rw [beats_of_act hother ha] at hbeats
      split_ifs at hbeats
      cases hbeats
  · rintro nowUs frame i p rfl hroute hp hparameters
    rw [Machine.act, dispatchFrame_eq, hroute] at ha
    rcases handleSdoRequest_producer ha with hkept | ⟨p', hp', hproducer⟩
    · exact hkept
    · rw [hp] at hp'
      cases hp'
      simp only [SyncProducer.parameters, Prod.mk.injEq] at hparameters
      rw [hproducer, SyncProducer.configure, if_pos hparameters]

end Production

/-! ## Every run -/

theorem new_cycle {config : NodeConfig} {od : OD} {n : Node OD evt dirty}
    (hn : Node.new config od = some n) : Cycle [] 0 n.syncProducer := by
  obtain ⟨n', hn', hunique⟩ := Option.bind_eq_some_iff.mp hn
  obtain rfl : n' = n := by
    split_ifs at hunique
    exact Option.some.inj hunique
  obtain ⟨p, hp, rfl⟩ := Option.map_eq_some_iff.mp hn'
  have hvalid := syncParameters_overflow hp
  have hproducer (cobId : UInt16) (periodUs : UInt64) (overflow : UInt8)
      (hvalid : overflow = 0 ∨ 2 ≤ overflow) :
      Cycle [] 0 (SyncProducer.new.configure cobId periodUs overflow) := by
    unfold SyncProducer.configure
    split_ifs
    · exact ⟨.inl rfl, rfl, UInt8.le_refl 0, by simp, fun _ => rfl, fun h => by cases h⟩
    · exact ⟨hvalid, rfl, UInt8.zero_le, by simp, fun _ => rfl, fun h => by cases h⟩
  apply hproducer
  unfold isValidSyncCounterOverflow at hvalid
  rw [Bool.or_eq_true, beq_iff_eq, Bool.and_eq_true] at hvalid
  exact hvalid.imp id fun hrange => by simpa using hrange.1

/-- The producer and the local cycle never disagree, in any run with non-decreasing time:
every frame offered keeps to the period and carries the counter that is next since
production was last restarted, and every action treats the local pulse, a refused frame
and an unrelated download as it should. -/
theorem sync_production_consistent {config : NodeConfig} {od : OD} {n : Node OD evt dirty}
    (hn : Node.new config od = some n) {actions : List (Action OD)} {m : Machine OD evt dirty}
    (htime : (timesUs actions).Pairwise (· ≤ ·))
    (hrun : (Machine.start n).acts actions = some m) :
    (∀ past beat rest, Runs.log Machine.act Machine.beats (Machine.start n) actions =
      past ++ beat :: rest → beat.InCycle past) ∧
    ∀ pre a post m₀ m₁, actions = pre ++ a :: post → (Machine.start n).acts pre = some m₀ →
      m₀.act a = some m₁ → SyncStep m₀ m₁ a := by
  have hstart : Cycle [] 0 (Machine.start n).node.syncProducer := new_cycle hn
  refine ⟨?_, ?_⟩
  · intro past beat rest hlog
    obtain ⟨-, hsupported⟩ := acts_cycle hstart (2 ^ 64) trivial htime (by simp) (by simp)
      (fun t _ => Nat.le_of_lt t.toNat_lt) hrun
    rw [List.nil_append, hlog] at hsupported
    have hat := hsupported.at
    rwa [sinceFrom_of_not_cut (by simp), List.nil_append] at hat
  · rintro pre a post m₀ m₁ rfl hpre ha
    have hsplit : timesUs (pre ++ a :: post) = timesUs pre ++ timesUs (a :: post) :=
      List.filterMap_append
    rw [hsplit] at htime
    obtain ⟨hpretime, -, hcross⟩ := List.pairwise_append.mp htime
    cases hta : a.nowUs with
    | none =>
      obtain ⟨hcycle, -⟩ := acts_cycle hstart (2 ^ 64) trivial hpretime (by simp) (by simp)
        (fun t _ => Nat.le_of_lt t.toNat_lt) hpre
      apply act_syncStep hcycle _ ha
      intro t ht
      rw [hta] at ht
      cases ht
    | some t₀ =>
      have hmem : t₀ ∈ timesUs (a :: post) := by
        unfold timesUs
        rw [List.filterMap_cons, hta]
        exact List.mem_cons_self
      obtain ⟨hcycle, -⟩ := acts_cycle hstart t₀.toNat trivial hpretime (by simp) (by simp)
        (fun t ht => UInt64.le_iff_toNat_le.mp (hcross t ht t₀ hmem)) hpre
      apply act_syncStep hcycle _ ha
      intro t ht
      rw [hta] at ht
      cases ht
      exact le_rfl

/-! ## A device that produces SYNC -/

/-- A device that produces SYNC every 10 ms and counts to 3. -/
def producerDefinition : OdDefinition where
  entries := [
    ⟨0x1000, .var ⟨.u32, .ro, false, none, [0x91, 0x01, 0, 0]⟩⟩,
    ⟨0x1005, .var ⟨.u32, .rw, false, none, [0x80, 0, 0, 0x40]⟩⟩,
    ⟨0x1006, .var ⟨.u32, .rw, false, none, [0x10, 0x27, 0, 0]⟩⟩,
    ⟨0x1007, .var ⟨.u32, .rw, false, none, [0, 0, 0, 0]⟩⟩,
    ⟨0x1019, .var ⟨.u8, .rw, false, none, [3]⟩⟩]
  pdos := []
  sdoServers := []
  edsCompressed := []

def producerOd : GeneratedOd := ⟨OdFields.new producerDefinition, none⟩

def produceRun (actions : List (Action GeneratedOd)) :
    Option (Node GeneratedOd 4 4 × Machine GeneratedOd 4 4) := do
  let n ← Node.new (.fromOd producerOd sampleNode) producerOd
  let m ← (Machine.start n).acts actions
  return (n, m)

theorem produceRun_eq {actions : List (Action GeneratedOd)} {n : Node GeneratedOd 4 4}
    {m : Machine GeneratedOd 4 4} (h : produceRun actions = some (n, m)) :
    Node.new (.fromOd producerOd sampleNode) producerOd = some n ∧
      (Machine.start n).acts actions = some m := by
  unfold produceRun at h
  obtain ⟨n', hn, h⟩ := Option.bind_eq_some_iff.mp h
  obtain ⟨m', hm, h⟩ := Option.bind_eq_some_iff.mp h
  cases h
  exact ⟨hn, hm⟩

/-- The second frame is refused once. -/
def refusedActions : List (Action GeneratedOd) :=
  [.boot 0 [], .produceSync 0, .produceSync 10000, .boot 20000 [.wouldBlock], .produceSync 20000,
    .produceSync 21000]

theorem sync_production_consistent_refused :
    ∃ n m, produceRun refusedActions = some (n, m) ∧
      (Runs.log Machine.act Machine.beats (Machine.start n) refusedActions).length = 4 ∧
      ∀ past beat rest, Runs.log Machine.act Machine.beats (Machine.start n) refusedActions =
        past ++ beat :: rest → beat.InCycle past := by
  have hany : (produceRun refusedActions).any (fun p =>
      (Runs.log Machine.act Machine.beats (Machine.start p.1) refusedActions).length == 4) =
        true := by
    decide
  obtain ⟨⟨n, m⟩, hrun, hp⟩ := (Option.any_eq_true _ _).mp hany
  obtain ⟨hn, hm⟩ := produceRun_eq hrun
  exact ⟨n, m, hrun, beq_iff_eq.mp hp, (sync_production_consistent hn (by decide) hm).1⟩

/-- The application changes the period behind the producer's back. -/
def periodActions : List (Action GeneratedOd) :=
  [.boot 0 [], .produceSync 0,
    .call (.odMut fun od => (ObjectDictionary.write od 0x1006 0 [0x20, 0x4E, 0, 0]).2) rfl]

/-- A download of the value 0x1007 already has. -/
def windowAction : Action GeneratedOd :=
  .frame 5000 (.literal 0x605 [0x23, 0x07, 0x10, 0, 0, 0, 0, 0])

/-- The download leaves the SYNC objects as they are, and production starts afresh with
the period the application wrote. -/
theorem unchanged_download_restarts :
    ∃ n m₀ m₁, produceRun periodActions = some (n, m₀) ∧ m₀.act windowAction = some m₁ ∧
      Node.syncParameters m₁.node.od = Node.syncParameters m₀.node.od ∧
      m₀.node.syncProducer.armed = true ∧ m₁.node.syncProducer.armed = false := by
  have hany : ((produceRun periodActions).bind fun p => (p.2.act windowAction).map fun m₁ =>
      (p, m₁)).any (fun q =>
        Node.syncParameters q.2.node.od == Node.syncParameters q.1.2.node.od &&
        q.1.2.node.syncProducer.armed && !q.2.node.syncProducer.armed) = true := by
    decide
  obtain ⟨⟨⟨n, m₀⟩, m₁⟩, hrun, hp⟩ := (Option.any_eq_true _ _).mp hany
  obtain ⟨⟨n', m'⟩, hr, hrest⟩ := Option.bind_eq_some_iff.mp hrun
  obtain ⟨m'', hm, heq⟩ := Option.map_eq_some_iff.mp hrest
  cases heq
  simp only [Bool.and_eq_true, beq_iff_eq, Bool.not_eq_true'] at hp
  exact ⟨n, m₀, m₁, hr, hm, hp.1.1, hp.1.2, hp.2⟩

end Canopen
