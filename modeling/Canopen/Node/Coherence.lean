import Canopen.Node.Accounting
import Canopen.Node.Actions

/-!
# Coherence of synchronous PDOs

Between two SYNC pulses the frames of synchronous receive PDOs are only buffered. The
pulse commits, slot by slot, the latest acceptable frame received since the pulse
before it, and then samples the transmit PDOs. What the pulse commits is described
from the frames that were received, without the buffers of the engine.
-/

namespace Canopen

open Derive Pdo Sdo

variable {OD : Type} [ObjectDictionary OD] {evt dirty : ℕ}

/-! ## Receptions and pulses -/

namespace Machine

/-- The receive PDO a frame is for: the first enabled slot with its COB-ID. -/
def rpdoSlot (m : Machine OD evt dirty) (frame : CanFrame) : Option (ℕ × RpdoSlot) :=
  if m.node.route frame = .rpdo ∧ m.state = .operational then
    (m.node.rpdo.slotFor frame).bind fun i => m.node.rpdo.slots[i]?.map fun slot => (i, slot)
  else none

/-- The frame an action brings to a receive PDO, if it is long enough for its mapping. -/
def received (m : Machine OD evt dirty) : Action OD → List (ℕ × CanFrame)
  | .frame _ frame =>
    match m.rpdoSlot frame with
    | some (i, slot) => if slot.longEnough frame then [(i, frame)] else []
    | none => []
  | _ => []

/-- The action is a SYNC pulse: a valid SYNC frame, or one of the node itself that the
transport takes. -/
def isPulse (m : Machine OD evt dirty) : Action OD → Bool
  | .frame _ frame => m.node.route frame == .sync && (m.node.sync.process frame).2.isSome
  | .produceSync nowUs => m.node.booted && m.state != .stopped &&
    (m.node.syncProducer.poll nowUs).2.isSome && m.bus.answers.headD .accepted == .accepted
  | _ => false

def rpdoConfigs (m : Machine OD evt dirty) : List RpdoConfig :=
  m.node.rpdo.slots.map RpdoSlot.config

/-- An action that is no pulse and after which the node is Operational, with the given
configuration of its receive PDOs. -/
def undisturbed (configs : List RpdoConfig) (m : Machine OD evt dirty) (a : Action OD) : Bool :=
  !m.isPulse a && (m.act a).any fun m' => m'.state == .operational && m'.rpdoConfigs == configs

/-- The frames the receive PDOs hold for the next pulse. -/
def buffers (m : Machine OD evt dirty) : List (Option CanFrame) :=
  m.node.rpdo.slots.map RpdoSlot.pending

end Machine

/-- The last frame received for a slot. -/
def latest (received : List (ℕ × CanFrame)) (i : ℕ) : Option CanFrame :=
  (received.filter (·.1 == i)).getLast?.map (·.2)

/-- The frame a pulse commits for a slot: the latest one of a synchronous PDO. -/
def committedFrame (received : List (ℕ × CanFrame)) (i : ℕ) (config : RpdoConfig) :
    Option CanFrame :=
  if rawIsSynchronous config.transmissionType then latest received i else none

/-- Apply, in slot order, the frame chosen for each slot. -/
def commitFrames (choose : ℕ → RpdoConfig → Option CanFrame) :
    ℕ → List RpdoConfig → RpdoState OD evt → RpdoState OD evt
  | _, [], s => s
  | i, config :: configs, s =>
    commitFrames choose (i + 1) configs (match choose i config with
      | some frame => applyMapped frame.data config.mappings 0 s
      | none => s)

theorem latest_append (received : List (ℕ × CanFrame)) (i k : ℕ) (frame : CanFrame) :
    latest (received ++ [(k, frame)]) i = if k = i then some frame else latest received i := by
  unfold latest
  rw [List.filter_append]
  split_ifs with h
  · rw [List.filter_cons_of_pos (by simpa using h)]
    simp
  · rw [List.filter_cons_of_neg (by simpa using h)]
    simp

/-- A pulse commits what the buffers hold. -/
theorem onSync_commitFrames {choose : ℕ → RpdoConfig → Option CanFrame} {slots : List RpdoSlot}
    {k : ℕ} (h : ∀ i slot, slots[i]? = some slot → slot.pending = choose (k + i) slot.config)
    (s : RpdoState OD evt) :
    (RpdoEngine.onSync slots s).2 = commitFrames choose k (slots.map RpdoSlot.config) s := by
  induction slots generalizing k s with
  | nil => rfl
  | cons slot slots ih =>
    have hhead : slot.pending = choose k slot.config := h 0 slot rfl
    have htail : ∀ i slot', slots[i]? = some slot' →
        slot'.pending = choose (k + 1 + i) slot'.config := by
      intro i slot' hget
      rw [Nat.add_assoc, Nat.add_comm 1 i]
      exact h (i + 1) slot' hget
    rw [RpdoEngine.onSync, List.map_cons, commitFrames, ← hhead]
    exact ih htail _

/-! ## Actions that buffer nothing -/

/-- The buffers stay, and nothing is written as a receive PDO. -/
structure KeepsBuffers (m m' : Machine OD evt dirty) : Prop where
  buffers : m'.buffers = m.buffers
  trace : ∃ obs, m'.bus.trace = m.bus.trace ++ obs ∧ ∀ w state, .odWrite .rpdo w state ∉ obs

section KeepsBuffers

omit [ObjectDictionary OD]

variable {m m' m'' : Machine OD evt dirty}

theorem KeepsBuffers.trans (h : KeepsBuffers m m') (h' : KeepsBuffers m' m'') :
    KeepsBuffers m m'' := by
  obtain ⟨obs, htrace, hobs⟩ := h.trace
  obtain ⟨obs', htrace', hobs'⟩ := h'.trace
  refine ⟨h'.buffers.trans h.buffers, obs ++ obs', ?_, ?_⟩
  · rw [htrace', htrace, List.append_assoc]
  · intro w state hw
    rcases List.mem_append.mp hw with hw | hw
    · exact hobs w state hw
    · exact hobs' w state hw

theorem Silent.keepsBuffers (h : Silent m m') (hrpdo : m'.node.rpdo = m.node.rpdo) :
    KeepsBuffers m m' := by
  obtain ⟨-, obs, htrace, hobs⟩ := h
  refine ⟨by rw [Machine.buffers, hrpdo, Machine.buffers], obs, htrace, ?_⟩
  intro w state hw
  cases hobs _ hw

theorem keepsBuffers_refl (m : Machine OD evt dirty) : KeepsBuffers m m :=
  (silent_refl m).keepsBuffers rfl

theorem keepsBuffers_quiet (h : Quiet m m') : KeepsBuffers m m' := by
  obtain ⟨obs, htrace, hobs⟩ := h.trace
  refine ⟨by rw [Machine.buffers, h.rpdo, Machine.buffers], obs, htrace, ?_⟩
  intro w state hw
  obtain ⟨kind, frame, result, heq, -⟩ := hobs _ hw
  cases heq

theorem onChannels_rpdo (m : Machine OD evt dirty)
    (f : ℕ → SdoChannel → Bus → SdoChannel × Bus) : (m.onChannels f).node.rpdo = m.node.rpdo := by
  unfold Machine.onChannels
  generalize List.range m.node.sdo.length = indices
  induction indices generalizing m with
  | nil => rfl
  | cons i indices ih =>
    have hone : (m.onChannel i (f i)).node.rpdo = m.node.rpdo := by
      unfold Machine.onChannel
      split <;> rfl
    exact (ih _).trans hone

theorem keepsBuffers_boot (m : Machine OD evt dirty) (nowUs : UInt64) :
    KeepsBuffers m (m.boot nowUs).1 := by
  apply (boot_silent m nowUs).keepsBuffers
  by_cases hb : m.node.booted
  · rw [Machine.boot, if_pos hb]
  · obtain ⟨heartbeat, frame, result, ⟨hnode, -⟩ | ⟨nmt, -, hnode, -⟩⟩ :=
      boot_cases (by simpa using hb) nowUs
    · rw [hnode]
    · rw [hnode]

theorem keepsBuffers_deadlines (hop : m.state = .operational) (nowUs : UInt64) :
    KeepsBuffers m (m.checkDeadlines nowUs) := by
  obtain ⟨-, queue, count, heq⟩ | ⟨hne, -⟩ := checkDeadlines_cases m nowUs
  · rw [heq]
    refine ⟨?_, _, rfl, ?_⟩
    · simp only [Machine.buffers, RpdoEngine.checkDeadlines, List.map_map]
      apply List.map_congr_left
      intro slot _
      simp only [Function.comp_apply]
      split_ifs <;> rfl
    · intro w state hw
      obtain ⟨p, -, heq⟩ := List.mem_map.mp hw
      cases heq
  · exact absurd hop hne

end KeepsBuffers

section Keeps

variable {m m' : Machine OD evt dirty}

omit [ObjectDictionary OD] in
theorem Reread.buffers {n n' : Node OD evt dirty} (h : Reread n n') :
    n'.rpdo.slots.map RpdoSlot.pending = n.rpdo.slots.map RpdoSlot.pending := by
  have hfst (slots : List RpdoSlot) :
      slots.map RpdoSlot.pending = (slots.map RpdoSlot.held).map Prod.fst := by
    rw [List.map_map]
    rfl
  rw [hfst, hfst, h.held]

theorem keepsBuffers_request {i : ℕ} {frame : CanFrame} {nowUs : UInt64}
    (h : m.handleSdoRequest i frame nowUs = some m') : KeepsBuffers m m' := by
  unfold Machine.handleSdoRequest at h
  cases hch : m.node.sdo[i]? with
  | none =>
    rw [hch] at h
    cases h
    exact keepsBuffers_refl m
  | some ch =>
    simp only [hch] at h
    split_ifs at h
    · cases h
      exact keepsBuffers_refl m
    · cases h
      exact keepsBuffers_refl m
    · obtain ⟨obs, htrace, hobs⟩ := request_trace h
      refine ⟨(resync_reread h).1.buffers, _, htrace, ?_⟩
      intro w state hw
      rcases List.mem_append.mp hw with hw | hw
      · rcases List.mem_append.mp hw with hw | hw
        · cases requestHead_ofChannel _ hw
        · obtain ⟨w', -, heq⟩ := List.mem_map.mp hw
          cases heq
      · cases hobs _ hw

/-- A node that is Operational before and after an NMT frame keeps its PDO data. -/
theorem keepsBuffers_nmt {frame : CanFrame} (h : m.nmtFrame frame = some m')
    (hop : m'.state = .operational) : KeepsBuffers m m' := by
  apply (nmtFrame_silent h).keepsBuffers
  unfold Machine.nmtFrame at h
  split_ifs at h
  · split at h
    · next cmd _ =>
      unfold Machine.nmtCommand at h
      have hreset {resetType : ResetType} (hr : m.requestReset resetType = some m') :
          m'.node.rpdo = m.node.rpdo := by
        have hinit := (requestReset_done hr).state
        rw [hop] at hinit
        cases hinit
      rcases m.node.nmt.processCommand_cases cmd (frame.data.getD 1 0) m.node.nodeId with
        hc | ⟨s, -, -, -, -, hc⟩ | hc | hc <;> rw [hc] at h
      · cases h
        rfl
      · cases h
        rw [stateChanged_state] at hop
        rw [stateChanged_node, hop]
        rfl
      · exact hreset h
      · exact hreset h
    · cases h
      rfl
  · cases h
    rfl

theorem keepsBuffers_finish (hop : m.state = .operational) (nowUs : UInt64) :
    KeepsBuffers m (m.finishStages nowUs) := by
  have hretry : KeepsBuffers m (m.retryPendingSyncTpdo nowUs) := by
    apply (retryPendingSyncTpdo_silent m nowUs).keepsBuffers
    rcases retryPendingSyncTpdo_cases m nowUs with heq | heq | ⟨-, last, heq⟩ <;> rw [heq]
  have hstate : (m.retryPendingSyncTpdo nowUs).state = .operational := by
    rcases retryPendingSyncTpdo_cases m nowUs with heq | heq | ⟨-, last, heq⟩ <;> rw [heq] <;>
      exact hop
  have hpoll (m : Machine OD evt dirty) : KeepsBuffers m (m.pollTpdo nowUs) := by
    apply (pollTpdo_silent m nowUs).keepsBuffers
    unfold Machine.pollTpdo
    split_ifs <;> rfl
  have hclear (m : Machine OD evt dirty) : KeepsBuffers m m.clearDirty :=
    ⟨rfl, [], (List.append_nil _).symm, by simp⟩
  unfold Machine.finishStages
  apply hretry.trans
  apply (keepsBuffers_deadlines hstate nowUs).trans
  apply (keepsBuffers_quiet (sendHeartbeat_quiet _ nowUs)).trans
  apply (keepsBuffers_quiet (checkHeartbeats_quiet _ nowUs)).trans
  apply (keepsBuffers_quiet (sendEmcy_quiet _)).trans
  exact (hpoll _).trans (hclear _)

theorem keepsBuffers_setEmcy (m : Machine OD evt dirty) (emcy : EmcyProducer) :
    KeepsBuffers m (m.setEmcy emcy) := by
  apply (setEmcy_silent m emcy).keepsBuffers
  unfold Machine.setEmcy Machine.mirrorErrorRegister
  dsimp only
  split_ifs <;> rfl

theorem keepsBuffers_call {c : Call OD} (hc : c.isProcess = false) (h : m.call c = some m')
    (hop : m'.state = .operational) : KeepsBuffers m m' := by
  cases c with
  | process nowUs rx answers => cases hc
  | requestReset resetType =>
    have hinit := (requestReset_done h).state
    rw [hop] at hinit
    cases hinit
  | notifyChanged index subindex =>
    cases h
    exact (notifyChanged_silent m index subindex).keepsBuffers rfl
  | setError code bits data =>
    cases h
    exact keepsBuffers_setEmcy m _
  | clearError bits =>
    cases h
    exact keepsBuffers_setEmcy m _
  | clearAllErrors =>
    cases h
    exact keepsBuffers_setEmcy m _
  | odMut f =>
    cases h
    exact (odMut_silent m f).keepsBuffers rfl
  | nextEvent =>
    cases h
    exact ⟨rfl, [], (List.append_nil _).symm, by simp⟩
  | nextHeartbeatEvent =>
    cases h
    exact ⟨rfl, [], (List.append_nil _).symm, by simp⟩
  | takeResetEvent =>
    cases h
    exact ⟨rfl, [], (List.append_nil _).symm, by simp⟩

/-! ## Pulses and receptions as the engine sees them -/

theorem produceSync_quiet {nowUs : UInt64} (hp : m.isPulse (.produceSync nowUs) = false) :
    Quiet m (m.produceSync nowUs) := by
  unfold Machine.produceSync
  split_ifs with h
  · have hpoll := m.node.syncProducer.poll_config nowUs
    cases hf : (m.node.syncProducer.poll nowUs).2 with
    | none => simpa only [hf] using setProducer_quiet m hpoll
    | some frame =>
      have hrefused : (m.bus.transmit m.state .sync frame).1 ≠ .accepted := by
        change m.bus.answers.headD .accepted ≠ .accepted
        simpa [Machine.isPulse, h, hf] using hp
      rw [Bool.and_eq_true, bne_iff_ne] at h
      simp only [hf]
      rw [if_neg hrefused]
      exact quiet_transmit (setProducer_quiet m hpoll) frame (.inr (.inr (.inl ⟨rfl, h.1, h.2⟩)))
  · exact quiet_refl m

/-- In Operational a pulse commits the buffers and samples, after a step of SYNC alone. -/
theorem pulse_eq {a : Action OD} (hp : m.isPulse a = true) (hop : m.state = .operational)
    (h : m.act a = some m') : ∃ m₁ nowUs, a.nowUs = some nowUs ∧ Quiet m m₁ ∧
      m₁.node.queues = m.node.queues ∧ m' = m₁.applyPulse.sendPulse nowUs := by
  cases a with
  | frame nowUs frame =>
    simp only [Machine.isPulse, Bool.and_eq_true, beq_iff_eq] at hp
    rw [Machine.act, dispatchFrame_eq, hp.1] at h
    cases h
    refine ⟨_, nowUs, rfl, syncCounter_quiet m frame, rfl, ?_⟩
    unfold Machine.syncFrame Machine.handleSync
    dsimp only
    rw [if_pos hp.2]
    exact if_pos hop
  | produceSync nowUs =>
    simp only [Machine.isPulse, Bool.and_eq_true, beq_iff_eq, bne_iff_ne] at hp
    obtain ⟨⟨⟨hbooted, hstopped⟩, hdue⟩, haccepted⟩ := hp
    obtain ⟨frame, hf⟩ := Option.isSome_iff_exists.mp hdue
    have hpoll := m.node.syncProducer.poll_config nowUs
    have hsent : Quiet m ⟨{ m.node with
        syncProducer := (m.node.syncProducer.poll nowUs).1.confirmSent nowUs }, m.bus⟩ :=
      setProducer_quiet m hpoll
    have hquiet := quiet_transmit hsent frame (.inr (.inr (.inl ⟨rfl, hbooted, hstopped⟩)))
    cases h
    refine ⟨_, nowUs, rfl, hquiet, rfl, ?_⟩
    unfold Machine.produceSync Machine.handleSync
    rw [if_pos (by simp [hbooted, hstopped])]
    simp only [hf]
    have htaken : (m.bus.transmit m.state .sync frame).1 = .accepted := haccepted
    rw [if_pos htaken]
    exact if_pos hop
  | _ => cases hp

theorem rpdoSlot_act {frame : CanFrame} {i : ℕ} {slot : RpdoSlot}
    (hs : m.rpdoSlot frame = some (i, slot)) (nowUs : UInt64) :
    m.act (.frame nowUs frame) = some (m.receiveRpdo i slot frame nowUs) ∧
      m.node.rpdo.slots[i]? = some slot := by
  unfold Machine.rpdoSlot at hs
  split_ifs at hs with hroute
  obtain ⟨k, hk, hslot⟩ := Option.bind_eq_some_iff.mp hs
  obtain ⟨slot', hget, heq⟩ := Option.map_eq_some_iff.mp hslot
  cases heq
  refine ⟨?_, hget⟩
  rw [Machine.act, dispatchFrame_eq, hroute.1, Machine.take, Machine.processRpdoFrame,
    if_pos hroute.2, hk]
  simp only [hget]

/-- Every other action that is no pulse leaves the buffers alone. -/
theorem act_keepsBuffers {a : Action OD} (hp : m.isPulse a = false) (hop : m.state = .operational)
    (hop' : m'.state = .operational) (h : m.act a = some m')
    (hs : ∀ nowUs frame, a = .frame nowUs frame → m.rpdoSlot frame = none) :
    KeepsBuffers m m' := by
  cases a with
  | boot nowUs answers =>
    cases h
    have hanswers : KeepsBuffers m ⟨m.node, ⟨answers, m.bus.trace⟩⟩ :=
      ⟨rfl, [], (List.append_nil _).symm, by simp⟩
    exact hanswers.trans (keepsBuffers_boot _ nowUs)
  | expire nowUs =>
    cases h
    have hpolled := onChannels_silent
      (fun i ch b => channelStep_ofChannel (.beginPoll nowUs ch b : ChannelStep m.state i _ _ _ _))
      m.latchSyncEvents
    exact ((latchSyncEvents_silent m).keepsBuffers rfl).trans
      (hpolled.keepsBuffers (onChannels_rpdo _ _))
  | frame nowUs frame =>
    rw [Machine.act, dispatchFrame_eq] at h
    cases hroute : m.node.route frame with
    | sdo i =>
      rw [hroute] at h
      exact keepsBuffers_request h
    | sync =>
      have hinvalid : (m.node.sync.process frame).2.isSome = false := by
        simpa [Machine.isPulse, hroute] using hp
      rw [hroute] at h
      cases h
      unfold Machine.syncFrame
      dsimp only
      rw [if_neg (by simp [hinvalid])]
      exact keepsBuffers_quiet (syncCounter_quiet m frame)
    | nmt =>
      rw [hroute] at h
      exact keepsBuffers_nmt h hop'
    | lss =>
      rw [hroute] at h
      cases h
      exact keepsBuffers_quiet (lssRequest_quiet m frame)
    | monitor i monitor =>
      rw [hroute] at h
      cases h
      exact keepsBuffers_quiet (heartbeatFrame_quiet (route_monitor hroute) nowUs)
    | rpdo =>
      have hnone := hs nowUs frame rfl
      rw [Machine.rpdoSlot, if_pos ⟨hroute, hop⟩] at hnone
      rw [hroute, Machine.take, Machine.processRpdoFrame, if_pos hop] at h
      cases hk : m.node.rpdo.slotFor frame with
      | none =>
        rw [hk] at h
        cases h
        exact keepsBuffers_refl m
      | some i =>
        rw [hk, Option.bind_some, Option.map_eq_none_iff] at hnone
        simp only [hk, hnone] at h
        cases h
        exact keepsBuffers_refl m
  | service nowUs =>
    cases h
    exact (onChannels_silent (fun i ch b => service_channelOnly m.state nowUs i ch b) m).keepsBuffers
      (onChannels_rpdo _ _)
  | produceSync nowUs =>
    cases h
    exact keepsBuffers_quiet (produceSync_quiet hp)
  | finish nowUs =>
    rw [Machine.act_finish h]
    exact keepsBuffers_finish hop nowUs
  | call c hc => exact keepsBuffers_call hc h hop'

end Keeps

/-! ## Between two pulses -/

section Window

variable {configs : List RpdoConfig} {past : List (ℕ × CanFrame)} {m m' : Machine OD evt dirty}

/-- Since the last pulse the node has been Operational with the same configuration, and
its buffers hold the latest frames received since then. -/
structure Buffered (configs : List RpdoConfig) (past : List (ℕ × CanFrame))
    (m : Machine OD evt dirty) : Prop where
  operational : m.state = .operational
  unchanged : m.rpdoConfigs = configs
  buffers : ∀ i config, configs[i]? = some config →
    m.buffers[i]? = some (committedFrame past i config)

theorem receiveRpdo_sync {slot : RpdoSlot}
    (hsync : rawIsSynchronous slot.config.transmissionType = true) (m : Machine OD evt dirty)
    (i : ℕ) (frame : CanFrame) (nowUs : UInt64) :
    ∃ rpdo obs, m.receiveRpdo i slot frame nowUs = m.setRpdo rpdo obs ∧
      (∀ w state, .odWrite .rpdo w state ∉ obs) ∧ rpdo.slots.map RpdoSlot.pending =
        if slot.longEnough frame then m.buffers.set i (some frame) else m.buffers := by
  unfold Machine.receiveRpdo
  dsimp only
  cases slot.longEnough frame with
  | false => exact ⟨_, [], rfl, by simp, rfl⟩
  | true =>
    rw [if_neg (by simp), if_pos hsync, if_pos rfl]
    exact ⟨_, [.rpdoReceived i frame], rfl, by simp, List.map_set⟩

theorem receiveRpdo_async {i : ℕ} {slot : RpdoSlot} {frame : CanFrame} (nowUs : UInt64)
    (hget : m.node.rpdo.slots[i]? = some slot)
    (hsync : rawIsSynchronous slot.config.transmissionType = false) :
    (m.receiveRpdo i slot frame nowUs).buffers = m.buffers := by
  have hkept : (m.node.rpdo.slots.set i (slot.stamped nowUs)).map RpdoSlot.pending =
      m.node.rpdo.slots.map RpdoSlot.pending := by
    obtain ⟨hi, rfl⟩ := List.getElem?_eq_some_iff.mp hget
    rw [List.map_set]
    apply List.ext_getElem?
    intro k
    by_cases hk : i = k
    · subst hk
      rw [List.getElem?_set_self (by simpa using hi), List.getElem?_map, hget]
      rfl
    · rw [List.getElem?_set_ne hk]
  unfold Machine.receiveRpdo
  dsimp only
  rw [hsync]
  cases slot.longEnough frame with
  | false => rfl
  | true => exact hkept

theorem committedFrame_append (past : List (ℕ × CanFrame)) (i k : ℕ) (frame : CanFrame)
    (config : RpdoConfig) : committedFrame (past ++ [(i, frame)]) k config =
      if i = k ∧ rawIsSynchronous config.transmissionType = true then some frame
      else committedFrame past k config := by
  unfold committedFrame
  rw [latest_append]
  cases rawIsSynchronous config.transmissionType with
  | false => simp
  | true => simp

theorem Buffered.receive {i : ℕ} {slot : RpdoSlot} {frame : CanFrame} {nowUs : UInt64}
    (h : Buffered configs past m) (hs : m.rpdoSlot frame = some (i, slot))
    (ha : m.act (.frame nowUs frame) = some m') (hop : m'.state = .operational)
    (hconfigs : m'.rpdoConfigs = configs) :
    Buffered configs (past ++ m.received (.frame nowUs frame)) m' := by
  obtain ⟨hact, hget⟩ := rpdoSlot_act hs nowUs
  rw [hact] at ha
  cases ha
  have hconfig : configs[i]? = some slot.config := by
    rw [← h.unchanged, Machine.rpdoConfigs, List.getElem?_map, hget]
    rfl
  refine ⟨hop, hconfigs, ?_⟩
  intro k config hk
  have hold := h.buffers k config hk
  have hreceived : m.received (.frame nowUs frame) =
      if slot.longEnough frame then [(i, frame)] else [] := by
    rw [Machine.received, hs]
  rw [hreceived]
  cases hsync : rawIsSynchronous slot.config.transmissionType with
  | false =>
    -- an event-driven PDO has no frame to commit, whatever was received for it
    rw [receiveRpdo_async nowUs hget hsync, hold]
    split_ifs
    · rw [committedFrame_append, if_neg]
      rintro ⟨rfl, hk'⟩
      rw [hconfig] at hk
      cases hk
      rw [hsync] at hk'
      cases hk'
    · rw [List.append_nil]
  | true =>
    obtain ⟨rpdo, obs, heq, -, hbuffers⟩ := receiveRpdo_sync hsync m i frame nowUs
    have hset : (m.receiveRpdo i slot frame nowUs).buffers = rpdo.slots.map RpdoSlot.pending := by
      rw [heq]
      rfl
    rw [hset, hbuffers]
    split_ifs
    · rw [committedFrame_append]
      by_cases hik : i = k
      · subst hik
        rw [hconfig] at hk
        cases hk
        have hi : i < m.buffers.length := (List.getElem?_eq_some_iff.mp hold).1
        rw [List.getElem?_set_self hi, if_pos ⟨rfl, hsync⟩]
      · rw [List.getElem?_set_ne hik, if_neg (fun hand => hik hand.1)]
        exact hold
    · rw [List.append_nil]
      exact hold

/-- One action between two pulses. -/
theorem Buffered.step {a : Action OD} (h : Buffered configs past m)
    (hu : m.undisturbed configs a = true) (ha : m.act a = some m') :
    Buffered configs (past ++ m.received a) m' := by
  rw [Machine.undisturbed, ha, Option.any_some, Bool.and_eq_true, Bool.and_eq_true, beq_iff_eq,
    beq_iff_eq, Bool.not_eq_true'] at hu
  obtain ⟨hp, hop, hconfigs⟩ := hu
  have hother (hs : ∀ nowUs frame, a = .frame nowUs frame → m.rpdoSlot frame = none)
      (hnone : m.received a = []) : Buffered configs (past ++ m.received a) m' := by
    rw [hnone, List.append_nil]
    refine ⟨hop, hconfigs, ?_⟩
    rw [(act_keepsBuffers hp h.operational hop ha hs).buffers]
    exact h.buffers
  cases a with
  | frame nowUs frame =>
    cases hs : m.rpdoSlot frame with
    | some p => exact h.receive hs ha hop hconfigs
    | none =>
      apply hother
      · intro _ _ heq
        cases heq
        exact hs
      · rw [Machine.received, hs]
  | _ => exact hother (fun _ _ heq => by cases heq) rfl

/-- What an action between two pulses does not do: a frame of a synchronous PDO changes
neither the dictionary nor the events, and nothing is written for a receive PDO except
by a frame of an event-driven one. -/
def Deferred (m m' : Machine OD evt dirty) (a : Action OD) : Prop :=
  (∀ nowUs frame i slot, a = .frame nowUs frame → m.rpdoSlot frame = some (i, slot) →
    rawIsSynchronous slot.config.transmissionType = true →
      m'.node.od = m.node.od ∧ m'.node.queues = m.node.queues) ∧
  ∃ obs, m'.bus.trace = m.bus.trace ++ obs ∧ ∀ w state, .odWrite .rpdo w state ∈ obs →
    ∃ nowUs frame i slot, a = .frame nowUs frame ∧ m.rpdoSlot frame = some (i, slot) ∧
      rawIsSynchronous slot.config.transmissionType = false

theorem act_deferred {a : Action OD} (hop : m.state = .operational)
    (hu : m.undisturbed configs a = true) (ha : m.act a = some m') : Deferred m m' a := by
  rw [Machine.undisturbed, ha, Option.any_some, Bool.and_eq_true, Bool.and_eq_true, beq_iff_eq,
    Bool.not_eq_true'] at hu
  obtain ⟨hp, hop', -⟩ := hu
  have hother (hs : ∀ nowUs frame, a = .frame nowUs frame → m.rpdoSlot frame = none) :
      Deferred m m' a := by
    refine ⟨?_, ?_⟩
    · intro nowUs frame i slot heq hslot
      rw [hs nowUs frame heq] at hslot
      cases hslot
    · obtain ⟨obs, htrace, hobs⟩ := (act_keepsBuffers hp hop hop' ha hs).trace
      exact ⟨obs, htrace, fun w state hw => absurd hw (hobs w state)⟩
  cases a with
  | frame nowUs frame =>
    cases hs : m.rpdoSlot frame with
    | none =>
      apply hother
      intro _ _ heq
      cases heq
      exact hs
    | some p =>
      obtain ⟨hact, hget⟩ := rpdoSlot_act hs nowUs
      rw [hact] at ha
      cases ha
      cases hsync : rawIsSynchronous p.2.config.transmissionType with
      | true =>
        obtain ⟨rpdo, obs, heq, hobs, -⟩ := receiveRpdo_sync hsync m p.1 frame nowUs
        rw [heq]
        refine ⟨fun _ _ _ _ _ _ _ => ⟨rfl, rfl⟩, obs, rfl, ?_⟩
        intro w state hw
        exact absurd hw (hobs w state)
      | false =>
        refine ⟨?_, ?_⟩
        · intro _ _ i slot heq hslot hsync'
          cases heq
          rw [hs] at hslot
          cases hslot
          rw [hsync] at hsync'
          cases hsync'
        · obtain ⟨obs, htrace⟩ : ∃ obs, (m.receiveRpdo p.1 p.2 frame nowUs).bus.trace =
              m.bus.trace ++ obs := by
            obtain ⟨obs, hposts⟩ : ∃ obs, Posts (fun _ => none) m _ obs [] :=
              receiveRpdo_posts m p.1 p.2 frame nowUs
            exact ⟨obs, hposts.trace⟩
          exact ⟨obs, htrace, fun w state _ => ⟨nowUs, frame, p.1, p.2, rfl, hs, hsync⟩⟩
  | _ => exact hother fun _ _ heq => by cases heq

/-! ## The pulse -/

theorem pulse_buffered {a : Action OD} (hp : m.isPulse a = true) (hop : m.state = .operational)
    (ha : m.act a = some m') : Buffered m'.rpdoConfigs [] m' := by
  obtain ⟨m₁, nowUs, -, hquiet, -, rfl⟩ := pulse_eq hp hop ha
  have hslots : (m₁.applyPulse.sendPulse nowUs).node.rpdo.slots =
      m₁.node.rpdo.slots.map ({ · with pending := none }) :=
    onSync_slots m₁.node.rpdo.slots m₁.rpdoState
  refine ⟨?_, rfl, ?_⟩
  · change m₁.node.nmt.state = .operational
    rw [hquiet.nmt]
    exact hop
  · intro i config hi
    have hnone : committedFrame [] i config = none := by
      unfold committedFrame latest
      split_ifs <;> rfl
    rw [Machine.rpdoConfigs, hslots, List.map_map, List.getElem?_map] at hi
    obtain ⟨slot, hslot, -⟩ := Option.map_eq_some_iff.mp hi
    rw [hnone, Machine.buffers, hslots, List.map_map, List.getElem?_map, hslot]
    rfl

/-- What a pulse does: the buffered frames are committed and logged, and then the
transmit PDOs are sampled in the dictionary that results. -/
structure Pulsed (s : RpdoState OD evt) (m m' : Machine OD evt dirty) : Prop where
  od : m'.node.od = s.od
  events : m'.node.eventQueue = s.events
  dropped : m'.node.eventOverflowCount = Counter.saturatingAdd m.node.eventOverflowCount s.dropped
  refused : m'.node.pendingSyncTpdo ⊆ (m.node.tpdo.onSync s.od).2
  trace : ∃ before between offers, m'.bus.trace = m.bus.trace ++ (before ++
      s.writes.map (.odWrite .rpdo · .operational) ++ between ++
      .pulse (m.node.tpdo.onSync s.od).2 :: offers) ∧
    (∀ source w state, .odWrite source w state ∉ before ++ between ++ offers) ∧
    ∀ o ∈ offers, ∃ frame ∈ (m.node.tpdo.onSync s.od).2, ∃ result,
      o = .offer .syncTpdo frame result .operational

theorem Buffered.pulsed {a : Action OD} (h : Buffered configs past m) (hp : m.isPulse a = true)
    (ha : m.act a = some m') :
    Pulsed (commitFrames (committedFrame past) 0 configs m.rpdoState) m m' := by
  obtain ⟨m₁, nowUs, -, hquiet, hqueues, rfl⟩ := pulse_eq hp h.operational ha
  simp only [Node.queues, Prod.mk.injEq] at hqueues
  obtain ⟨hevents, -, hcount⟩ := hqueues
  have hstate : m₁.state = .operational := by
    rw [Machine.state, hquiet.nmt]
    exact h.operational
  have hcommit : (RpdoEngine.onSync m₁.node.rpdo.slots m₁.rpdoState).2 =
      commitFrames (committedFrame past) 0 configs m.rpdoState := by
    have hsame : m₁.rpdoState = m.rpdoState := by
      rw [Machine.rpdoState, Machine.rpdoState, hquiet.od, hevents]
    rw [hquiet.rpdo, hsame, ← h.unchanged]
    apply onSync_commitFrames
    intro i slot hget
    have hbuffer := h.buffers i slot.config (by
      rw [← h.unchanged, Machine.rpdoConfigs, List.getElem?_map, hget]
      rfl)
    rw [Machine.buffers, List.getElem?_map, hget] at hbuffer
    rw [Nat.zero_add]
    exact Option.some.inj hbuffer
  generalize commitFrames (committedFrame past) 0 configs m.rpdoState = s at hcommit
  have hod : m₁.applyPulse.node.od = s.od := by
    rw [← hcommit]
    rfl
  have hsampled : (m₁.applyPulse.node.tpdo.onSync m₁.applyPulse.node.od).2 =
      (m.node.tpdo.onSync s.od).2 := by
    rw [hod]
    change (m₁.node.tpdo.onSync s.od).2 = _
    rw [hquiet.tpdo]
  obtain ⟨obs, htrace, hobs⟩ := sendPulse_trace m₁.applyPulse nowUs
  obtain ⟨obs₁, htrace₁, hobs₁⟩ := hquiet.trace
  rw [hsampled] at htrace hobs
  refine ⟨hod, ?_, ?_, ?_, ?_⟩
  · rw [← hcommit]
    rfl
  · rw [← hcommit, ← hcount]
    rfl
  · rw [← hsampled]
    exact transmitAll_subset _ _ _ _
  · refine ⟨obs₁ ++ appliedObs m₁.node.rpdo.slots, sampledObs m₁.applyPulse.node.tpdo.slots, obs,
      ?_, ?_, ?_⟩
    · have happlied : m₁.applyPulse.bus.trace = m₁.bus.trace ++ (appliedObs m₁.node.rpdo.slots ++
          s.writes.map (.odWrite .rpdo · .operational)) := by
        rw [← hcommit, ← hstate]
        rfl
      rw [htrace, happlied, htrace₁]
      simp only [List.append_assoc]
    · intro source w state hw
      simp only [List.mem_append] at hw
      rcases hw with ((hw | hw) | hw) | hw
      · obtain ⟨kind, frame, result, heq, -⟩ := hobs₁ _ hw
        cases heq
      · obtain ⟨i, slot, frame, heq, -⟩ := mem_appliedObs hw
        cases heq
      · obtain ⟨i, slot, heq, -⟩ := mem_sampledObs hw
        cases heq
      · obtain ⟨frame, -, result, heq⟩ := hobs _ hw
        cases heq
    · intro o ho
      obtain ⟨frame, hframe, result, rfl⟩ := hobs o ho
      refine ⟨frame, hframe, result, ?_⟩
      have hafter : m₁.applyPulse.state = .operational := hstate
      rw [hafter]

/-- SYNC makes synchronous PDOs coherent. Take any actions between two pulses, received
or produced, during which the node stays Operational with the same configuration of its
receive PDOs. Until the second pulse the frames of synchronous PDOs have no effect; the
pulse commits the latest acceptable frame of each synchronous slot received since the
first one, in slot order, and samples the transmit PDOs in the resulting dictionary. -/
theorem sync_coherent {m₀ m₁ : Machine OD evt dirty} {first second : Action OD}
    {window : List (Action OD)} (hop : m₀.state = .operational)
    (hfirst : m₀.isPulse first = true) (h₁ : m₀.act first = some m₁)
    (hwindow : Runs.along Machine.act (Machine.undisturbed m₁.rpdoConfigs) m₁ window = true)
    (hm : m₁.acts window = some m) (hsecond : m.isPulse second = true)
    (hm' : m.act second = some m') :
    (∀ pre a post mₐ mₐ', window = pre ++ a :: post → m₁.acts pre = some mₐ →
      mₐ.act a = some mₐ' → Deferred mₐ mₐ' a) ∧
    Pulsed (commitFrames
      (committedFrame (Runs.log Machine.act Machine.received m₁ window)) 0
      m₁.rpdoConfigs m.rpdoState) m m' := by
  have hstart := pulse_buffered hfirst hop h₁
  have hrun {l : List (Action OD)} {m : Machine OD evt dirty}
      (hl : Runs.along Machine.act (Machine.undisturbed m₁.rpdoConfigs) m₁ l = true)
      (hm : m₁.acts l = some m) :
      Buffered m₁.rpdoConfigs (Runs.log Machine.act Machine.received m₁ l) m := by
    have hinv := Runs.run_inv (fun past s a s' hinv hu ha => Buffered.step hinv hu ha) hstart hl hm
    rwa [List.nil_append] at hinv
  refine ⟨?_, (hrun hwindow hm).pulsed hsecond hm'⟩
  rintro pre a post mₐ mₐ' rfl hpre ha
  obtain ⟨hbefore, hafter⟩ := Runs.along_append hpre hwindow
  rw [Runs.along, Bool.and_eq_true] at hafter
  exact act_deferred (hrun hbefore hpre).operational hafter.1 ha

end Window

/-! ## A run of the small device -/

def syncWordConfig : NodeConfig :=
  { NodeConfig.fromOd sampleOd sampleNode with
    rpdo := [⟨1, 0x205, 1, 0, [⟨0x6040, 0, 16⟩], true⟩] }

/-- The node is started before the first pulse. -/
def startActions : List (Action GeneratedOd) :=
  [.boot 0 [], .frame 0 (.literal 0x000 [1, 5])]

def syncAction (nowUs : UInt64) : Action GeneratedOd :=
  .frame nowUs (.literal 0x080 [])

/-- The control word is received twice. -/
def wordActions : List (Action GeneratedOd) :=
  [.frame 20 (.literal 0x205 [0x06, 0x00]),
    .frame 30 (.literal 0x205 [0x0F, 0x00])]

theorem sync_coherent_latest_word :
    ∃ m₀ m₁ m m' : Machine GeneratedOd 4 4, m₀.act (syncAction 10) = some m₁ ∧
      m₁.acts wordActions = some m ∧ m.act (syncAction 40) = some m' ∧
      (Runs.log Machine.act Machine.received m₁ wordActions).length = 2 ∧
      Pulsed (commitFrames
        (committedFrame (Runs.log Machine.act Machine.received m₁ wordActions)) 0
        m₁.rpdoConfigs m.rpdoState) m m' := by
  have hany : ((Node.new syncWordConfig sampleOd : Option (Node GeneratedOd 4 4)).bind fun n =>
      ((Machine.start n).acts startActions).bind fun m₀ => (m₀.act (syncAction 10)).bind fun m₁ =>
      (m₁.acts wordActions).bind fun m => (m.act (syncAction 40)).map fun m' =>
        (m₀, m₁, m, m')).any (fun (m₀, m₁, m, _) => m₀.state == .operational &&
          m₀.isPulse (syncAction 10) && m.isPulse (syncAction 40) &&
          Runs.along Machine.act (Machine.undisturbed m₁.rpdoConfigs) m₁ wordActions &&
          (Runs.log Machine.act Machine.received m₁ wordActions).length == 2) = true := by
    decide
  obtain ⟨⟨m₀, m₁, m, m'⟩, hrun, hp⟩ := (Option.any_eq_true _ _).mp hany
  obtain ⟨n, -, hrun⟩ := Option.bind_eq_some_iff.mp hrun
  obtain ⟨_, -, hrun⟩ := Option.bind_eq_some_iff.mp hrun
  obtain ⟨_, h₁, hrun⟩ := Option.bind_eq_some_iff.mp hrun
  obtain ⟨_, h, hrun⟩ := Option.bind_eq_some_iff.mp hrun
  obtain ⟨_, h', heq⟩ := Option.map_eq_some_iff.mp hrun
  cases heq
  simp only [Bool.and_eq_true, beq_iff_eq] at hp
  obtain ⟨⟨⟨⟨hop, hfirst⟩, hsecond⟩, hwindow⟩, hlen⟩ := hp
  exact ⟨m₀, m₁, m, m', h₁, h, h', hlen, (sync_coherent hop hfirst h₁ hwindow h hsecond h').2⟩

end Canopen
