import Canopen.Node.Trace
import Canopen.Sdo.Transfers

/-!
# The PDO configuration lock

An SDO download to a PDO parameter is refused while the node is Operational, but
only when the download is initiated. A segmented or block download that is already
in progress when the node becomes Operational still commits. `LockInv` holds as
long as this does not happen.
-/

namespace Canopen

open Pdo Sdo

variable {OD : Type} [ObjectDictionary OD] {evt dirty : ℕ}

def Node.pdoConfigs (n : Node OD evt dirty) : List TpdoConfig × List RpdoConfig :=
  (n.tpdo.slots.map (·.config), n.rpdo.slots.map (·.config))

/-- A transfer that writes PDO parameters when it ends. -/
def Sdo.TransferState.writesPdoConfig (t : TransferState) : Bool :=
  t.isDownload && isPdoConfigIndex t.indexSub.1

theorem pdoDownload_eq (ch : SdoChannel) :
    ch.pdoDownload = ch.server.transfer.any TransferState.writesPdoConfig := by
  unfold SdoChannel.pdoDownload
  rcases ch.server.transfer with _ | (t | b | b)
  · rfl
  · rfl
  · rfl
  · rfl

/-! ## One request -/

section Request

variable {cap : ℕ} {s : SdoState OD cap} {request : SdoFrame} {ctx : SdoContext}

omit [ObjectDictionary OD] in
/-- In Operational no request leaves a download of PDO parameters behind, unless one
was in progress. -/
theorem transferStep_locked {t : Option TransferState} (h : TransferStep s request ctx t)
    (operational : ctx.nmtState = .operational)
    (free : s.server.transfer.any TransferState.writesPdoConfig = false) :
    t.any TransferState.writesPdoConfig = false := by
  have hlock {index : UInt16} (h : pdoConfigLocked ctx index = false) :
      isPdoConfigIndex index = false := by
    simpa [pdoConfigLocked, operational] using h
  cases h with
  | ended => rfl
  | upload hup => simp [TransferState.writesPdoConfig, hup]
  | kept transfer => simpa [transfer] using free
  | initiated _ _ unlocked _ =>
    simp [TransferState.writesPdoConfig, TransferState.indexSub, SegmentedTransfer.newDownload,
      hlock unlocked]
  | segment transfer direction =>
    rw [transfer] at free
    exact free
  | blockInitiated _ _ unlocked =>
    simp [TransferState.writesPdoConfig, TransferState.indexSub, BlockDownloadState.initiated,
      hlock unlocked]
  | @blockSegment b transfer _ _ _ hfit =>
    rw [transfer] at free
    have hindex : (b.advance request ctx.nowUs hfit).index = b.index := by
      unfold BlockDownloadState.advance
      dsimp only
      split_ifs <;> rfl
    simpa [TransferState.writesPdoConfig, TransferState.isDownload, TransferState.indexSub, hindex]
      using free

theorem commitRequest_locked {index : UInt16} {subindex : UInt8} {data : List UInt8}
    {success : SdoFrame} (h : CommitRequest s request ctx index subindex data success)
    (operational : ctx.nmtState = .operational)
    (free : s.server.transfer.any TransferState.writesPdoConfig = false) :
    isPdoConfigIndex index = false := by
  cases h with
  | expedited _ _ _ unlocked => simpa [pdoConfigLocked, operational] using unlocked
  | segmented transfer direction =>
    simpa [transfer, TransferState.writesPdoConfig, TransferState.isDownload,
      TransferState.indexSub, direction] using free
  | block transfer =>
    simpa [transfer, TransferState.writesPdoConfig, TransferState.isDownload,
      TransferState.indexSub] using free

theorem processWithContext_locked (s : SdoState OD cap) (request : SdoFrame) (ctx : SdoContext)
    (hempty : s.writes = []) (hnone : s.server.committedWrite = none)
    (operational : ctx.nmtState = .operational)
    (free : s.server.transfer.any TransferState.writesPdoConfig = false) :
    (∀ w ∈ (s.processWithContext request ctx).1.writes, isPdoConfigIndex w.index = false) ∧
    ∀ index subindex,
      (s.processWithContext request ctx).1.server.committedWrite = some (index, subindex) →
        isPdoConfigIndex index = false := by
  rcases processWithContext_cases s request ctx with
    ⟨hsame, -⟩ | ⟨index, subindex, data, success, hreq, heq⟩
  · constructor
    · intro w hw
      rw [hsame.writes, hempty] at hw
      cases hw
    · intro index subindex hc
      rw [hsame.committed, hnone] at hc
      cases hc
  · have hindex := commitRequest_locked hreq operational free
    rw [heq]
    rcases commitDownload_cases s ctx index subindex data success with
      ⟨code, -, h⟩ | ⟨e, code, -, -, h⟩ | ⟨-, -, h⟩ <;> rw [h]
    · simp [SdoState.setTransfer, hempty, hnone]
    · simp [SdoState.setTransfer, hempty, hnone, hindex]
    · constructor
      · simp [hempty, hindex]
      · intro i sub hc
        cases hc
        exact hindex

end Request

/-! ## The invariant -/

/-- The node became Operational while PDO parameters were being downloaded. -/
def StartedDuringDownload (trace : List Obs) : Prop :=
  ∃ old, .nmt old .operational true ∈ trace

def Obs.startsDuringDownload : Obs → Bool
  | .nmt _ .operational true => true
  | _ => false

/-- No channel has a committed write left to report, and in Operational none has a
download of PDO parameters in progress. -/
def ChannelsLocked (m : Machine OD evt dirty) : Prop :=
  ∀ ch ∈ m.node.sdo, ch.server.committedWrite = none ∧
    (m.state = .operational → ch.pdoDownload = false)

structure LockInv (m : Machine OD evt dirty) : Prop where
  channels : ChannelsLocked m
  writes : ∀ i w, .odWrite (.sdo i) w .operational ∈ m.bus.trace → isPdoConfigIndex w.index = false

section Steps

variable {m m' : Machine OD evt dirty}

omit [ObjectDictionary OD] in
theorem ChannelsLocked.of_eq (h : ChannelsLocked m) (hsdo : m'.node.sdo = m.node.sdo)
    (hstate : m'.state = m.state) : ChannelsLocked m' := by
  unfold ChannelsLocked
  rw [hsdo, hstate]
  exact h

theorem channelStep_locked {state : NmtState} {i : ℕ} {ch ch' : SdoChannel} {b b' : Bus}
    (h : ChannelStep state i ch b ch' b') (hnone : ch.server.committedWrite = none) :
    ch'.server.committedWrite = none ∧ (ch.pdoDownload = false → ch'.pdoDownload = false) := by
  cases h with
  | beginPoll nowUs =>
    unfold SdoChannel.beginPoll
    split_ifs
    · exact ⟨hnone, fun _ => rfl⟩
    · unfold SdoServer.checkTimeout
      cases htr : ch.server.transfer with
      | none => exact ⟨hnone, by simp [pdoDownload_eq, htr]⟩
      | some t =>
        dsimp only
        split_ifs
        · exact ⟨hnone, fun _ => rfl⟩
        · exact ⟨hnone, by simp [pdoDownload_eq, htr]⟩
  | trySend =>
    rcases trySend_cases state i ch b with heq | ⟨frame, since, result, -, -, heq⟩
    · rw [heq]
      exact ⟨hnone, id⟩
    · rw [heq]
      split_ifs
      · exact ⟨hnone, id⟩
      · exact ⟨hnone, id⟩
  | nextSegment b free hpoll =>
    unfold SdoServer.pollBlockUpload at hpoll
    split at hpoll
    · split_ifs at hpoll
      · cases hpoll
      · cases hpoll
        exact ⟨hnone, fun _ => rfl⟩
    · cases hpoll

theorem served_locked {ch : SdoChannel} (request : SdoFrame) (nowUs : UInt64)
    (hnone : ch.server.committedWrite = none) (free : ch.pdoDownload = false)
    (operational : m.state = .operational) :
    (∀ w ∈ (m.served ch request nowUs).1.writes, isPdoConfigIndex w.index = false) ∧
    ∀ index subindex,
      (m.served ch request nowUs).1.server.committedWrite = some (index, subindex) →
        isPdoConfigIndex index = false := by
  rw [pdoDownload_eq] at free
  exact processWithContext_locked _ request (m.node.sdoContext nowUs) rfl hnone operational free

theorem request_locked {i : ℕ} {ch : SdoChannel} {request : SdoFrame} {nowUs : UInt64}
    (h : ChannelsLocked m) (hch : m.node.sdo[i]? = some ch)
    (hr : (m.answerRequest i ch request nowUs).1.resync
      (m.answerRequest i ch request nowUs).2 = some m') : ChannelsLocked m' := by
  obtain ⟨hread, -⟩ := resync_reread hr
  have hstate : m'.state = m.state := congrArg NmtHandler.state hread.nmt
  have hfree := h ch (List.mem_of_getElem? hch)
  have hserver : (m.requestChannel ch request nowUs).server.committedWrite = none ∧
      (m.state = .operational → (m.requestChannel ch request nowUs).pdoDownload = false) := by
    refine ⟨rfl, ?_⟩
    intro operational
    rw [pdoDownload_eq]
    exact transferStep_locked (processWithContext_transfer _ request _) operational
      (by rw [← pdoDownload_eq]; exact hfree.2 operational)
  intro c hc
  rw [hread.sdo] at hc
  rw [hstate]
  obtain ⟨ch', b', hsdo, -, hcases⟩ := answerRequest_cases m i ch request nowUs
  rw [hsdo] at hc
  rcases List.mem_or_eq_of_mem_set hc with hc | rfl
  · exact h c hc
  rcases hcases with ⟨-, rfl, -⟩ | ⟨data, -, hsend⟩
  · exact hserver
  · have hstep : ChannelStep m.state i ((m.requestChannel ch request nowUs).queue data nowUs)
        ((m.bus.log (m.requestObs i ch request nowUs)).log [.sdoProduced i data nowUs]) _ _ :=
      .trySend _ _
    rw [← hsend] at hstep
    obtain ⟨hnone, hkeep⟩ := channelStep_locked hstep hserver.1
    exact ⟨hnone, fun operational => hkeep (hserver.2 operational)⟩

omit [ObjectDictionary OD] in
theorem channelsLocked_of_nmt
    (hsdo : ∀ ch ∈ m'.node.sdo, ch.server.committedWrite = none)
    (hop : m'.state = .operational → m'.node.sdo = m.node.sdo ∧
      m.node.sdo.any SdoChannel.pdoDownload = false) : ChannelsLocked m' := by
  intro ch hch
  refine ⟨hsdo ch hch, ?_⟩
  intro operational
  obtain ⟨heq, hany⟩ := hop operational
  rw [heq] at hch
  simpa using List.any_eq_false.mp hany ch hch

omit [ObjectDictionary OD] in
theorem abort_uncommitted (h : ChannelsLocked m) :
    ∀ ch ∈ m.node.sdo.map SdoChannel.abort, ch.server.committedWrite = none := by
  intro ch hch
  obtain ⟨c, hc, rfl⟩ := List.mem_map.mp hch
  exact (h c hc).1

omit [ObjectDictionary OD] in
theorem not_started {p : Bool} {old s : NmtState} {obs : List Obs}
    (hmem : .nmt old s p ∈ obs) (hcond : ¬StartedDuringDownload obs) (hs : s = .operational) :
    p = false := by
  cases p with
  | false => rfl
  | true =>
    subst hs
    exact absurd ⟨old, hmem⟩ hcond

/-- Every step keeps the channels locked, unless it makes the node Operational during a
download of PDO parameters. -/
theorem channelsLocked_step {allowed : (OD → OD) → Prop} (h : ChannelsLocked m)
    (hs : Step allowed m m') (hcond : ¬StartedDuringDownload m'.bus.trace) :
    ChannelsLocked m' := by
  cases hs with
  | quiet hq => exact h.of_eq hq.sdo (by rw [Machine.state, Machine.state, hq.nmt])
  | boot nowUs hb =>
    obtain ⟨heartbeat, frame, result, ⟨hnode, htrace⟩ | ⟨nmt, -, hnode, htrace⟩⟩ :=
      boot_cases hb nowUs
    · exact h.of_eq (by rw [hnode]) (by rw [Machine.state, hnode]; rfl)
    · apply channelsLocked_of_nmt (m := m)
      · rw [hnode]
        exact fun ch hch => (h ch hch).1
      · intro operational
        have hmem : Obs.nmt m.state nmt.state (m.node.sdo.any SdoChannel.pdoDownload) ∈
            (m.boot nowUs).1.bus.trace := by
          simp [htrace]
        refine ⟨by rw [hnode], not_started hmem hcond ?_⟩
        rw [← operational, Machine.state, hnode]
  | channel i hch hstep =>
    intro c hc
    rcases List.mem_or_eq_of_mem_set hc with hc | rfl
    · exact h c hc
    · have hfree := h _ (List.mem_of_getElem? hch)
      obtain ⟨hnone, hkeep⟩ := channelStep_locked hstep hfree.1
      exact ⟨hnone, fun operational => hkeep (hfree.2 operational)⟩
  | request i request nowUs hch serves free hr => exact request_locked h hch hr
  | stateChanged s hnew hne hold =>
    apply channelsLocked_of_nmt (m := m)
    · rw [stateChanged_sdo]
      split_ifs
      · exact abort_uncommitted h
      · exact fun ch hch => (h ch hch).1
    · intro operational
      rw [stateChanged_state] at operational
      subst operational
      have hmem : Obs.nmt m.state .operational (m.node.sdo.any SdoChannel.pdoDownload) ∈
          (m.stateChanged ⟨.operational⟩).bus.trace := by
        rw [stateChanged_trace, Machine.stateChangedObs]
        simp
      exact ⟨stateChanged_sdo m .operational, not_started hmem hcond rfl⟩
  | reset resetType hr =>
    have hdone := requestReset_done hr
    apply channelsLocked_of_nmt (m := m)
    · rw [hdone.sdo]
      exact abort_uncommitted h
    · intro operational
      rw [hdone.state] at operational
      cases operational
  | receiveRpdo i frame nowUs operational hslot =>
    unfold Machine.receiveRpdo
    dsimp only
    split_ifs
    · exact h.of_eq rfl rfl
    · exact h.of_eq rfl rfl
    · exact h.of_eq rfl rfl
  | pulse nowUs operational => exact h.of_eq rfl rfl
  | retry nowUs =>
    rcases retryPendingSyncTpdo_cases m nowUs with heq | heq | ⟨-, last, heq⟩
    · exact h.of_eq (by rw [heq]) (by rw [heq])
    · exact h.of_eq (by rw [heq]) (by rw [heq]; rfl)
    · exact h.of_eq (by rw [heq]) (by rw [heq]; rfl)
  | deadlines nowUs =>
    rcases checkDeadlines_cases m nowUs with ⟨-, queue, count, heq⟩ | ⟨-, heq⟩
    · exact h.of_eq (by rw [heq]) (by rw [heq]; rfl)
    · exact h.of_eq (by rw [heq]; rfl) (by rw [heq]; rfl)
  | pollTpdo nowUs =>
    unfold Machine.pollTpdo
    split_ifs
    · exact h.of_eq rfl rfl
    · exact h
  | latchSyncEvents => exact h.of_eq rfl rfl
  | clearDirty => exact h.of_eq rfl rfl
  | notifyChanged index subindex => exact h.of_eq rfl rfl
  | odMut f _ => exact h.of_eq rfl rfl
  | storeErrorRegister emcy _ => exact h.of_eq rfl rfl

/-- Every step keeps the lock, unless it makes the node Operational during a download of
PDO parameters. -/
theorem lockInv_step {allowed : (OD → OD) → Prop} (h : LockInv m) (hs : Step allowed m m')
    (hcond : ¬StartedDuringDownload m'.bus.trace) : LockInv m' := by
  refine ⟨channelsLocked_step h.channels hs hcond, ?_⟩
  obtain ⟨obs, htrace, hacc, -⟩ := step_recorded hs
  intro i w ho
  rw [htrace] at ho
  rcases List.mem_append.mp ho with ho | ho
  · exact h.writes i w ho
  · obtain ⟨operational, ch, request, nowUs, hch, hw⟩ := hacc _ ho
    have hfree := h.channels ch (List.mem_of_getElem? hch)
    exact (served_locked request nowUs hfree.1 (hfree.2 operational.symm) operational.symm).1 w hw

theorem lockInv_steps {allowed : (OD → OD) → Prop} (hs : Steps allowed m m') (h : LockInv m)
    (hcond : ¬StartedDuringDownload m'.bus.trace) : LockInv m' := by
  induction hs with
  | refl => exact h
  | tail _ hlast ih =>
    apply lockInv_step _ hlast hcond
    apply ih
    rintro ⟨old, hmem⟩
    obtain ⟨obs, htrace, -⟩ := step_recorded hlast
    exact hcond ⟨old, by rw [htrace]; exact List.mem_append_left _ hmem⟩

theorem lockInv_start {config : NodeConfig} {od : OD} {n : Node OD evt dirty}
    (h : Node.new config od = some n) : LockInv (Machine.start n) := by
  obtain ⟨od', hread⟩ := new_reread h
  constructor
  · intro ch hch
    have hmem : ch ∈ n.sdo := hch
    rw [hread.sdo] at hmem
    rcases List.mem_cons.mp hmem with rfl | hmem
    · exact ⟨rfl, fun _ => rfl⟩
    · obtain ⟨s, -, rfl⟩ := List.mem_map.mp hmem
      exact ⟨rfl, fun _ => rfl⟩
  · intro i w ho
    cases ho

end Steps

/-! ## Runs -/

/-- A committed download outside the PDO parameters leaves the PDO engines as they are. -/
theorem resyncAfter_pdoConfigs {n n' : Node OD evt dirty} {index : UInt16}
    (hindex : isPdoConfigIndex index = false) (h : n.resyncAfter index = some n') :
    n'.pdoConfigs = n.pdoConfigs := by
  unfold Node.resyncAfter at h
  simp only [hindex, Bool.false_eq_true, if_false] at h
  have hheartbeat : (if index = 0x1016 ∨ index = 0x1017 then n.syncHeartbeatFromOd true
      else n).pdoConfigs = n.pdoConfigs := by
    split_ifs <;> rfl
  generalize (if index = 0x1016 ∨ index = 0x1017 then n.syncHeartbeatFromOd true else n) = n₁
    at h hheartbeat
  split_ifs at h
  · obtain ⟨p, -, rfl⟩ := Option.map_eq_some_iff.mp h
    exact hheartbeat
  · cases h
    exact hheartbeat

theorem handleSdoRequest_pdoConfigs {m m' : Machine OD evt dirty} (hlocked : ChannelsLocked m)
    (operational : m.state = .operational) {i : ℕ} {frame : CanFrame} {nowUs : UInt64}
    (h : m.handleSdoRequest i frame nowUs = some m') : m'.node.pdoConfigs = m.node.pdoConfigs := by
  unfold Machine.handleSdoRequest at h
  cases hch : m.node.sdo[i]? with
  | none =>
    rw [hch] at h
    cases h
    rfl
  | some ch =>
    simp only [hch] at h
    split_ifs at h
    · cases h
      rfl
    · cases h
      rfl
    · have hfree := hlocked ch (List.mem_of_getElem? hch)
      have hserved := served_locked (SdoFrame.ofData frame.data) nowUs hfree.1
        (hfree.2 operational) operational
      have hcommitted : (m.answerRequest i ch (SdoFrame.ofData frame.data) nowUs).2 =
          (m.served ch (SdoFrame.ofData frame.data) nowUs).1.server.committedWrite := rfl
      unfold Machine.resync at h
      rw [hcommitted] at h
      cases hc : (m.served ch (SdoFrame.ofData frame.data) nowUs).1.server.committedWrite with
      | none =>
        rw [hc] at h
        cases h
        rfl
      | some p =>
        rw [hc] at h
        obtain ⟨n, hn, rfl⟩ := Option.map_eq_some_iff.mp h
        exact (resyncAfter_pdoConfigs (hserved.2 p.1 p.2 hc) hn).trans rfl

/-- As long as the node never becomes Operational during a download of PDO parameters, no
download commits to one in Operational, whatever its transfer type, and no request
changes the configuration of the PDO engines there. -/
theorem pdo_config_locked {config : NodeConfig} {od : OD} {n : Node OD evt dirty}
    (hn : Node.new config od = some n) {m : Machine OD evt dirty} (hm : Visited n m)
    (hcond : ¬StartedDuringDownload m.bus.trace) :
    (∀ i w, .odWrite (.sdo i) w .operational ∈ m.bus.trace → isPdoConfigIndex w.index = false) ∧
    (m.state = .operational → ∀ i frame nowUs m', m.handleSdoRequest i frame nowUs = some m' →
      m'.node.pdoConfigs = m.node.pdoConfigs) := by
  have hinv : LockInv m := lockInv_steps (visited_steps hm) (lockInv_start hn) hcond
  refine ⟨hinv.writes, ?_⟩
  intro operational i frame nowUs m' h
  exact handleSdoRequest_pdoConfigs hinv.channels operational h

/-- An expedited download to the inhibit time of TPDO 1, refused in Operational. -/
def lockedCalls : List (Call Derive.GeneratedOd) :=
  [.process 0 [] [],
    .process 1000 [.literal 0x000 [0x01, 5],
      .literal 0x605 [0x2B, 0x00, 0x18, 3, 9, 0, 0, 0]] []]

theorem pdo_config_locked_expedited :
    ∃ m, sampleRun lockedCalls = some m ∧ m.state = .operational ∧
      ∀ i w, .odWrite (.sdo i) w .operational ∈ m.bus.trace →
        isPdoConfigIndex w.index = false := by
  have hany : (sampleRun lockedCalls).any (fun m => m.state == .operational &&
      m.bus.trace.all (!·.startsDuringDownload)) = true := by
    decide
  obtain ⟨n, m, hn, hr, hm, hp⟩ := sampleRun_of_any hany
  rw [Bool.and_eq_true, beq_iff_eq] at hp
  have hcond : ¬StartedDuringDownload m.bus.trace := by
    rintro ⟨old, hmem⟩
    cases List.all_eq_true.mp hp.2 _ hmem
  exact ⟨m, hm, hp.1, (pdo_config_locked hn (.between hr) hcond).1⟩

/-- A segmented download to the inhibit time of TPDO 1 is initiated in Pre-Operational,
then the node is started. -/
def startDuringDownload : List (Call Derive.GeneratedOd) :=
  [.process 0 [] [],
    .process 1000 [.literal 0x605 [0x21, 0x00, 0x18, 3, 2, 0, 0, 0],
      .literal 0x000 [0x01, 5]] []]

/-- The last segment of that download. -/
def lastSegment : Call Derive.GeneratedOd :=
  .process 2000 [.literal 0x605 [0x0B, 9, 0, 0, 0, 0, 0, 0]] []

/-- The download commits in Operational and changes the configuration of TPDO 1. -/
theorem pdo_config_unlocked_segmented :
    ∃ m m', sampleRun startDuringDownload = some m ∧ m.state = .operational ∧
      m.call lastSegment = some m' ∧
      .odWrite (.sdo 0) ⟨0x1800, 3, [9, 0], true⟩ .operational ∈ m'.bus.trace ∧
      isPdoConfigIndex 0x1800 = true ∧ m'.node.pdoConfigs ≠ m.node.pdoConfigs := by
  have hany : (sampleRun startDuringDownload).any (fun m => m.state == .operational &&
      (m.call lastSegment).any fun m' =>
        m'.bus.trace.contains (.odWrite (.sdo 0) ⟨0x1800, 3, [9, 0], true⟩ .operational) &&
        m'.node.pdoConfigs != m.node.pdoConfigs) = true := by
    decide
  obtain ⟨n, m, -, -, hm, hp⟩ := sampleRun_of_any hany
  rw [Bool.and_eq_true, beq_iff_eq] at hp
  obtain ⟨m', hm', hp'⟩ := (Option.any_eq_true _ _).mp hp.2
  rw [Bool.and_eq_true, bne_iff_ne] at hp'
  exact ⟨m, m', hm, hp.1, hm', by simpa using hp'.1, by decide, hp'.2⟩

end Canopen
