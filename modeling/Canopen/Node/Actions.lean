import Canopen.Lib.Runs
import Canopen.Node.Trace

/-!
# Actions

A processing call boots the node if need be, expires SDO work, dispatches the received
frames one after the other and then goes through the transmit stages. Cut into these
actions, a run shows every state between two frames, and when each SYNC pulse takes
place.
-/

namespace Canopen

open Pdo Sdo

variable {OD : Type} [ObjectDictionary OD] {evt dirty : ℕ}

/-- Every call but a processing call is one action. -/
def Call.isProcess : Call OD → Bool
  | .process _ _ _ => true
  | _ => false

/-- What a node does in one go. -/
inductive Action (OD : Type)
  /-- A processing call begins, with the answers the transport is going to give. -/
  | boot (nowUs : UInt64) (answers : List TxResult)
  /-- Application events are latched and stale SDO work expires. -/
  | expire (nowUs : UInt64)
  | frame (nowUs : UInt64) (frame : CanFrame)
  | service (nowUs : UInt64)
  | produceSync (nowUs : UInt64)
  /-- The stages after SYNC production. -/
  | finish (nowUs : UInt64)
  | call (c : Call OD) (h : c.isProcess = false)

def Action.nowUs : Action OD → Option UInt64
  | .boot nowUs _ | .expire nowUs | .frame nowUs _ | .service nowUs | .produceSync nowUs
  | .finish nowUs => some nowUs
  | .call _ _ => none

namespace Machine

/-- The stages of a processing call after SYNC production. -/
def finishStages (m : Machine OD evt dirty) (nowUs : UInt64) : Machine OD evt dirty :=
  let m := m.retryPendingSyncTpdo nowUs
  let m := m.checkDeadlines nowUs
  let m := m.sendHeartbeat nowUs
  let m := m.checkHeartbeats nowUs
  let m := m.sendEmcy
  let m := m.pollTpdo nowUs
  m.clearDirty

def act (m : Machine OD evt dirty) : Action OD → Option (Machine OD evt dirty)
  | .boot nowUs answers => some (Machine.boot ⟨m.node, ⟨answers, m.bus.trace⟩⟩ nowUs).1
  | .expire nowUs => some (m.latchSyncEvents.onChannels (SdoChannel.beginPoll nowUs))
  | .frame nowUs frame => m.dispatchFrame frame nowUs
  | .service nowUs => some (m.onChannels (SdoChannel.service m.state nowUs))
  | .produceSync nowUs => some (m.produceSync nowUs)
  | .finish nowUs => some (m.finishStages nowUs)
  | .call c _ => m.call c

theorem act_finish {m m' : Machine OD evt dirty} {nowUs : UInt64} (h : m.act (.finish nowUs) = some m') :
    m' = m.finishStages nowUs :=
  (Option.some.inj h).symm

/-- The actions of a call. A boot-up frame that is refused ends the call. -/
def actions (m : Machine OD evt dirty) (c : Call OD) : List (Action OD) :=
  match hc : c with
  | .process nowUs rx answers =>
    .boot nowUs answers ::
      if (Machine.boot ⟨m.node, ⟨answers, m.bus.trace⟩⟩ nowUs).2 then
        .expire nowUs :: rx.map (.frame nowUs) ++
          [.service nowUs, .produceSync nowUs, .finish nowUs]
      else []
  | .requestReset _ | .notifyChanged _ _ | .setError _ _ _ | .clearError _ | .clearAllErrors
  | .odMut _ | .nextEvent | .nextHeartbeatEvent | .takeResetEvent => [.call c (by rw [hc]; rfl)]

/-- A node takes the actions in order. -/
abbrev acts (m : Machine OD evt dirty) (l : List (Action OD)) : Option (Machine OD evt dirty) :=
  Runs.run act m l

/-- The actions of a run of calls. -/
abbrev runActions (m : Machine OD evt dirty) (calls : List (Call OD)) : List (Action OD) :=
  Runs.log call actions m calls

end Machine

/-! ## Calls are actions -/

theorem frames_acts (nowUs : UInt64) (rx : List CanFrame) (m : Machine OD evt dirty) :
    m.acts (rx.map (.frame nowUs)) = rx.foldlM (fun m frame => m.dispatchFrame frame nowUs) m := by
  unfold Machine.acts Runs.run
  rw [List.foldlM_map]
  rfl

/-- A processing call takes its actions one after the other. -/
theorem process_acts (m : Machine OD evt dirty) (nowUs : UInt64) (rx : List CanFrame)
    (answers : List TxResult) :
    m.call (.process nowUs rx answers) = m.acts (m.actions (.process nowUs rx answers)) := by
  unfold Machine.call Machine.process Machine.actions
  dsimp only
  cases hb : Machine.boot (⟨m.node, ⟨answers, m.bus.trace⟩⟩ : Machine OD evt dirty) nowUs with
  | mk m₁ running =>
    have hact : m.act (.boot nowUs answers) = some m₁ := by
      rw [Machine.act, hb]
    have hcons (l : List (Action OD)) : m.acts (.boot nowUs answers :: l) = m₁.acts l := by
      unfold Machine.acts Runs.run
      rw [List.foldlM_cons, hact]
      rfl
    rw [hcons]
    dsimp only
    cases running with
    | false => rfl
    | true =>
      simp only [if_true]
      unfold Machine.receive
      rw [← frames_acts]
      have hexpire (l : List (Action OD)) : m₁.acts (.expire nowUs :: l) =
          Machine.acts (m₁.latchSyncEvents.onChannels (SdoChannel.beginPoll nowUs)) l := rfl
      rw [List.cons_append, hexpire]
      unfold Machine.acts
      rw [Runs.run_append]
      cases Runs.run Machine.act (m₁.latchSyncEvents.onChannels (SdoChannel.beginPoll nowUs))
        (rx.map (.frame nowUs)) with
      | none => rfl
      | some m₂ => rfl

theorem call_acts (m : Machine OD evt dirty) (c : Call OD) : m.call c = m.acts (m.actions c) := by
  have hone (c : Call OD) (h : c.isProcess = false) : m.call c = m.acts [.call c h] := by
    change m.call c = (m.call c).bind some
    cases m.call c with
    | none => rfl
    | some m' => rfl
  cases c with
  | process nowUs rx answers => exact process_acts m nowUs rx answers
  | requestReset resetType => exact hone _ rfl
  | notifyChanged index subindex => exact hone _ rfl
  | setError code bits data => exact hone _ rfl
  | clearError bits => exact hone _ rfl
  | clearAllErrors => exact hone _ rfl
  | odMut f => exact hone _ rfl
  | nextEvent => exact hone _ rfl
  | nextHeartbeatEvent => exact hone _ rfl
  | takeResetEvent => exact hone _ rfl

theorem run_acts {m m' : Machine OD evt dirty} {calls : List (Call OD)}
    (h : m.run calls = some m') :
    m.acts (Runs.log Machine.call Machine.actions m calls) = some m' := by
  induction calls generalizing m with
  | nil => exact h
  | cons c calls ih =>
    obtain ⟨m₁, h₁, h₂⟩ := Runs.run_cons.mp h
    rw [Runs.log, h₁]
    exact Runs.run_append_eq_some.mpr ⟨m₁, (call_acts m c).symm.trans h₁, ih h₂⟩

/-! ## Actions are steps -/

section Steps

variable {allowed : (OD → OD) → Prop}

theorem finishStages_steps (m : Machine OD evt dirty) (nowUs : UInt64) :
    Steps allowed m (m.finishStages nowUs) := by
  unfold Machine.finishStages
  refine .head (.retry nowUs) (.head (.deadlines nowUs) ?_)
  refine (quiet_steps (sendHeartbeat_quiet _ nowUs)).trans ?_
  refine (quiet_steps (checkHeartbeats_quiet _ nowUs)).trans ?_
  refine (quiet_steps (sendEmcy_quiet _)).trans ?_
  exact .head (.pollTpdo nowUs) (.single .clearDirty)

theorem act_steps {m m' : Machine OD evt dirty} {a : Action OD}
    (hstore : ∀ v, allowed (ObjectDictionary.storeErrorRegister · v))
    (hallowed : ∀ f h, a = .call (.odMut f) h → allowed f) (h : m.act a = some m') :
    Steps allowed m m' := by
  cases a with
  | boot nowUs answers =>
    cases h
    exact (answers_steps m answers).trans (boot_steps _ nowUs)
  | expire nowUs =>
    cases h
    apply Relation.ReflTransGen.head .latchSyncEvents
    apply onChannels_steps m.latchSyncEvents.state
    · intro m' i _
      exact beginPoll_steps nowUs i m'
    · rfl
  | frame nowUs frame => exact dispatchFrame_steps h
  | service nowUs =>
    cases h
    apply onChannels_steps m.state
    · intro m' i hm
      rw [← hm]
      exact service_steps nowUs i m'
    · rfl
  | produceSync nowUs =>
    cases h
    exact produceSync_steps m nowUs
  | finish nowUs =>
    rw [Machine.act_finish h]
    exact finishStages_steps m nowUs
  | call c hc => exact call_steps hstore (fun f hf => hallowed f (hf ▸ hc) (by subst hf; rfl)) h

theorem acts_inv {P : Machine OD evt dirty → Prop}
    (hstep : ∀ m m', P m → Step (fun _ => True) m m' → P m') {m m' : Machine OD evt dirty}
    {l : List (Action OD)} (h : m.acts l = some m') (hm : P m) : P m' := by
  induction l generalizing m with
  | nil =>
    cases h
    exact hm
  | cons a l ih =>
    obtain ⟨m₁, ha, hl⟩ := Runs.run_cons.mp h
    have hsteps : Steps (fun _ => True) m m₁ :=
      act_steps (fun _ => trivial) (fun _ _ _ => trivial) ha
    exact ih hl (steps_inv hstep hsteps hm)

end Steps

/-! ## Routes -/

/-- The service a received frame is for. -/
inductive Route
  | sdo (channel : ℕ)
  | sync
  | nmt
  | lss
  | monitor (i : ℕ) (monitor : HeartbeatMonitor)
  | rpdo
  deriving DecidableEq, Repr

def Node.route (n : Node OD evt dirty) (frame : CanFrame) : Route :=
  match n.extraChannel frame with
  | some i => .sdo i
  | none =>
    if n.sync.cobId = some frame.id then .sync
    else if frame.id = CobId.nmt then .nmt
    else if frame.id = CobId.sdoRx n.nodeId then .sdo 0
    else if frame.id = lssRequestCob then .lss
    else
      match n.monitorFor frame with
      | some (i, monitor) => .monitor i monitor
      | none => .rpdo

/-- What a node does with a frame, by its route. -/
def Machine.take (m : Machine OD evt dirty) (frame : CanFrame) (nowUs : UInt64) :
    Route → Option (Machine OD evt dirty)
  | .sdo i => m.handleSdoRequest i frame nowUs
  | .sync => some (m.syncFrame frame nowUs)
  | .nmt => m.nmtFrame frame
  | .lss => some (m.lssRequest frame)
  | .monitor i monitor => some (m.heartbeatFrame i monitor frame nowUs)
  | .rpdo => some (m.processRpdoFrame frame nowUs)

theorem dispatchFrame_eq (m : Machine OD evt dirty) (frame : CanFrame) (nowUs : UInt64) :
    m.dispatchFrame frame nowUs = m.take frame nowUs (m.node.route frame) := by
  unfold Machine.dispatchFrame Node.route
  cases m.node.extraChannel frame with
  | some i => rfl
  | none =>
    dsimp only
    split_ifs
    · rfl
    · rfl
    · rfl
    · rfl
    · cases m.node.monitorFor frame with
      | none => rfl
      | some p => rfl

omit [ObjectDictionary OD] in
theorem route_monitor {n : Node OD evt dirty} {frame : CanFrame} {i : ℕ}
    {monitor : HeartbeatMonitor} (h : n.route frame = .monitor i monitor) :
    n.monitorFor frame = some (i, monitor) := by
  unfold Node.route at h
  split at h
  · cases h
  · split_ifs at h
    split at h
    · next heq =>
      cases h
      exact heq
    · cases h

end Canopen
