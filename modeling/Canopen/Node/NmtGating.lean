import Canopen.Node.Trace

/-!
# NMT states gate traffic and dictionary changes

What a node may offer in each NMT state, and when received PDOs and SDO downloads
may reach the dictionary. The state can change between two frames of one batch, so
the rule is an invariant of every step: `GatingInv` adds that a node without SDO
service has no SDO work left and that the boot flag follows the state.
-/

namespace Canopen

open Pdo Sdo

variable {OD : Type} [ObjectDictionary OD] {evt dirty : ℕ}

/-- The frames a node may offer in a state. -/
def NmtState.allows : NmtState → FrameKind → Bool
  | .initializing, .bootUp => true
  | .initializing, .lss => true
  | .initializing, _ => false
  | .stopped, .heartbeat => true
  | .stopped, .lss => true
  | .stopped, _ => false
  | .preOperational, .syncTpdo => false
  | .preOperational, .eventTpdo _ _ => false
  | .preOperational, .bootUp => false
  | .preOperational, _ => true
  | .operational, .bootUp => false
  | .operational, _ => true

/-- Dictionary writes by received PDOs need Operational, by SDO downloads a state with
SDO service. -/
def NmtState.allowsWrite (state : NmtState) : WriteSource → Bool
  | .rpdo => state == .operational
  | .sdo _ => state.servesSdo

/-- An observation made in `state` that respects its rules. -/
def Permitted (state : NmtState) : Obs → Prop
  | .offer kind _ _ s => s = state ∧ state.allows kind = true
  | .odWrite source _ s => s = state ∧ state.allowsWrite source = true
  | .reset _ => False
  | _ => True

/-- A reset has taken effect and no boot-up frame has been offered since. -/
def bootPending (trace : List Obs) : Bool :=
  trace.foldl (fun p o => match o with
    | .reset _ => true
    | .offer .bootUp _ _ _ => false
    | _ => p) false

/-- Between a reset and the next boot-up frame only LSS replies are offered. -/
def BootOrder (trace : List Obs) : Prop :=
  ∀ pre kind frame result state post, trace = pre ++ .offer kind frame result state :: post →
    bootPending pre = true → kind = .bootUp ∨ kind = .lss

structure GatingInv (m : Machine OD evt dirty) : Prop where
  booted : m.node.booted = true ↔ m.state ≠ .initializing
  idle : m.state.servesSdo = false → ∀ ch ∈ m.node.sdo, ch.server.transfer = none ∧ ch.pending = none
  gated : ∀ o ∈ m.bus.trace, (∃ resetType, o = .reset resetType) ∨ ∃ state, Permitted state o
  pending : bootPending m.bus.trace = true → m.state = .initializing
  order : BootOrder m.bus.trace

/-! ## Extending the trace -/

theorem bootPending_append {trace obs : List Obs}
    (h : ∀ o ∈ obs, ∀ resetType, o ≠ .reset resetType)
    (hp : bootPending (trace ++ obs) = true) : bootPending trace = true := by
  induction obs using List.reverseRecOn with
  | nil => simpa using hp
  | append_singleton obs o ih =>
    have hrest := ih fun o' ho' => h o' (by simp [ho'])
    rw [← List.append_assoc] at hp
    unfold bootPending at hp hrest ⊢
    rw [List.foldl_concat] at hp
    cases o with
    | reset resetType => exact absurd rfl (h _ (by simp) resetType)
    | offer kind frame result state => cases kind <;> first | exact hrest hp | simp at hp
    | _ => exact hrest hp

/-- Appending observations keeps the order when every offer among them is a boot-up or
LSS frame, or no boot is pending. -/
theorem bootOrder_append {trace obs : List Obs} (h : BootOrder trace)
    (hobs : ∀ kind frame result state, .offer kind frame result state ∈ obs →
      (kind = .bootUp ∨ kind = .lss) ∨
        (bootPending trace = false ∧ ∀ o ∈ obs, ∀ resetType, o ≠ .reset resetType)) :
    BootOrder (trace ++ obs) := by
  intro pre kind frame result state post heq hpend
  rcases List.append_eq_append_iff.mp heq with ⟨as, rfl, hobs'⟩ | ⟨cs, htrace, hpost⟩
  · have hmem : Obs.offer kind frame result state ∈ obs := by simp [hobs']
    rcases hobs kind frame result state hmem with hk | ⟨hfree, hno⟩
    · exact hk
    · have hpre := bootPending_append (fun o ho => hno o (by simp [hobs', ho])) hpend
      rw [hfree] at hpre
      cases hpre
  · cases cs with
    | nil =>
      have hobs' : obs = .offer kind frame result state :: post := by simpa using hpost.symm
      rw [List.append_nil] at htrace
      subst htrace
      rcases hobs kind frame result state (by simp [hobs']) with hk | ⟨hfree, -⟩
      · exact hk
      · rw [hfree] at hpend
        cases hpend
    | cons c cs =>
      rw [List.cons_append, List.cons.injEq] at hpost
      obtain ⟨rfl, -⟩ := hpost
      exact h pre kind frame result state cs htrace hpend

theorem allows_initializing {kind : FrameKind} (h : NmtState.initializing.allows kind = true) :
    kind = .bootUp ∨ kind = .lss := by
  cases kind <;> simp_all [NmtState.allows]

theorem allows_serving {state : NmtState} {kind : FrameKind} (h : state.servesSdo = true)
    (hboot : kind ≠ .bootUp) (hsync : kind ≠ .syncTpdo)
    (hevent : ∀ slot application, kind ≠ .eventTpdo slot application) :
    state.allows kind = true := by
  cases state <;> cases kind <;> simp_all [NmtState.servesSdo, NmtState.allows]

omit [ObjectDictionary OD] in
/-- A step that keeps state, boot flag and channels, and records only what the state
permits, keeps the invariant. -/
theorem GatingInv.of_permitted {m m' : Machine OD evt dirty} (h : GatingInv m)
    (hstate : m'.state = m.state) (hbooted : m'.node.booted = m.node.booted)
    (hidle : m.state.servesSdo = false →
      ∀ ch ∈ m'.node.sdo, ch.server.transfer = none ∧ ch.pending = none)
    {obs : List Obs} (htrace : m'.bus.trace = m.bus.trace ++ obs)
    (hobs : ∀ o ∈ obs, Permitted m.state o) : GatingInv m' := by
  have hnoReset : ∀ o ∈ obs, ∀ resetType, o ≠ .reset resetType := by
    rintro o ho resetType rfl
    exact hobs _ ho
  constructor
  · rw [hbooted, hstate]
    exact h.booted
  · rw [hstate]
    exact hidle
  · intro o ho
    rw [htrace] at ho
    rcases List.mem_append.mp ho with ho | ho
    · exact h.gated o ho
    · exact .inr ⟨m.state, hobs o ho⟩
  · intro hp
    rw [htrace] at hp
    rw [hstate]
    exact h.pending (bootPending_append hnoReset hp)
  · rw [htrace]
    apply bootOrder_append h.order
    intro kind frame result state hmem
    obtain ⟨-, hallow⟩ := hobs _ hmem
    by_cases hp : bootPending m.bus.trace = true
    · rw [h.pending hp] at hallow
      exact .inl (allows_initializing hallow)
    · exact .inr ⟨by simpa using hp, hnoReset⟩

/-! ## The steps -/

omit [ObjectDictionary OD] in
theorem gatingInv_quiet {m m' : Machine OD evt dirty} (h : GatingInv m) (hq : Quiet m m') :
    GatingInv m' := by
  obtain ⟨obs, htrace, hobs⟩ := hq.trace
  have hstate : m'.state = m.state := by rw [Machine.state, Machine.state, hq.nmt]
  apply h.of_permitted hstate hq.booted (by rw [hq.sdo]; exact h.idle) htrace
  intro o ho
  obtain ⟨kind, frame, result, rfl, hkind⟩ := hobs o ho
  refine ⟨rfl, ?_⟩
  rcases hkind with rfl | ⟨rfl, hb⟩ | ⟨rfl, hb, hs⟩ | ⟨rfl, -, hs⟩
  · cases m.state <;> rfl
  · have hi := h.booted.mp hb
    cases hm : m.state <;> simp_all [NmtState.allows]
  · have hi := h.booted.mp hb
    cases hm : m.state <;> simp_all [NmtState.allows]
  · cases hm : m.state <;> simp_all [NmtState.allows, NmtState.servesSdo]

omit [ObjectDictionary OD] in
theorem gatingInv_boot {m : Machine OD evt dirty} (h : GatingInv m) (hb : m.node.booted = false)
    (nowUs : UInt64) : GatingInv (m.boot nowUs).1 := by
  have hinit : m.state = .initializing := by
    by_contra hne
    rw [h.booted.mpr hne] at hb
    cases hb
  have hallowed (frame : CanFrame) (result : TxResult) :
      Permitted m.state (.offer .bootUp frame result m.state) := ⟨rfl, by rw [hinit]; rfl⟩
  obtain ⟨heartbeat, frame, result, ⟨hnode, htrace⟩ | ⟨nmt, hserves, hnode, htrace⟩⟩ :=
    boot_cases hb nowUs
  · refine h.of_permitted (by rw [Machine.state, hnode]; rfl) (by rw [hnode]) ?_ htrace ?_
    · rw [hnode]
      exact h.idle
    · intro o ho
      rw [List.mem_singleton] at ho
      subst ho
      exact hallowed frame result
  · have hstate : (m.boot nowUs).1.state = nmt.state := by rw [Machine.state, hnode]
    constructor
    · rw [hstate, hnode]
      refine ⟨fun _ heq => ?_, fun _ => rfl⟩
      rw [heq] at hserves
      cases hserves
    · intro hno
      rw [hstate, hserves] at hno
      cases hno
    · intro o ho
      rw [htrace, List.mem_append] at ho
      rcases ho with ho | ho
      · exact h.gated o ho
      · simp only [List.mem_cons, List.not_mem_nil, or_false] at ho
        rcases ho with rfl | rfl
        · exact .inr ⟨m.state, hallowed frame result⟩
        · exact .inr ⟨m.state, trivial⟩
    · intro hp
      rw [htrace] at hp
      simp [bootPending] at hp
    · rw [htrace]
      apply bootOrder_append h.order
      intro kind f r s hmem
      simp only [List.mem_cons, Obs.offer.injEq, List.not_mem_nil, or_false, reduceCtorEq] at hmem
      exact .inl (.inl hmem.1)

omit [ObjectDictionary OD] in
theorem gatingInv_channel {m : Machine OD evt dirty} (h : GatingInv m) {i : ℕ}
    {ch ch' : SdoChannel} {b : Bus} (hch : m.node.sdo[i]? = some ch)
    (hs : ChannelStep m.state i ch m.bus ch' b) :
    GatingInv (⟨{ m.node with sdo := m.node.sdo.set i ch' }, b⟩ : Machine OD evt dirty) := by
  have hmem : ch ∈ m.node.sdo := List.mem_of_getElem? hch
  obtain ⟨obs, htrace, hobs⟩ := channelStep_trace hs
  refine h.of_permitted rfl rfl ?_ htrace ?_
  · intro hno c hc
    rcases List.mem_or_eq_of_mem_set hc with hc | rfl
    · exact h.idle hno c hc
    · exact channelStep_idle hs (h.idle hno ch hmem).1 (h.idle hno ch hmem).2
  · intro o ho
    rcases hobs o ho with ⟨frame, result, rfl, hpend⟩ | ⟨data, _, rfl⟩ | ⟨frame, reason, idle, rfl⟩
    · refine ⟨rfl, ?_⟩
      have hserves : m.state.servesSdo = true := by
        by_contra hno
        rw [(h.idle (by simpa using hno) ch hmem).2] at hpend
        cases hpend
      exact allows_serving hserves (by simp) (by simp) (by simp)
    · trivial
    · trivial

theorem requestObs_permitted {m : Machine OD evt dirty} (serves : m.state.servesSdo = true) (i : ℕ)
    (ch : SdoChannel) (request : SdoFrame) (nowUs : UInt64) :
    ∀ o ∈ m.requestObs i ch request nowUs, Permitted m.state o := by
  intro o ho
  rcases List.mem_append.mp ho with ho | ho
  · rcases List.mem_cons.mp ho with rfl | ho
    · trivial
    · split_ifs at ho
      · obtain ⟨frame, reason, idle, rfl⟩ := mem_discards ho
        trivial
      · cases ho
  · obtain ⟨w, -, rfl⟩ := List.mem_map.mp ho
    exact ⟨rfl, serves⟩

theorem gatingInv_request {m m' : Machine OD evt dirty} (h : GatingInv m) {i : ℕ}
    {ch : SdoChannel} {request : SdoFrame} {nowUs : UInt64} (serves : m.state.servesSdo = true)
    (hr : (m.answerRequest i ch request nowUs).1.resync
      (m.answerRequest i ch request nowUs).2 = some m') : GatingInv m' := by
  obtain ⟨hread, hbus⟩ := resync_reread hr
  have hstate : m'.state = m.state := congrArg NmtHandler.state hread.nmt
  have hhead := requestObs_permitted serves i ch request nowUs
  have hidle : m.state.servesSdo = false →
      ∀ ch ∈ m'.node.sdo, ch.server.transfer = none ∧ ch.pending = none := by
    intro hno
    rw [serves] at hno
    cases hno
  obtain ⟨ch', b', -, hb, ⟨-, -, rfl⟩ | ⟨data, -, hsend⟩⟩ := answerRequest_cases m i ch request nowUs
  · exact h.of_permitted hstate hread.booted hidle (by rw [hbus, hb]; rfl) hhead
  · have hstep : ChannelStep m.state i ((m.requestChannel ch request nowUs).queue data nowUs)
        ((m.bus.log (m.requestObs i ch request nowUs)).log [.sdoProduced i data nowUs]) _ _ :=
      .trySend _ _
    rw [← hsend] at hstep
    obtain ⟨obs, htrace, hobs⟩ := channelStep_trace hstep
    have hall : m'.bus.trace = m.bus.trace ++
        (m.requestObs i ch request nowUs ++ ([.sdoProduced i data nowUs] ++ obs)) := by
      rw [hbus, hb, htrace]
      simp [Bus.log]
    refine h.of_permitted hstate hread.booted hidle hall ?_
    · intro o ho
      simp only [List.mem_append, List.mem_singleton] at ho
      rcases ho with ho | rfl | ho
      · exact hhead o ho
      · trivial
      · rcases hobs o ho with ⟨frame, result, rfl, -⟩ | ⟨data, _, rfl⟩ | ⟨frame, reason, idle, rfl⟩
        · exact ⟨rfl, allows_serving serves (by simp) (by simp) (by simp)⟩
        · trivial
        · trivial

omit [ObjectDictionary OD] in
theorem idle_abort {sdo : List SdoChannel} :
    ∀ ch ∈ sdo.map SdoChannel.abort, ch.server.transfer = none ∧ ch.pending = none := by
  intro ch hch
  obtain ⟨c, -, rfl⟩ := List.mem_map.mp hch
  exact ⟨rfl, rfl⟩

omit [ObjectDictionary OD] in
theorem gatingInv_stateChanged {m : Machine OD evt dirty} (h : GatingInv m) {s : NmtState}
    (hnew : s ≠ .initializing) (hold : m.state ≠ .initializing) :
    GatingInv (m.stateChanged ⟨s⟩) := by
  have hobs : ∀ o ∈ m.stateChangedObs s, Permitted m.state o ∧
      ∀ kind frame result state, o ≠ .offer kind frame result state := by
    intro o ho
    rcases List.mem_cons.mp ho with rfl | ho
    · exact ⟨trivial, by simp⟩
    · split_ifs at ho
      · obtain ⟨i, frame, reason, idle, rfl⟩ := mem_abortObs ho
        exact ⟨trivial, by simp⟩
      · cases ho
  constructor
  · simp [h.booted.mpr hold, hnew]
  · intro hno
    rw [stateChanged_state] at hno
    rw [stateChanged_sdo, if_pos (by cases s <;> simp_all [NmtState.servesSdo])]
    exact idle_abort
  · intro o ho
    rw [stateChanged_trace] at ho
    rcases List.mem_append.mp ho with ho | ho
    · exact h.gated o ho
    · exact .inr ⟨m.state, (hobs o ho).1⟩
  · intro hp
    rw [stateChanged_trace] at hp
    refine absurd (h.pending (bootPending_append ?_ hp)) hold
    rintro o ho resetType rfl
    exact (hobs _ ho).1
  · rw [stateChanged_trace]
    apply bootOrder_append h.order
    intro kind frame result state hmem
    exact absurd rfl ((hobs _ hmem).2 kind frame result state)

theorem gatingInv_reset {m m' : Machine OD evt dirty} (h : GatingInv m) {resetType : ResetType}
    (hr : m.requestReset resetType = some m') : GatingInv m' := by
  have hdone := requestReset_done hr
  constructor
  · simp [hdone.booted, hdone.state]
  · intro _
    rw [hdone.sdo]
    exact idle_abort
  · intro o ho
    rw [hdone.trace] at ho
    simp only [List.mem_append, List.mem_singleton] at ho
    rcases ho with ho | ho | rfl
    · exact h.gated o ho
    · obtain ⟨i, frame, reason, idle, rfl⟩ := mem_abortObs ho
      exact .inr ⟨m.state, trivial⟩
    · exact .inl ⟨resetType, rfl⟩
  · intro _
    exact hdone.state
  · rw [hdone.trace]
    apply bootOrder_append h.order
    intro kind frame result state hmem
    rw [List.mem_append] at hmem
    rcases hmem with hmem | hmem
    · obtain ⟨i, f, reason, idle, heq⟩ := mem_abortObs hmem
      cases heq
    · simp at hmem

/-! ## PDO and application steps -/

section

omit [ObjectDictionary OD]

/-- A step outside the channels keeps the invariant when the state permits what it
records. -/
theorem GatingInv.of_sdo_eq {m m' : Machine OD evt dirty} (h : GatingInv m)
    (hstate : m'.state = m.state) (hbooted : m'.node.booted = m.node.booted)
    (hsdo : m'.node.sdo = m.node.sdo) {obs : List Obs}
    (htrace : m'.bus.trace = m.bus.trace ++ obs) (hobs : ∀ o ∈ obs, Permitted m.state o) :
    GatingInv m' :=
  h.of_permitted hstate hbooted (by rw [hsdo]; exact h.idle) htrace hobs

theorem latchObs_permitted (state : NmtState) (selected : TpdoSlot → Bool)
    (dirtySet : List (UInt16 × UInt8)) (slots : List TpdoSlot) :
    ∀ o ∈ latchObs selected dirtySet slots, Permitted state o := by
  intro o ho
  obtain ⟨i, addr, rfl⟩ := mem_latchObs ho
  trivial

theorem commitObs_permitted {state : NmtState} (operational : state = .operational)
    {obs : List Obs} (hobs : ∀ o ∈ obs, Permitted state o) (writes : List OdWrite) :
    ∀ o ∈ obs ++ writes.map fun w => .odWrite .rpdo w state, Permitted state o := by
  intro o ho
  rcases List.mem_append.mp ho with ho | ho
  · exact hobs o ho
  · obtain ⟨w, -, rfl⟩ := List.mem_map.mp ho
    exact ⟨rfl, by rw [operational]; rfl⟩

theorem gatingInv_retry {m : Machine OD evt dirty} (h : GatingInv m) (nowUs : UInt64) :
    GatingInv (m.retryPendingSyncTpdo nowUs) := by
  rcases retryPendingSyncTpdo_cases m nowUs with heq | heq | ⟨operational, last, heq⟩
  · rw [heq]
    exact h
  · rw [heq]
    exact h.of_sdo_eq rfl rfl rfl (List.append_nil _).symm (by simp)
  · rw [heq]
    obtain ⟨obs, htrace, hobs⟩ :=
      transmitAll_trace m.state .syncTpdo m.node.pendingSyncTpdo m.bus
    refine h.of_sdo_eq rfl rfl rfl htrace ?_
    intro o ho
    obtain ⟨frame, -, result, rfl⟩ := hobs o ho
    exact ⟨rfl, by rw [operational]; rfl⟩

theorem gatingInv_deadlines {m : Machine OD evt dirty} (h : GatingInv m) (nowUs : UInt64) :
    GatingInv (m.checkDeadlines nowUs) := by
  rcases checkDeadlines_cases m nowUs with ⟨-, queue, count, heq⟩ | ⟨-, heq⟩
  · rw [heq]
    refine h.of_sdo_eq rfl rfl rfl rfl ?_
    intro o ho
    obtain ⟨p, -, rfl⟩ := List.mem_map.mp ho
    trivial
  · rw [heq]
    exact h.of_sdo_eq rfl rfl rfl (List.append_nil _).symm (by simp)

theorem gatingInv_latchSyncEvents {m : Machine OD evt dirty} (h : GatingInv m) :
    GatingInv m.latchSyncEvents := by
  refine h.of_sdo_eq rfl rfl rfl rfl ?_
  exact latchObs_permitted _ _ _ _

theorem gatingInv_notifyChanged {m : Machine OD evt dirty} (h : GatingInv m) (index : UInt16)
    (subindex : UInt8) : GatingInv (m.notifyChanged index subindex) := by
  refine h.of_sdo_eq rfl rfl rfl rfl ?_
  intro o ho
  rcases List.mem_cons.mp ho with rfl | ho
  · trivial
  · exact latchObs_permitted _ _ _ _ o ho

end

theorem gatingInv_receiveRpdo {m : Machine OD evt dirty} (h : GatingInv m) (i : ℕ)
    (slot : RpdoSlot) (frame : CanFrame) (nowUs : UInt64) (operational : m.state = .operational) :
    GatingInv (m.receiveRpdo i slot frame nowUs) := by
  unfold Machine.receiveRpdo
  dsimp only
  split_ifs
  · exact h.of_sdo_eq rfl rfl rfl rfl (by simp)
  · refine h.of_sdo_eq rfl rfl rfl rfl ?_
    intro o ho
    rw [List.mem_singleton] at ho
    subst ho
    trivial
  · refine h.of_sdo_eq rfl rfl rfl rfl ?_
    apply commitObs_permitted operational
    intro o ho
    simp only [List.mem_cons, List.not_mem_nil, or_false] at ho
    rcases ho with rfl | rfl <;> trivial

theorem gatingInv_pulse {m : Machine OD evt dirty} (h : GatingInv m) (nowUs : UInt64)
    (operational : m.state = .operational) : GatingInv (m.applyPulse.sendPulse nowUs) := by
  have happlied : GatingInv m.applyPulse := by
    refine h.of_sdo_eq rfl rfl rfl rfl ?_
    apply commitObs_permitted operational
    intro o ho
    obtain ⟨i, slot, frame, rfl, -⟩ := mem_appliedObs ho
    trivial
  have hop : m.applyPulse.state = .operational := operational
  generalize m.applyPulse = m at happlied hop
  obtain ⟨obs, htrace, hobs⟩ := sendPulse_trace m nowUs
  refine happlied.of_sdo_eq rfl rfl rfl htrace ?_
  intro o ho
  rcases List.mem_append.mp ho with ho | ho
  · obtain ⟨i, slot, rfl, -⟩ := mem_sampledObs ho
    trivial
  · rcases List.mem_cons.mp ho with rfl | ho
    · trivial
    · obtain ⟨frame, -, result, rfl⟩ := hobs o ho
      exact ⟨rfl, by rw [hop]; rfl⟩

theorem gatingInv_pollTpdo {m : Machine OD evt dirty} (h : GatingInv m) (nowUs : UInt64) :
    GatingInv (m.pollTpdo nowUs) := by
  unfold Machine.pollTpdo
  split_ifs with operational
  · obtain ⟨obs, htrace, hobs⟩ := pollWith_trace m.node.od nowUs m.node.dirtySet m.state 0
      m.node.tpdo.slots (m.bus.log (latchObs TpdoSlot.isEventDriven m.node.dirtySet
        m.node.tpdo.slots))
    refine h.of_sdo_eq rfl rfl rfl (htrace.trans (List.append_assoc _ _ _)) ?_
    intro o ho
    rcases List.mem_append.mp ho with ho | ho
    · exact latchObs_permitted _ _ _ _ o ho
    · obtain ⟨k, slot, -, application, frame, result, rfl, -⟩ := hobs o ho
      exact ⟨rfl, by rw [operational]; rfl⟩
  · exact h

theorem gatingInv_odMut {m : Machine OD evt dirty} (h : GatingInv m) (f : OD → OD) :
    GatingInv (m.odMut f) := by
  refine h.of_sdo_eq rfl rfl rfl rfl ?_
  intro o ho
  obtain ⟨⟨slot, i⟩, -, ho⟩ := List.mem_flatMap.mp ho
  rcases List.mem_cons.mp ho with rfl | ho
  · trivial
  · split_ifs at ho
    · rw [List.mem_singleton] at ho
      subst ho
      trivial
    · cases ho

/-- Every step keeps the invariant. -/
theorem gatingInv_step {allowed : (OD → OD) → Prop} (m m' : Machine OD evt dirty)
    (h : GatingInv m) (hs : Step allowed m m') : GatingInv m' := by
  cases hs with
  | quiet hq => exact gatingInv_quiet h hq
  | boot nowUs hb => exact gatingInv_boot h hb nowUs
  | channel i hch hstep => exact gatingInv_channel h hch hstep
  | request i request nowUs hch serves free hr => exact gatingInv_request h serves hr
  | stateChanged s hnew hne hold => exact gatingInv_stateChanged h hnew hold
  | reset resetType hr => exact gatingInv_reset h hr
  | receiveRpdo i frame nowUs operational hslot =>
    exact gatingInv_receiveRpdo h i _ frame nowUs operational
  | pulse nowUs operational => exact gatingInv_pulse h nowUs operational
  | retry nowUs => exact gatingInv_retry h nowUs
  | deadlines nowUs => exact gatingInv_deadlines h nowUs
  | pollTpdo nowUs => exact gatingInv_pollTpdo h nowUs
  | latchSyncEvents => exact gatingInv_latchSyncEvents h
  | clearDirty => exact h.of_sdo_eq rfl rfl rfl (List.append_nil _).symm (by simp)
  | notifyChanged index subindex => exact gatingInv_notifyChanged h index subindex
  | odMut f _ => exact gatingInv_odMut h f
  | storeErrorRegister emcy _ => exact h.of_sdo_eq rfl rfl rfl (List.append_nil _).symm (by simp)

theorem gatingInv_start {config : NodeConfig} {od : OD} {n : Node OD evt dirty}
    (h : Node.new config od = some n) : GatingInv (Machine.start n) := by
  obtain ⟨od', hread⟩ := new_reread h
  have hstate : n.nmt = .new := hread.nmt
  have hbooted : n.booted = false := hread.booted
  constructor
  · simp [Machine.start, Machine.state, hstate, hbooted, NmtHandler.new]
  · intro _ ch hch
    have hmem : ch ∈ n.sdo := hch
    rw [hread.sdo] at hmem
    rcases List.mem_cons.mp hmem with rfl | hmem
    · exact ⟨rfl, rfl⟩
    · obtain ⟨s, -, rfl⟩ := List.mem_map.mp hmem
      exact ⟨rfl, rfl⟩
  · intro o ho
    cases ho
  · intro hp
    cases hp
  · intro pre kind frame result state post heq
    have hempty : [] = pre ++ Obs.offer kind frame result state :: post := heq
    simp at hempty

theorem handleSdoRequest_ignored {m : Machine OD evt dirty} (h : m.state.servesSdo = false) (i : ℕ)
    (frame : CanFrame) (nowUs : UInt64) : m.handleSdoRequest i frame nowUs = some m := by
  unfold Machine.handleSdoRequest
  cases m.node.sdo[i]? with
  | none => rfl
  | some ch => simp [h]

/-- While Initializing a frame on the NMT COB-ID changes nothing unless it is a Reset
Node command. -/
theorem dispatchFrame_initializing {m : Machine OD evt dirty} (hi : m.state = .initializing)
    {frame : CanFrame} (hid : frame.id = CobId.nmt)
    (hcmd : NmtCommand.fromByte (frame.data.getD 0 0) ≠ some .resetNode) (nowUs : UInt64) :
    m.dispatchFrame frame nowUs = some m := by
  unfold Machine.dispatchFrame
  cases m.node.extraChannel frame with
  | some i => exact handleSdoRequest_ignored (by rw [hi]; rfl) i frame nowUs
  | none =>
    have hsync : m.node.sync.cobId ≠ some frame.id := by
      unfold SyncConsumer.cobId
      rw [hid]
      split_ifs with hcob
      · simp
      · simpa [CobId.nmt] using hcob
    dsimp only
    rw [if_neg hsync, if_pos hid]
    unfold Machine.nmtFrame
    split_ifs
    · cases hc : NmtCommand.fromByte (frame.data.getD 0 0) with
      | none => rfl
      | some cmd =>
        have hne : cmd ≠ .resetNode := by
          rintro rfl
          exact hcmd hc
        unfold Machine.nmtCommand
        dsimp only
        rw [NmtHandler.processCommand_initializing hi hne]
    · rfl

/-- In every run the NMT state decides what a node offers and when received data may
reach its dictionary; after a reset nothing but LSS replies precedes the boot-up
frame; a processing call changes the dictionary only by the writes it records; and
while Initializing only a Reset Node command has an effect. -/
theorem nmt_gates_traffic {config : NodeConfig} {od : OD} {n : Node OD evt dirty}
    (hn : Node.new config od = some n) {m : Machine OD evt dirty} (hm : Visited n m) :
    (∀ kind frame result state, .offer kind frame result state ∈ m.bus.trace →
      (state = .stopped → kind = .heartbeat ∨ kind = .lss) ∧
      ((kind = .syncTpdo ∨ ∃ slot application, kind = .eventTpdo slot application) →
        state = .operational) ∧
      ((kind = .emcy ∨ ∃ i, kind = .sdo i) → state = .preOperational ∨ state = .operational)) ∧
    BootOrder m.bus.trace ∧
    (∀ source w state, .odWrite source w state ∈ m.bus.trace →
      (source = .rpdo → state = .operational) ∧
      ∀ i, source = .sdo i → state = .preOperational ∨ state = .operational) ∧
    (∀ nowUs rx answers m', m.call (.process nowUs rx answers) = some m' → Replayed m m') ∧
    (m.state = .initializing → ∀ frame nowUs, frame.id = CobId.nmt →
      NmtCommand.fromByte (frame.data.getD 0 0) ≠ some .resetNode →
      m.dispatchFrame frame nowUs = some m) := by
  have hinv : GatingInv m := visited_inv gatingInv_step hm (gatingInv_start hn)
  have hpermitted (o : Obs) (ho : o ∈ m.bus.trace) (hno : ∀ resetType, o ≠ .reset resetType) :
      ∃ state, Permitted state o := by
    rcases hinv.gated o ho with ⟨resetType, rfl⟩ | h
    · exact absurd rfl (hno resetType)
    · exact h
  refine ⟨?_, hinv.order, ?_, ?_, ?_⟩
  · intro kind frame result state ho
    obtain ⟨s, rfl, hallow⟩ := hpermitted _ ho (by simp)
    refine ⟨?_, ?_, ?_⟩
    · rintro rfl
      cases kind <;> simp_all [NmtState.allows]
    · intro hkind
      cases state <;> rcases hkind with rfl | ⟨slot, application, rfl⟩ <;>
        simp_all [NmtState.allows]
    · intro hkind
      cases state <;> rcases hkind with rfl | ⟨i, rfl⟩ <;> simp_all [NmtState.allows]
  · intro source w state ho
    obtain ⟨s, rfl, hallow⟩ := hpermitted _ ho (by simp)
    constructor
    · rintro rfl
      simpa [NmtState.allowsWrite] using hallow
    · rintro i rfl
      cases state <;> simp_all [NmtState.allowsWrite, NmtState.servesSdo]
  · intro nowUs rx answers m' h
    obtain ⟨obs, htrace, hod⟩ := process_replayed h
    exact ⟨obs, htrace, hod⟩
  · intro hi frame nowUs hid hcmd
    exact dispatchFrame_initializing hi hid hcmd nowUs

/-- Start, a received PDO and Stop in one batch, then Reset followed by an ignored
Start, then the boot-up frame. -/
def stopResetCalls : List (Call Derive.GeneratedOd) :=
  [.process 0 [] [],
    .process 1000 [.literal 0x000 [0x01, 5], .literal 0x205 [7, 8],
      .literal 0x000 [0x02, 5]] [],
    .process 2000 [.literal 0x000 [0x81, 0],
      .literal 0x000 [0x01, 0]] [],
    .process 3000 [] []]

theorem nmt_gates_traffic_stop_reset :
    ∃ m, sampleRun stopResetCalls = some m ∧
      .odWrite .rpdo ⟨0x6040, 0, [7, 8], true⟩ .operational ∈ m.bus.trace ∧
      BootOrder m.bus.trace := by
  have hany : (sampleRun stopResetCalls).any (fun m =>
      m.bus.trace.contains (.odWrite .rpdo ⟨0x6040, 0, [7, 8], true⟩ .operational)) = true := by
    decide
  obtain ⟨n, m, hn, hr, hm, hp⟩ := sampleRun_of_any hany
  exact ⟨m, hm, by simpa using hp, (nmt_gates_traffic hn (.between hr)).2.1⟩

end Canopen
