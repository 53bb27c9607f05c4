import Canopen.Heartbeat
import Canopen.Lib.History

/-!
# Heartbeat events

The events of a monitor (`heartbeat.rs`) tell what its level state shows. The trace is
replayed from the start, and the edges are related to the last valid frame of the
monitored node and the checks made since then.
-/

namespace Canopen

/-- A call on a monitor: a received heartbeat frame, or a check for the time-out. -/
inductive HeartbeatInput
  | frame (node : NodeId) (stateByte : UInt8) (nowUs : UInt64)
  | check (nowUs : UInt64)
  deriving DecidableEq, Repr

def HeartbeatInput.time : HeartbeatInput → UInt64
  | .frame _ _ nowUs => nowUs
  | .check nowUs => nowUs

/-- What a monitor shows: nothing received yet, or the last reported state of a node that
is alive or timed out. -/
inductive HeartbeatLevel
  | waiting
  | reported (alive : Bool) (state : NmtState)
  deriving DecidableEq, Repr

def HeartbeatMonitorState.level : HeartbeatMonitorState → HeartbeatLevel
  | .disabled | .waiting => .waiting
  | .alive nmtState _ => .reported true nmtState
  | .timeout lastNmtState _ _ => .reported false lastNmtState

namespace HeartbeatEvent

def isStarted : HeartbeatEvent → Bool
  | .started _ _ => true
  | _ => false

def isTimeout : HeartbeatEvent → Bool
  | .timeout _ => true
  | _ => false

def isRecovered : HeartbeatEvent → Bool
  | .recovered _ _ => true
  | _ => false

def isRemoteReset : HeartbeatEvent → Bool
  | .remoteReset _ => true
  | _ => false

end HeartbeatEvent

namespace HeartbeatLevel

def timedOut : HeartbeatLevel → Bool
  | .reported false _ => true
  | _ => false

def replay (level : HeartbeatLevel) : HeartbeatEvent → HeartbeatLevel
  | .started _ state | .recovered _ state => .reported true state
  | .stateChanged _ _ new =>
    match level with
    | .waiting => .waiting
    | .reported alive _ => .reported alive new
  | .timeout _ =>
    match level with
    | .waiting => .waiting
    | .reported _ state => .reported false state
  | .remoteReset _ => level

/-- An event that leads from one level to another and comes in its place: Started first
of all, Timeout of an alive node, Recovered of a timed-out one. -/
structure Leads (level : HeartbeatLevel) (e : HeartbeatEvent) (level' : HeartbeatLevel) : Prop where
  replay : level.replay e = level'
  reported : level' ≠ .waiting
  started : e.isStarted = true ↔ level = .waiting
  timeout : e.isTimeout = true → level.timedOut = false ∧ level'.timedOut = true
  recovered : level.timedOut = true → level'.timedOut = false → e.isRecovered = true

variable {node : NodeId} {state old : NmtState}

theorem leads_started : Leads .waiting (.started node state) (.reported true state) := by
  constructor <;> simp [HeartbeatLevel.replay, HeartbeatEvent.isStarted, HeartbeatEvent.isTimeout,
    timedOut]

theorem leads_stateChanged : Leads (.reported true old) (.stateChanged node old state)
    (.reported true state) := by
  constructor <;> simp [HeartbeatLevel.replay, HeartbeatEvent.isStarted, HeartbeatEvent.isTimeout,
    timedOut]

theorem leads_timeout : Leads (.reported true state) (.timeout node) (.reported false state) := by
  constructor <;> simp [HeartbeatLevel.replay, HeartbeatEvent.isStarted, timedOut]

theorem leads_recovered : Leads (.reported false old) (.recovered node state)
    (.reported true state) := by
  constructor <;> simp [HeartbeatLevel.replay, HeartbeatEvent.isStarted, HeartbeatEvent.isTimeout,
    HeartbeatEvent.isRecovered]

theorem leads_remoteReset : Leads (.reported true state) (.remoteReset node)
    (.reported true state) := by
  constructor <;> simp [HeartbeatLevel.replay, HeartbeatEvent.isStarted, HeartbeatEvent.isTimeout,
    timedOut]

end HeartbeatLevel

/-- The last valid frame of the monitored node: what it reported, when, and the checks
made since then. -/
structure LastReport where
  state : NmtState
  time : UInt64
  checks : List UInt64
  deriving DecidableEq, Repr

def LastReport.checked (l : LastReport) (nowUs : UInt64) : LastReport :=
  { l with checks := l.checks ++ [nowUs] }

def HeartbeatInput.report (node : NodeId) : HeartbeatInput → Option NmtState
  | .frame sender stateByte _ =>
    if sender = node then NmtState.fromHeartbeatByte stateByte else none
  | .check _ => none

def LastReport.next (node : NodeId) (last : Option LastReport) (input : HeartbeatInput) :
    Option LastReport :=
  match input.report node with
  | some state => some ⟨state, input.time, []⟩
  | none =>
    match input with
    | .frame _ _ _ => last
    | .check nowUs => last.map (·.checked nowUs)

def LastReport.of (node : NodeId) (inputs : List HeartbeatInput) : Option LastReport :=
  inputs.foldl (LastReport.next node) none

/-- A time more than the consumer time after the last valid frame. -/
def LastReport.Overdue (last : LastReport) (timeoutMs : UInt16) (nowUs : UInt64) : Prop :=
  last.time.toNat + timeoutMs.toNat * 1000 < nowUs.toNat

namespace HeartbeatMonitor

def step (m : HeartbeatMonitor) : HeartbeatInput → HeartbeatMonitor × List HeartbeatEvent
  | .frame node stateByte nowUs => m.process node stateByte nowUs
  | .check nowUs => ((m.checkTimeout nowUs).1, (m.checkTimeout nowUs).2.toList)

def after (m : HeartbeatMonitor) (inputs : List HeartbeatInput) : HeartbeatMonitor :=
  inputs.foldl (fun m input => (m.step input).1) m

/-- The events of a sequence of calls, in order. -/
def events (m : HeartbeatMonitor) : List HeartbeatInput → List HeartbeatEvent
  | [] => []
  | input :: inputs => (m.step input).2 ++ events (m.step input).1 inputs

/-- What a call on a monitor does. -/
inductive Acts (m : HeartbeatMonitor) :
    HeartbeatInput → HeartbeatMonitor × List HeartbeatEvent → Prop
  | ignored {node : NodeId} {stateByte : UInt8} {nowUs : UInt64}
    (h : (HeartbeatInput.frame node stateByte nowUs).report m.nodeId = none) :
    Acts m (.frame node stateByte nowUs) (m, [])
  | report {node : NodeId} {stateByte : UInt8} {nowUs : UInt64} {state : NmtState}
    (h : (HeartbeatInput.frame node stateByte nowUs).report m.nodeId = some state) :
    Acts m (.frame node stateByte nowUs) ({ m with state := .alive state nowUs }, m.reported state)
  | kept {nowUs : UInt64} (h : ∀ state t, m.state = .alive state t →
      m.timeoutMs = 0 ∨ nowUs - t ≤ m.timeoutMs.toUInt64 * 1000) : Acts m (.check nowUs) (m, [])
  | expired {nowUs t : UInt64} {state : NmtState} (h : m.state = .alive state t)
    (hms : m.timeoutMs ≠ 0) (ht : m.timeoutMs.toUInt64 * 1000 < nowUs - t) :
    Acts m (.check nowUs) ({ m with state := .timeout state t nowUs }, [.timeout m.nodeId])

theorem step_acts (m : HeartbeatMonitor) (input : HeartbeatInput) : Acts m input (m.step input) := by
  cases input with
  | frame node stateByte nowUs =>
    change Acts m _ (m.process node stateByte nowUs)
    unfold process
    by_cases hnode : node = m.nodeId
    · rw [if_neg (not_not.mpr hnode)]
      cases hbyte : NmtState.fromHeartbeatByte stateByte with
      | none => exact .ignored (by rw [HeartbeatInput.report, if_pos hnode, hbyte])
      | some state => exact .report (by rw [HeartbeatInput.report, if_pos hnode, hbyte])
    · rw [if_pos hnode]
      exact .ignored (if_neg hnode)
  | check nowUs =>
    change Acts m _ ((m.checkTimeout nowUs).1, (m.checkTimeout nowUs).2.toList)
    unfold checkTimeout
    split
    · next state t hstate =>
      split_ifs with hlate
      · exact .expired hstate hlate.1 hlate.2
      · refine .kept fun state' t' hstate' => ?_
        cases hstate.symm.trans hstate'
        rw [not_and_or, not_not, UInt64.not_lt] at hlate
        exact hlate
    · next hother =>
      exact .kept fun state t hstate => absurd hstate (hother state t)

/-! ## The trace tells the level -/

/-- A Timeout comes when none has been reported since the last Recovered. -/
def Fresh (past : List HeartbeatEvent) (e : HeartbeatEvent) : Prop :=
  e.isTimeout = true → ∀ e' ∈ past, e'.isTimeout = false

/-- The trace so far tells what the monitor shows. -/
structure Told (trace : List HeartbeatEvent) (m : HeartbeatMonitor) : Prop where
  level : trace.foldl HeartbeatLevel.replay .waiting = m.state.level
  silent : m.state.level = .waiting → trace = []
  started : trace = [] ∨ ∃ e rest, trace = e :: rest ∧ e.isStarted = true ∧
    ∀ e' ∈ rest, e'.isStarted = false
  fresh : History.Supported HeartbeatEvent.isRecovered Fresh [] trace
  /-- A node that is not timed out has recovered from its last time-out. -/
  settled : m.state.level.timedOut = false →
    ∀ e ∈ History.since HeartbeatEvent.isRecovered trace, e.isTimeout = false

theorem told_new (node : NodeId) (timeoutMs : UInt16) : Told [] (new node timeoutMs) where
  level := rfl
  silent _ := rfl
  started := .inl rfl
  fresh := trivial
  settled _ e he := by cases he

variable {m : HeartbeatMonitor} {trace : List HeartbeatEvent} {input : HeartbeatInput}

/-- One more event in its place. -/
theorem Told.push (h : Told trace m) {e : HeartbeatEvent} {m' : HeartbeatMonitor}
    (he : m.state.level.Leads e m'.state.level) : Told (trace ++ [e]) m' where
  level := by
    rw [List.foldl_append, h.level]
    exact he.replay
  silent hwaiting := absurd hwaiting he.reported
  started := by
    right
    rcases h.started with rfl | ⟨e', rest, rfl, he', hrest⟩
    · exact ⟨e, [], rfl, he.started.mpr h.level.symm, by simp⟩
    · have hno : e.isStarted = false := by
        rw [← Bool.not_eq_true, he.started]
        intro hwaiting
        exact absurd (h.silent hwaiting) (List.cons_ne_nil _ _)
      refine ⟨e', rest ++ [e], rfl, he', ?_⟩
      intro e'' he''
      rcases List.mem_append.mp he'' with hold | hnew
      · exact hrest e'' hold
      · rw [List.mem_singleton.mp hnew]
        exact hno
  fresh := by
    refine History.supported_append h.fresh ⟨?_, trivial⟩
    intro htimeout
    exact h.settled (he.timeout htimeout).1
  settled hsettled := by
    by_cases hrec : e.isRecovered = true
    · rw [History.since_append_cut _ hrec (by simp)]
      simp
    · have hold : m.state.level.timedOut = false := by
        rw [← Bool.not_eq_true]
        intro hdead
        exact hrec (he.recovered hdead hsettled)
      have hno : e.isTimeout = false := by
        rw [← Bool.not_eq_true]
        intro htimeout
        rw [(he.timeout htimeout).2] at hsettled
        cases hsettled
      rw [History.since_append_of_not_cut _ (by simpa using hrec)]
      intro e' he'
      rcases List.mem_append.mp he' with hpast | hnew
      · exact h.settled hold e' hpast
      · rw [List.mem_singleton.mp hnew]
        exact hno

theorem Told.congr (h : Told trace m) {m' : HeartbeatMonitor}
    (hlevel : m'.state.level = m.state.level) : Told trace m' where
  level := h.level.trans hlevel.symm
  silent hwaiting := h.silent (hlevel.symm.trans hwaiting)
  started := h.started
  fresh := h.fresh
  settled hsettled := h.settled (by rw [← hlevel]; exact hsettled)

theorem Told.report (h : Told trace m) (state : NmtState) (nowUs : UInt64) :
    Told (trace ++ m.reported state) { m with state := .alive state nowUs } := by
  have htwo {e : HeartbeatEvent} (he : m.state.level.Leads e (.reported true state)) :
      Told (trace ++ e :: [.remoteReset m.nodeId]) { m with state := .alive state nowUs } := by
    have hone : Told (trace ++ [e]) { m with state := .alive state nowUs } := h.push he
    rw [List.append_cons]
    exact hone.push HeartbeatLevel.leads_remoteReset
  unfold reported
  cases hm : m.state with
  | disabled =>
    apply h.push
    rw [hm]
    exact HeartbeatLevel.leads_started
  | waiting =>
    apply h.push
    rw [hm]
    exact HeartbeatLevel.leads_started
  | alive old t =>
    have he : m.state.level.Leads (.stateChanged m.nodeId old state) (.reported true state) := by
      rw [hm]
      exact HeartbeatLevel.leads_stateChanged
    dsimp only
    split_ifs with hne hinit
    · exact htwo he
    · exact h.push he
    · rw [List.append_nil]
      apply h.congr
      rw [hm, not_not.mp hne]
      rfl
  | timeout last t t' =>
    have he : m.state.level.Leads (.recovered m.nodeId state) (.reported true state) := by
      rw [hm]
      exact HeartbeatLevel.leads_recovered
    dsimp only
    split_ifs with hinit
    · exact htwo he
    · exact h.push he

theorem Told.step (h : Told trace m) (input : HeartbeatInput) :
    Told (trace ++ (m.step input).2) (m.step input).1 := by
  have hacts := m.step_acts input
  generalize m.step input = r at hacts ⊢
  cases hacts with
  | ignored hreport =>
    rw [List.append_nil]
    exact h
  | kept hkept =>
    rw [List.append_nil]
    exact h
  | report hreport => exact h.report _ _
  | expired hstate hms ht =>
    apply h.push
    rw [hstate]
    exact HeartbeatLevel.leads_timeout

theorem Told.after (h : Told trace m) (inputs : List HeartbeatInput) :
    Told (trace ++ m.events inputs) (m.after inputs) := by
  induction inputs generalizing m trace with
  | nil =>
    rw [events, List.append_nil]
    exact h
  | cons input inputs ih =>
    rw [events, ← List.append_assoc]
    exact ih (h.step input)

theorem Told.between (h : Told trace m) {before between rest : List HeartbeatEvent}
    {e e' : HeartbeatEvent} (htrace : trace = before ++ e :: (between ++ e' :: rest))
    (he : e.isTimeout = true) (he' : e'.isTimeout = true) :
    ∃ r ∈ between, r.isRecovered = true := by
  by_contra hnone
  have hcut : ∀ r ∈ e :: between, r.isRecovered = false := by
    intro r hr
    rcases List.mem_cons.mp hr with rfl | hr
    · cases r with
      | timeout node => rfl
      | started | stateChanged | remoteReset | recovered => cases he
    · rw [← Bool.not_eq_true]
      exact fun hrec => hnone ⟨r, hr, hrec⟩
  have hfresh := h.fresh
  rw [htrace, ← List.cons_append, ← List.append_assoc] at hfresh
  have hsince := hfresh.at he' e
  rw [← History.since, History.since_append_of_not_cut _ hcut, he] at hsince
  cases hsince (List.mem_append_right _ List.mem_cons_self)

/-! ## The edges -/

variable {node : NodeId} {timeoutMs : UInt16} {last : Option LastReport}

theorem overdue_iff {l : LastReport} {nowUs : UInt64} (hle : l.time ≤ nowUs) :
    timeoutMs.toUInt64 * 1000 < nowUs - l.time ↔ l.Overdue timeoutMs nowUs := by
  have hms : (timeoutMs.toUInt64 * 1000).toNat = timeoutMs.toNat * 1000 := by
    have hlt := timeoutMs.toNat_lt
    rw [UInt64.toNat_mul, UInt16.toNat_toUInt64]
    exact Nat.mod_eq_of_lt (by simp only [UInt64.reduceToNat]; omega)
  have hnat := UInt64.le_iff_toNat_le.mp hle
  rw [UInt64.lt_iff_toNat_lt, UInt64.toNat_sub_of_le _ _ hle, hms, LastReport.Overdue]
  omega

/-- The state shows the last report: alive until a check finds it overdue. -/
def Shows (timeoutMs : UInt16) : Option LastReport → HeartbeatMonitorState → Prop
  | none, .waiting => True
  | some l, .alive state t =>
    l.state = state ∧ l.time = t ∧ ∀ c ∈ l.checks, ¬l.Overdue timeoutMs c
  | some l, .timeout state t _ =>
    l.state = state ∧ l.time = t ∧ ∃ c ∈ l.checks, l.Overdue timeoutMs c
  | _, _ => False

structure Watches (node : NodeId) (timeoutMs : UInt16) (last : Option LastReport)
    (m : HeartbeatMonitor) : Prop where
  node_eq : m.nodeId = node
  timeout_eq : m.timeoutMs = timeoutMs
  shows : Shows timeoutMs last m.state

theorem Watches.step (h : Watches node timeoutMs last m) (hms : timeoutMs ≠ 0)
    {input : HeartbeatInput} (hle : ∀ l, last = some l → l.time ≤ input.time) :
    Watches node timeoutMs (LastReport.next node last input) (m.step input).1 := by
  obtain ⟨hnode, htimeout, hshows⟩ := h
  have hacts := m.step_acts input
  generalize m.step input = r at hacts ⊢
  cases hacts with
  | ignored hreport =>
    rw [hnode] at hreport
    rw [LastReport.next, hreport]
    exact ⟨hnode, htimeout, hshows⟩
  | report hreport =>
    rw [hnode] at hreport
    rw [LastReport.next, hreport]
    exact ⟨hnode, htimeout, rfl, rfl, by simp⟩
  | @kept nowUs hkept =>
    refine ⟨hnode, htimeout, ?_⟩
    cases last with
    | none => exact hshows
    | some l =>
      change Shows timeoutMs (some (l.checked nowUs)) m.state
      cases hm : m.state with
      | disabled => rw [hm] at hshows; exact hshows
      | waiting => rw [hm] at hshows; exact hshows
      | alive state t =>
        rw [hm] at hshows
        obtain ⟨hstate, rfl, hchecks⟩ := hshows
        refine ⟨hstate, rfl, ?_⟩
        intro c hc
        rcases List.mem_append.mp hc with hold | hnew
        · exact hchecks c hold
        · have hnot := (hkept state l.time hm).resolve_left (by rw [htimeout]; exact hms)
          rw [htimeout, ← UInt64.not_lt] at hnot
          rw [List.mem_singleton.mp hnew]
          exact fun hover => hnot ((overdue_iff (hle l rfl)).mpr hover)
      | timeout state t t' =>
        rw [hm] at hshows
        obtain ⟨hstate, htime, c, hc, hover⟩ := hshows
        exact ⟨hstate, htime, c, List.mem_append_left _ hc, hover⟩
  | @expired nowUs t state hm _ hlate =>
    refine ⟨hnode, htimeout, ?_⟩
    cases last with
    | none =>
      rw [hm] at hshows
      exact hshows
    | some l =>
      rw [hm] at hshows
      obtain ⟨hstate, rfl, -⟩ := hshows
      rw [htimeout] at hlate
      exact ⟨hstate, rfl, nowUs, List.mem_append_right _ List.mem_cons_self,
        (overdue_iff (hle l rfl)).mp hlate⟩

theorem of_concat (node : NodeId) (inputs : List HeartbeatInput) (input : HeartbeatInput) :
    LastReport.of node (inputs ++ [input]) =
      LastReport.next node (LastReport.of node inputs) input := by
  unfold LastReport.of
  rw [List.foldl_append]
  rfl

/-- The last report came with one of the calls. -/
theorem of_time_mem {inputs : List HeartbeatInput} {l : LastReport}
    (h : LastReport.of node inputs = some l) : l.time ∈ inputs.map HeartbeatInput.time := by
  induction inputs using List.reverseRecOn generalizing l with
  | nil => cases h
  | append_singleton inputs input ih =>
    rw [of_concat] at h
    unfold LastReport.next at h
    rw [List.map_append, List.mem_append]
    split at h
    · cases h
      exact .inr List.mem_cons_self
    · cases input with
      | frame sender stateByte nowUs => exact .inl (ih h)
      | check nowUs =>
        obtain ⟨l', hl', rfl⟩ := Option.map_eq_some_iff.mp h
        have hmem := ih hl'
        exact .inl hmem

theorem watches_after (node : NodeId) {timeoutMs : UInt16} (hms : timeoutMs ≠ 0)
    {inputs : List HeartbeatInput} (htimes : (inputs.map HeartbeatInput.time).Pairwise (· ≤ ·)) :
    Watches node timeoutMs (LastReport.of node inputs) ((new node timeoutMs).after inputs) := by
  induction inputs using List.reverseRecOn with
  | nil => exact ⟨rfl, rfl, trivial⟩
  | append_singleton inputs input ih =>
    rw [List.map_append, List.pairwise_append] at htimes
    have hle : ∀ l, LastReport.of node inputs = some l → l.time ≤ input.time := fun l hl =>
      htimes.2.2 l.time (of_time_mem hl) input.time List.mem_cons_self
    have hstep := (ih htimes.1).step hms hle
    rw [of_concat, after, List.foldl_append]
    exact hstep

theorem reported_no_timeout (m : HeartbeatMonitor) (state : NmtState) :
    (m.reported state).any HeartbeatEvent.isTimeout = false := by
  unfold reported
  split
  · rfl
  · rfl
  · split_ifs <;> rfl
  · split_ifs <;> rfl

/-- Timeout comes with the first check that finds the last report overdue. -/
theorem Watches.timeout_iff (h : Watches node timeoutMs last m) (hms : timeoutMs ≠ 0)
    {input : HeartbeatInput} (hle : ∀ l, last = some l → l.time ≤ input.time) :
    (m.step input).2.any HeartbeatEvent.isTimeout = true ↔
      ∃ nowUs l, input = .check nowUs ∧ last = some l ∧ l.Overdue timeoutMs nowUs ∧
        ∀ c ∈ l.checks, ¬l.Overdue timeoutMs c := by
  have hacts := m.step_acts input
  generalize m.step input = r at hacts ⊢
  have hshows := h.shows
  cases hacts with
  | ignored hreport =>
    constructor
    · intro hany
      cases hany
    · rintro ⟨nowUs, l, hcheck, -⟩
      cases hcheck
  | report hreport =>
    rw [reported_no_timeout]
    constructor
    · intro hany
      cases hany
    · rintro ⟨nowUs, l, hcheck, -⟩
      cases hcheck
  | @kept nowUs hkept =>
    constructor
    · intro hany
      cases hany
    · rintro ⟨_, l, hcheck, rfl, hover, hchecks⟩
      cases hcheck
      cases hm : m.state with
      | disabled =>
        rw [hm] at hshows
        cases hshows
      | waiting =>
        rw [hm] at hshows
        cases hshows
      | alive state t =>
        rw [hm] at hshows
        obtain ⟨-, rfl, -⟩ := hshows
        have hnot := (hkept state l.time hm).resolve_left (by rw [h.timeout_eq]; exact hms)
        rw [h.timeout_eq, ← UInt64.not_lt] at hnot
        exact absurd ((overdue_iff (hle l rfl)).mpr hover) hnot
      | timeout state t t' =>
        rw [hm] at hshows
        obtain ⟨-, -, c, hc, hlate⟩ := hshows
        exact absurd hlate (hchecks c hc)
  | @expired nowUs t state hm _ hlate =>
    refine ⟨fun _ => ?_, fun _ => rfl⟩
    rw [hm] at hshows
    cases last with
    | none => cases hshows
    | some l =>
      obtain ⟨-, rfl, hchecks⟩ := hshows
      rw [h.timeout_eq] at hlate
      exact ⟨nowUs, l, rfl, rfl, (overdue_iff (hle l rfl)).mp hlate, hchecks⟩

/-- RemoteReset comes with a boot-up frame after a report of another state. -/
theorem Watches.remoteReset_iff (h : Watches node timeoutMs last m) (input : HeartbeatInput) :
    (m.step input).2.any HeartbeatEvent.isRemoteReset = true ↔
      input.report node = some .initializing ∧ ∃ l, last = some l ∧ l.state ≠ .initializing := by
  have hacts := m.step_acts input
  generalize m.step input = r at hacts ⊢
  have hshows := h.shows
  cases hacts with
  | ignored hreport =>
    rw [h.node_eq] at hreport
    rw [hreport]
    simp
  | kept hkept => simp [HeartbeatInput.report]
  | expired hm => simp [HeartbeatInput.report, HeartbeatEvent.isRemoteReset]
  | @report _ _ _ state hreport =>
    rw [h.node_eq] at hreport
    rw [hreport, Option.some_inj]
    unfold reported
    cases hm : m.state with
    | disabled =>
      rw [hm] at hshows
      cases last <;> cases hshows
    | waiting =>
      rw [hm] at hshows
      cases last with
      | none => simp [HeartbeatEvent.isRemoteReset]
      | some l => cases hshows
    | alive old t =>
      rw [hm] at hshows
      cases last with
      | none => cases hshows
      | some l =>
        obtain ⟨rfl, -⟩ := hshows
        dsimp only
        split_ifs with hne hinit
        · exact ⟨fun _ => ⟨hinit, l, rfl, fun hold => hne (hinit.trans hold.symm)⟩, fun _ => rfl⟩
        · exact ⟨fun hany => (by cases hany), fun hboot => absurd hboot.1 hinit⟩
        · refine ⟨fun hany => (by cases hany), ?_⟩
          rintro ⟨hboot, _, hl, hold⟩
          cases hl
          exact absurd ((not_not.mp hne).symm.trans hboot) hold
    | timeout old t t' =>
      rw [hm] at hshows
      cases last with
      | none => cases hshows
      | some l =>
        obtain ⟨rfl, -⟩ := hshows
        dsimp only
        split_ifs with hinit
        · exact ⟨fun _ => ⟨hinit.1, l, rfl, hinit.2⟩, fun _ => rfl⟩
        · refine ⟨fun hany => (by cases hany), ?_⟩
          rintro ⟨hboot, _, hl, hold⟩
          cases hl
          exact absurd ⟨hboot, hold⟩ hinit

theorem step_ignored (m : HeartbeatMonitor) {sender : NodeId} {stateByte : UInt8} {nowUs : UInt64}
    (h : (HeartbeatInput.frame sender stateByte nowUs).report m.nodeId = none) :
    m.step (.frame sender stateByte nowUs) = (m, []) := by
  have hacts := m.step_acts (.frame sender stateByte nowUs)
  generalize m.step (.frame sender stateByte nowUs) = r at hacts ⊢
  cases hacts with
  | ignored => rfl
  | report hreport =>
    rw [h] at hreport
    cases hreport

/-- The buffer of a call holds two events. -/
theorem length_step_le (m : HeartbeatMonitor) (input : HeartbeatInput) :
    (m.step input).2.length ≤ 2 := by
  have hacts := m.step_acts input
  generalize m.step input = r at hacts ⊢
  cases hacts with
  | ignored => exact Nat.zero_le 2
  | kept => exact Nat.zero_le 2
  | expired => exact Nat.le_succ 1
  | report =>
    unfold reported
    split
    · exact Nat.le_succ 1
    · exact Nat.le_succ 1
    · split_ifs <;> simp
    · split_ifs <;> simp

/-- The events of a monitor and its level state tell the same story, and every edge comes
exactly when the frames and checks so far call for it. -/
theorem events_tell_state (node : NodeId) {timeoutMs : UInt16} (hms : timeoutMs ≠ 0)
    (inputs : List HeartbeatInput) (input : HeartbeatInput)
    (htimes : ((inputs ++ [input]).map HeartbeatInput.time).Pairwise (· ≤ ·)) :
    let m := (new node timeoutMs).after inputs
    let trace := (new node timeoutMs).events inputs
    let last := LastReport.of node inputs
    let events := (m.step input).2
    trace.foldl HeartbeatLevel.replay .waiting = m.state.level ∧
    (trace = [] ∨ ∃ e rest, trace = e :: rest ∧ e.isStarted = true ∧
      ∀ e' ∈ rest, e'.isStarted = false) ∧
    (∀ before e between e' rest, trace = before ++ e :: (between ++ e' :: rest) →
      e.isTimeout = true → e'.isTimeout = true → ∃ r ∈ between, r.isRecovered = true) ∧
    (events.any HeartbeatEvent.isTimeout = true ↔
      ∃ nowUs l, input = .check nowUs ∧ last = some l ∧ l.Overdue timeoutMs nowUs ∧
        ∀ c ∈ l.checks, ¬l.Overdue timeoutMs c) ∧
    (events.any HeartbeatEvent.isRemoteReset = true ↔
      input.report node = some .initializing ∧ ∃ l, last = some l ∧ l.state ≠ .initializing) ∧
    (∀ sender stateByte nowUs, input = .frame sender stateByte nowUs → input.report node = none →
      m.step input = (m, [])) ∧
    events.length ≤ 2 := by
  have htold := (told_new node timeoutMs).after inputs
  rw [List.map_append, List.pairwise_append] at htimes
  have hwatches := watches_after node hms htimes.1
  have hle : ∀ l, LastReport.of node inputs = some l → l.time ≤ input.time := fun l hl =>
    htimes.2.2 l.time (of_time_mem hl) input.time List.mem_cons_self
  rw [List.nil_append] at htold
  refine ⟨htold.level, htold.started, ?_, hwatches.timeout_iff hms hle,
    hwatches.remoteReset_iff input, ?_, length_step_le _ input⟩
  · intro before e between e' rest htrace he he'
    exact htold.between htrace he he'
  · rintro sender stateByte nowUs rfl hreport
    rw [← hwatches.node_eq] at hreport
    exact step_ignored _ hreport

/-- A node is timed out and then announces its boot. -/
theorem events_tell_state_reset :
    (((new ⟨5, by decide, by decide⟩ 200).after
      [.frame ⟨5, by decide, by decide⟩ 0x05 1000000, .check 1300000]).step
        (.frame ⟨5, by decide, by decide⟩ 0x00 1400000)).2.any
          HeartbeatEvent.isRemoteReset = true :=
  (events_tell_state ⟨5, by decide, by decide⟩ (by decide)
    [.frame ⟨5, by decide, by decide⟩ 0x05 1000000, .check 1300000]
    (.frame ⟨5, by decide, by decide⟩ 0x00 1400000) (by decide)).2.2.2.2.1.mpr
      ⟨rfl, ⟨.operational, 1000000, [1300000]⟩, rfl, by decide⟩

end HeartbeatMonitor
end Canopen
