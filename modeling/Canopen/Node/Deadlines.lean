import Canopen.Lib.Watchdog
import Canopen.Node.Accounting
import Canopen.Node.PdoIdle
import Canopen.Node.RpdoReception

/-!
# Deadlines of receive PDOs

The deadline of a receive PDO is a watchdog: an acceptable frame feeds it, the transmit
stage checks it, and leaving Operational stops it. A newly expired deadline is reported as
an event if the PDO has a number that can be reported; the level flag can be queried at
any time.
-/

namespace Canopen

open Derive Pdo Sdo

variable {OD : Type} [ObjectDictionary OD] {evt dirty : ℕ}

namespace Pdo

/-- A padding slot: nothing about it was declared. -/
def RpdoConfig.isPlaceholder (config : RpdoConfig) : Bool :=
  config.odNumber == 0 && config.cobId == 0 && !config.enabled && config.mappings.isEmpty

/-- A monitored PDO without fresh data. -/
def RpdoSlot.deadlineExpired (slot : RpdoSlot) : Bool :=
  slot.config.enabled && 0 < slot.config.deadlineMs && (!slot.armed || slot.expired)

namespace RpdoEngine

/-- The first declared slot with the given PDO number. -/
def slotForNumber (e : RpdoEngine) (number : UInt16) : Option ℕ :=
  e.slots.zipIdx.findSome? fun (slot, i) =>
    if !slot.config.isPlaceholder && pdoNumberForSlot slot.config.odNumber i == number then some i
    else none

def deadlineExpiredSlot (e : RpdoEngine) (i : ℕ) : Bool := e.slots[i]?.any (·.deadlineExpired)

def deadlineExpired (e : RpdoEngine) (number : UInt16) : Bool :=
  (e.slotForNumber number).any e.deadlineExpiredSlot

end RpdoEngine

/-- The deadline in microseconds, if the PDO is monitored. -/
def RpdoSlot.deadlineUs (slot : RpdoSlot) : Option UInt64 :=
  if slot.config.enabled && slot.config.deadlineMs != 0 then
    some (slot.config.deadlineMs.toUInt64 * 1000)
  else none

def RpdoRuntime.watch (r : RpdoRuntime) : Watchdog.State UInt64 :=
  ⟨if r.armed then some r.lastRxUs else none, r.expired⟩

def RpdoSlot.watch (slot : RpdoSlot) : Watchdog.State UInt64 := slot.runtime.watch

end Pdo

def Node.rpdoDeadlineExpired (n : Node OD evt dirty) (number : UInt16) : Bool :=
  n.rpdo.deadlineExpired number

/-- More than the deadline has elapsed since the last reception. -/
def elapsedOver (deadlineUs lastRxUs nowUs : UInt64) : Bool := deadlineUs < nowUs - lastRxUs

def deadlineEvent (i : ℕ) (config : RpdoConfig) : Option OdEvent :=
  (RpdoEngine.reportedNumber i config).map fun number => ⟨0x1400 + (number - 1), 0, .rpdoDeadline⟩

namespace Machine

/-- The check of receive PDO `i` in the transmit stage. -/
def deadlineCheck (i : ℕ) (m : Machine OD evt dirty) :
    Action OD → List (Watchdog.Token UInt64 UInt64)
  | .finish nowUs =>
    if m.state = .operational then
      [.checked (m.node.rpdo.slots[i]?.bind RpdoSlot.deadlineUs) nowUs
        ((m.observed (.finish nowUs)).contains (.deadlineExpired i))]
    else []
  | _ => []

/-- What happens to the watchdog of receive PDO `i`: an acceptable frame is received, the
deadline is checked, or the node is not Operational afterwards. -/
def watchTokens (i : ℕ) (m : Machine OD evt dirty) (a : Action OD) :
    List (Watchdog.Token UInt64 UInt64) :=
  (if (m.received a).any (·.1 == i) then [.fed (a.nowUs.getD 0)] else []) ++ m.deadlineCheck i a ++
    if (m.act a).any (·.state != .operational) then [.stopped] else []

end Machine

/-! ## The check -/

/-- A stage that leaves receive PDOs and dictionary events alone. -/
structure EventsKept (m m' : Machine OD evt dirty) : Prop where
  rpdo : m'.node.rpdo = m.node.rpdo
  events : m'.node.eventQueue = m.node.eventQueue
  trace : ∃ obs, m'.bus.trace = m.bus.trace ++ obs ∧ ∀ o ∈ obs, o.isSilent = true

section Check

variable {m m' : Machine OD evt dirty} {nowUs : UInt64}

omit [ObjectDictionary OD] in
theorem EventsKept.trans {m'' : Machine OD evt dirty} (h : EventsKept m m') (h' : EventsKept m' m'') :
    EventsKept m m'' := by
  obtain ⟨obs, htrace, hobs⟩ := h.trace
  obtain ⟨obs', htrace', hobs'⟩ := h'.trace
  refine ⟨h'.rpdo.trans h.rpdo, h'.events.trans h.events, obs ++ obs', ?_, ?_⟩
  · rw [htrace', htrace, List.append_assoc]
  · intro o ho
    rcases List.mem_append.mp ho with ho | ho
    · exact hobs o ho
    · exact hobs' o ho

omit [ObjectDictionary OD] in
theorem eventsKept_of_silent (h : Silent m m') (hrpdo : m'.node.rpdo = m.node.rpdo) :
    EventsKept m m' :=
  ⟨hrpdo, congrArg Prod.fst h.1, h.2⟩

omit [ObjectDictionary OD] in
theorem checkHeartbeats_kept (m : Machine OD evt dirty) (nowUs : UInt64) :
    EventsKept m (m.checkHeartbeats nowUs) := by
  have hq := checkHeartbeats_quiet m nowUs
  obtain ⟨obs, htrace, hobs⟩ := hq.trace
  refine ⟨hq.rpdo, (pushHeartbeatEvents_queues _ _).1, obs, htrace, ?_⟩
  intro o ho
  obtain ⟨kind, frame, result, rfl, -⟩ := hobs o ho
  rfl

theorem pollTpdo_rpdo (m : Machine OD evt dirty) (nowUs : UInt64) :
    (m.pollTpdo nowUs).node.rpdo = m.node.rpdo := by
  unfold Machine.pollTpdo
  split_ifs <;> rfl

omit [ObjectDictionary OD] in
theorem checkDeadlines_queue (hop : m.state = .operational) (nowUs : UInt64) :
    (m.checkDeadlines nowUs).node.rpdo = m.node.rpdo.checkDeadlines nowUs ∧
    (m.checkDeadlines nowUs).node.eventQueue = m.node.eventQueue.pushAll
      ((m.node.rpdo.overdueSlots nowUs).filterMap fun p => deadlineEvent p.1 p.2) ∧
    (m.checkDeadlines nowUs).bus.trace =
      m.bus.trace ++ (m.node.rpdo.overdueSlots nowUs).map fun p => .deadlineExpired p.1 := by
  have hevents : (m.node.rpdo.overdueSlots nowUs).filterMap (fun p => deadlineEvent p.1 p.2) =
      ((m.node.rpdo.overdueSlots nowUs).filterMap fun p => RpdoEngine.reportedNumber p.1 p.2).map
        fun k => ⟨0x1400 + (k - 1), 0, .rpdoDeadline⟩ := by
    rw [List.map_filterMap]
    rfl
  obtain ⟨-, queue, count, heq⟩ | ⟨hne, -⟩ := checkDeadlines_cases m nowUs
  · refine ⟨by rw [heq], ?_, by rw [heq]; rfl⟩
    unfold Machine.checkDeadlines
    rw [if_pos hop]
    obtain ⟨hqueue, -⟩ := pushEvents_queues
      ({ m.node with rpdo := m.node.rpdo.checkDeadlines nowUs } : Node OD evt dirty)
      ((m.node.rpdo.overdueSlots nowUs).filterMap fun p => deadlineEvent p.1 p.2)
    rw [hevents, List.foldl_map] at hqueue
    rw [hevents]
    exact hqueue
  · exact absurd hop hne

/-- The transmit stage flags the newly overdue slots, records them, and reports those
with a number. -/
theorem finish_deadlines (hop : m.state = .operational) (nowUs : UInt64) :
    (m.finishStages nowUs).node.rpdo = m.node.rpdo.checkDeadlines nowUs ∧
    (m.finishStages nowUs).node.eventQueue = m.node.eventQueue.pushAll
      ((m.node.rpdo.overdueSlots nowUs).filterMap fun p => deadlineEvent p.1 p.2) ∧
    ∃ before after, m.observed (.finish nowUs) =
        before ++ ((m.node.rpdo.overdueSlots nowUs).map fun p => .deadlineExpired p.1) ++ after ∧
      ∀ o ∈ before ++ after, o.isSilent = true := by
  have ha : m.act (.finish nowUs) = some (m.finishStages nowUs) := rfl
  have hretry : EventsKept m (m.retryPendingSyncTpdo nowUs) := by
    apply eventsKept_of_silent (retryPendingSyncTpdo_silent m nowUs)
    rcases retryPendingSyncTpdo_cases m nowUs with heq | heq | ⟨-, last, heq⟩ <;> rw [heq]
  have hop₁ := (retryPendingSyncTpdo_state m nowUs).trans hop
  unfold Machine.finishStages at ha ⊢
  dsimp only at ha ⊢
  generalize m.retryPendingSyncTpdo nowUs = m₁ at hretry hop₁ ha ⊢
  obtain ⟨hrpdo, hevents, htrace⟩ := checkDeadlines_queue hop₁ nowUs
  generalize m₁.checkDeadlines nowUs = m₂ at hrpdo hevents htrace ha ⊢
  have hheartbeat := eventsKept_of_silent (sendHeartbeat_silent m₂ nowUs)
    (sendHeartbeat_quiet m₂ nowUs).rpdo
  have hchecked := hheartbeat.trans (checkHeartbeats_kept _ nowUs)
  have hemcy := hchecked.trans (eventsKept_of_silent (sendEmcy_silent _) (sendEmcy_quiet _).rpdo)
  generalize ((m₂.sendHeartbeat nowUs).checkHeartbeats nowUs).sendEmcy = m₃ at hemcy ha ⊢
  have hrest := hemcy.trans (eventsKept_of_silent (pollTpdo_silent m₃ nowUs) (pollTpdo_rpdo m₃ nowUs))
  generalize m₃.pollTpdo nowUs = m₄ at hrest ha ⊢
  rw [hretry.rpdo] at hrpdo hevents htrace
  rw [hretry.events] at hevents
  obtain ⟨before, hbefore, hsilent⟩ := hretry.trace
  obtain ⟨after, hafter, hsilent'⟩ := hrest.trace
  refine ⟨hrest.rpdo.trans hrpdo, hrest.events.trans hevents, before, after, ?_, ?_⟩
  · apply observed_eq ha
    change m₄.bus.trace = _
    rw [hafter, htrace, hbefore]
    simp only [List.append_assoc]
  · intro o ho
    rcases List.mem_append.mp ho with ho | ho
    · exact hsilent o ho
    · exact hsilent' o ho

theorem mem_overdueSlots {e : RpdoEngine} {i : ℕ} {config : RpdoConfig} :
    (i, config) ∈ e.overdueSlots nowUs ↔
      ∃ slot, e.slots[i]? = some slot ∧ slot.isOverdue nowUs = true ∧ slot.config = config := by
  unfold RpdoEngine.overdueSlots
  rw [List.mem_filterMap]
  constructor
  · rintro ⟨⟨slot, k⟩, hmem, hp⟩
    dsimp only at hp
    split_ifs at hp with hdue
    cases hp
    exact ⟨slot, List.mk_mem_zipIdx_iff_getElem?.mp hmem, hdue, rfl⟩
  · rintro ⟨slot, hi, hdue, rfl⟩
    exact ⟨(slot, i), List.mk_mem_zipIdx_iff_getElem?.mpr hi, if_pos hdue⟩

/-- A newly expired deadline is recorded. -/
theorem observed_expired {i : ℕ} {slot : RpdoSlot} (hop : m.state = .operational)
    (hi : m.node.rpdo.slots[i]? = some slot) :
    (m.observed (.finish nowUs)).contains (.deadlineExpired i) = slot.isOverdue nowUs := by
  obtain ⟨-, -, before, after, hobserved, hsilent⟩ := finish_deadlines hop nowUs
  have hnot : (.deadlineExpired i : Obs) ∉ before ++ after := by
    intro hmem
    cases hsilent _ hmem
  rw [List.mem_append, not_or] at hnot
  rw [hobserved, Bool.eq_iff_iff, List.contains_iff_mem, List.mem_append, List.mem_append]
  constructor
  · rintro ((hmem | hmem) | hmem)
    · exact absurd hmem hnot.1
    · obtain ⟨p, hp, heq⟩ := List.mem_map.mp hmem
      cases heq
      obtain ⟨slot', hi', hdue, -⟩ := mem_overdueSlots.mp hp
      cases hi.symm.trans hi'
      exact hdue
    · exact absurd hmem hnot.2
  · intro hdue
    exact .inl (.inr (List.mem_map.mpr
      ⟨(i, slot.config), mem_overdueSlots.mpr ⟨slot, hi, hdue, rfl⟩, rfl⟩))

theorem isOverdue_eq (slot : RpdoSlot) (nowUs : UInt64) :
    slot.isOverdue nowUs = slot.watch.expires elapsedOver slot.deadlineUs nowUs := by
  unfold RpdoSlot.isOverdue Watchdog.State.expires RpdoSlot.watch RpdoRuntime.watch
    RpdoSlot.deadlineUs RpdoSlot.runtime
  cases slot.config.enabled <;> cases slot.config.deadlineMs != 0 <;> cases slot.armed <;>
    cases slot.expired <;> simp [elapsedOver]

end Check

/-! ## Actions -/

section Act

variable {m m' : Machine OD evt dirty} {a : Action OD} {i : ℕ} {slot : RpdoSlot}

omit [ObjectDictionary OD] in
theorem slot_of_watches
    (h : m'.node.rpdo.slots.map RpdoSlot.watch = m.node.rpdo.slots.map RpdoSlot.watch)
    (hi : m.node.rpdo.slots[i]? = some slot) :
    ∃ slot', m'.node.rpdo.slots[i]? = some slot' ∧ slot'.watch = slot.watch := by
  have hget := congrArg (·[i]?) h
  simp only [List.getElem?_map, hi, Option.map_some] at hget
  exact Option.map_eq_some_iff.mp hget

omit [ObjectDictionary OD] in
theorem watches_of_runtime (h : m'.node.pdoRuntime.rpdo = m.node.pdoRuntime.rpdo) :
    m'.node.rpdo.slots.map RpdoSlot.watch = m.node.rpdo.slots.map RpdoSlot.watch := by
  have hwatches (m : Machine OD evt dirty) :
      m.node.rpdo.slots.map RpdoSlot.watch = m.node.pdoRuntime.rpdo.map RpdoRuntime.watch := by
    rw [Node.pdoRuntime, List.map_map]
    rfl
  rw [hwatches, hwatches, h]

omit [ObjectDictionary OD] in
theorem Discarded.get (h : Discarded m m') (hi : m.node.rpdo.slots[i]? = some slot) :
    ∃ slot', m'.node.rpdo.slots[i]? = some slot' := by
  have hlen : m'.node.pdoRuntime.rpdo.length = m.node.pdoRuntime.rpdo.length := by
    rcases h.runtime with heq | heq
    · rw [heq]
      exact List.length_map _
    · rw [heq]
      exact List.length_map _
  rw [Node.pdoRuntime, Node.pdoRuntime, List.length_map, List.length_map] at hlen
  have hlt := (List.getElem?_eq_some_iff.mp hi).1
  rw [← hlen] at hlt
  exact ⟨_, List.getElem?_eq_getElem hlt⟩

theorem onSync_watches {cap : ℕ} (slots : List RpdoSlot) (s : RpdoState OD cap) :
    (RpdoEngine.onSync slots s).1.map RpdoSlot.watch = slots.map RpdoSlot.watch := by
  induction slots generalizing s with
  | nil => rfl
  | cons slot slots ih =>
    rw [RpdoEngine.onSync, List.map_cons, ih]
    rfl

theorem receiveRpdo_fed {k : ℕ} {rpdo : RpdoSlot} {frame : CanFrame} (nowUs : UInt64)
    (h : rpdo.longEnough frame = true) : ∃ rpdo',
      (m.receiveRpdo k rpdo frame nowUs).node.rpdo.slots = m.node.rpdo.slots.set k rpdo' ∧
      rpdo'.watch = ⟨some nowUs, false⟩ := by
  unfold Machine.receiveRpdo
  dsimp only
  rw [h, if_neg (by simp)]
  split_ifs
  · exact ⟨_, rfl, rfl⟩
  · exact ⟨_, rfl, rfl⟩

omit [ObjectDictionary OD] in
theorem received_other (h : ∀ nowUs frame, a = .frame nowUs frame → m.rpdoSlot frame = none) :
    m.received a = [] := by
  cases a with
  | frame nowUs frame =>
    rw [Machine.received, h nowUs frame rfl]
  | _ => rfl

/-- Receive PDO `i` after what happened to its watchdog. Outside Operational the watchdog is
about to be stopped. -/
def Watched (m' : Machine OD evt dirty) (i : ℕ) (slot : RpdoSlot)
    (tokens : List (Watchdog.Token UInt64 UInt64)) : Prop :=
  ∃ slot' s, m'.node.rpdo.slots[i]? = some slot' ∧
    Watchdog.Law elapsedOver slot.watch tokens s ∧ (m'.state = .operational → slot'.watch = s)

theorem receive_watched {frame : CanFrame} {nowUs : UInt64} {k : ℕ} {rpdo : RpdoSlot}
    (hs : m.rpdoSlot frame = some (k, rpdo)) (hi : m.node.rpdo.slots[i]? = some slot) :
    Watched (m.receiveRpdo k rpdo frame nowUs) i slot
      (if (m.received (.frame nowUs frame)).any (·.1 == i) then [.fed nowUs] else []) := by
  have hreceived : m.received (.frame nowUs frame) =
      if rpdo.longEnough frame then [(k, frame)] else [] := by
    rw [Machine.received, hs]
  rw [hreceived]
  unfold Watched
  cases hlong : rpdo.longEnough frame with
  | false =>
    rw [receiveRpdo_short hlong]
    exact ⟨slot, slot.watch, hi, .nil, fun _ => rfl⟩
  | true =>
    obtain ⟨rpdo', hslots, hwatch⟩ := receiveRpdo_fed (m := m) (k := k) nowUs hlong
    rw [hslots]
    by_cases hki : k = i
    · subst hki
      have hlt := (List.getElem?_eq_some_iff.mp hi).1
      refine ⟨rpdo', _, List.getElem?_set_self hlt, ?_, fun _ => hwatch⟩
      rw [if_pos (by simp)]
      exact .fed .nil
    · refine ⟨slot, slot.watch, ?_, ?_, fun _ => rfl⟩
      · rw [List.getElem?_set_ne hki]
        exact hi
      · rw [if_neg (by simpa using hki)]
        exact .nil

omit [ObjectDictionary OD] in
theorem watched_of_watches
    (h : m'.node.rpdo.slots.map RpdoSlot.watch = m.node.rpdo.slots.map RpdoSlot.watch)
    (hi : m.node.rpdo.slots[i]? = some slot) : Watched m' i slot [] := by
  obtain ⟨slot', hi', hwatch⟩ := slot_of_watches h hi
  exact ⟨slot', slot.watch, hi', .nil, fun _ => hwatch⟩

omit [ObjectDictionary OD] in
theorem Discarded.watched (h : Discarded m m') (hi : m.node.rpdo.slots[i]? = some slot) :
    Watched m' i slot [] := by
  obtain ⟨slot', hi'⟩ := h.get hi
  exact ⟨slot', slot.watch, hi', .nil, fun hop => absurd hop h.state⟩

/-- The transmit stage checks the watchdog. -/
theorem finish_watched (hop : m.state = .operational) (nowUs : UInt64)
    (hi : m.node.rpdo.slots[i]? = some slot) :
    Watched (m.finishStages nowUs) i slot (m.deadlineCheck i (.finish nowUs)) := by
  have hslot : (m.finishStages nowUs).node.rpdo.slots[i]? =
      some (if slot.isOverdue nowUs then { slot with expired := true } else slot) := by
    rw [(finish_deadlines hop nowUs).1, RpdoEngine.checkDeadlines, List.getElem?_map, hi]
    rfl
  rw [Machine.deadlineCheck, if_pos hop, hi, Option.bind_some, observed_expired hop hi,
    isOverdue_eq]
  refine ⟨_, _, hslot, .checked .nil, fun _ => ?_⟩
  rw [← isOverdue_eq]
  cases slot.isOverdue nowUs with
  | true =>
    rw [if_pos rfl, Bool.or_true]
    rfl
  | false => simp

theorem act_watched (ha : m.act a = some m') (hi : m.node.rpdo.slots[i]? = some slot) :
    Watched m' i slot ((if (m.received a).any (·.1 == i) then [.fed (a.nowUs.getD 0)] else []) ++
      m.deadlineCheck i a) := by
  by_cases hframe : ∃ nowUs frame p, a = .frame nowUs frame ∧ m.rpdoSlot frame = some p
  · obtain ⟨nowUs, frame, ⟨k, rpdo⟩, rfl, hs⟩ := hframe
    have hcheck : m.deadlineCheck i (.frame nowUs frame) = [] := rfl
    obtain ⟨hact, -⟩ := rpdoSlot_act hs nowUs
    rw [hact] at ha
    cases ha
    rw [hcheck, List.append_nil]
    exact receive_watched hs hi
  · have hnone : m.received a = [] := by
      apply received_other
      intro nowUs frame heq
      cases hs : m.rpdoSlot frame with
      | none => rfl
      | some p => exact absurd ⟨nowUs, frame, p, heq, hs⟩ hframe
    have hcheck (hfinish : ∀ nowUs, a ≠ .finish nowUs) : m.deadlineCheck i a = [] := by
      cases a with
      | finish nowUs => exact absurd rfl (hfinish nowUs)
      | _ => rfl
    rw [hnone]
    change Watched m' i slot (m.deadlineCheck i a)
    cases act_pdo ha with
    | untouched _ _ _ hfinish hu =>
      rw [hcheck hfinish]
      exact watched_of_watches (watches_of_runtime (congrArg PdoRuntime.rpdo hu.runtime)) hi
    | discarded _ _ hfinish hd =>
      rw [hcheck hfinish]
      exact hd.watched hi
    | latch hu =>
      have hrpdo : m'.node.pdoRuntime.rpdo = m.node.pdoRuntime.rpdo := by
        rw [hu.runtime]
        rfl
      rw [hcheck nofun]
      exact watched_of_watches (watches_of_runtime hrpdo) hi
    | @receive nowUs frame k rpdo hs => exact absurd ⟨nowUs, frame, (k, rpdo), rfl, hs⟩ hframe
    | @pulse _ m₁ nowUs hpulse hop _ hq =>
      rw [hcheck (by rintro nowUs rfl; cases hpulse)]
      apply watched_of_watches (m := m) _ hi
      rw [← hq.rpdo]
      exact onSync_watches m₁.node.rpdo.slots m₁.rpdoState
    | @finish nowUs =>
      by_cases hop : m.state = .operational
      · exact finish_watched hop nowUs hi
      · rw [Machine.deadlineCheck, if_neg hop]
        exact (finishStages_discarded hop nowUs).watched hi
    | notified hn =>
      have hrpdo : m'.node.pdoRuntime.rpdo = m.node.pdoRuntime.rpdo := by rw [hn.runtime]
      rw [hcheck nofun]
      exact watched_of_watches (watches_of_runtime hrpdo) hi

theorem watch_act (hidle : m'.state ≠ .operational → m'.node.pdoRuntime.Idle)
    (ha : m.act a = some m') (hi : m.node.rpdo.slots[i]? = some slot) :
    ∃ slot', m'.node.rpdo.slots[i]? = some slot' ∧
      Watchdog.Law elapsedOver slot.watch (m.watchTokens i a) slot'.watch := by
  obtain ⟨slot', s, hi', hlaw, hwatch⟩ := act_watched ha hi
  refine ⟨slot', hi', ?_⟩
  rw [Machine.watchTokens, ha, Option.any_some]
  generalize (if (m.received a).any (·.1 == i) then [Watchdog.Token.fed (a.nowUs.getD 0)]
    else []) ++ m.deadlineCheck i a = inner at hlaw ⊢
  by_cases hop : m'.state = .operational
  · rw [hwatch hop, if_neg (by simp [hop]), List.append_nil]
    exact hlaw
  · have hmem : slot'.runtime ∈ m'.node.pdoRuntime.rpdo :=
      List.mem_map_of_mem (List.mem_of_getElem? hi')
    obtain ⟨harmed, hexpired⟩ := (hidle hop).unarmed _ hmem
    have hstart : slot'.watch = .start := by
      rw [RpdoSlot.watch, RpdoRuntime.watch, harmed, hexpired]
      rfl
    rw [hstart, if_pos (by simpa using hop)]
    exact .stopped hlaw

theorem watch_run {l : List (Action OD)}
    (h : GatingInv m ∧ (m.state ≠ .operational → m.node.pdoRuntime.Idle))
    (hl : m.acts l = some m') (hi : m.node.rpdo.slots[i]? = some slot) :
    ∃ slot', m'.node.rpdo.slots[i]? = some slot' ∧ Watchdog.Law elapsedOver slot.watch
      (Runs.log Machine.act (Machine.watchTokens i) m l) slot'.watch := by
  induction l generalizing m slot with
  | nil =>
    cases hl
    exact ⟨slot, hi, .nil⟩
  | cons a l ih =>
    obtain ⟨m₁, ha, hl⟩ := Runs.run_cons.mp hl
    have h₁ : GatingInv m₁ ∧ (m₁.state ≠ .operational → m₁.node.pdoRuntime.Idle) :=
      acts_inv idle_step (l := [a]) (Runs.run_cons.mpr ⟨m₁, ha, rfl⟩) h
    obtain ⟨slot₁, hi₁, hlaw⟩ := watch_act h₁.2 ha hi
    obtain ⟨slot', hi', hlaw'⟩ := ih h₁ hl hi₁
    rw [Runs.log, ha]
    exact ⟨slot', hi', hlaw.trans hlaw'⟩

theorem watch_start {config : NodeConfig} {od : OD} {n : Node OD evt dirty}
    (hn : Node.new config od = some n) (hi : i < config.rpdo.length) :
    ∃ slot, (Machine.start n).node.rpdo.slots[i]? = some slot ∧ slot.watch = .start := by
  have hruntime := congrArg (fun r => r.rpdo[i]?) (new_runtime hn)
  have hnew : (Node.initial config od : Node OD evt dirty).pdoRuntime.rpdo[i]? =
      some (RpdoSlot.new config.rpdo[i]).runtime := by
    simp [Node.pdoRuntime, Node.initial, RpdoEngine.new, hi]
  rw [hnew, Node.pdoRuntime, List.getElem?_map] at hruntime
  obtain ⟨slot, hslot, heq⟩ := Option.map_eq_some_iff.mp hruntime
  refine ⟨slot, hslot, ?_⟩
  rw [RpdoSlot.watch, heq]
  rfl

/-! ## Reports -/

def expiredSlots (obs : List Obs) : List ℕ :=
  obs.filterMap fun o =>
    match o with
    | .deadlineExpired i => some i
    | _ => none

theorem expiredSlots_silent {obs : List Obs} (h : ∀ o ∈ obs, o.isSilent = true) :
    expiredSlots obs = [] := by
  apply List.filterMap_eq_nil_iff.mpr
  intro o ho
  cases o with
  | deadlineExpired i => cases h _ ho
  | _ => rfl

omit [ObjectDictionary OD] in
theorem filterMap_sublist {α β γ : Type} {f : α → Option β} {g : β → γ} {h : α → γ}
    (hf : ∀ a b, f a = some b → g b = h a) (l : List α) :
    ((l.filterMap f).map g).Sublist (l.map h) := by
  induction l with
  | nil => exact List.nil_sublist _
  | cons a l ih =>
    cases hfa : f a with
    | none =>
      rw [List.filterMap_cons_none hfa, List.map_cons]
      exact ih.cons _
    | some b =>
      rw [List.filterMap_cons_some hfa, List.map_cons, List.map_cons, hf a b hfa]
      exact ih.cons_cons _

/-- Every newly expired deadline is found once. -/
theorem observed_slots (hop : m.state = .operational) (nowUs : UInt64) :
    expiredSlots (m.observed (.finish nowUs)) = (m.node.rpdo.overdueSlots nowUs).map Prod.fst ∧
    (expiredSlots (m.observed (.finish nowUs))).Nodup := by
  obtain ⟨-, -, before, after, hobserved, hsilent⟩ := finish_deadlines hop nowUs
  have hslots : expiredSlots (m.observed (.finish nowUs)) =
      (m.node.rpdo.overdueSlots nowUs).map Prod.fst := by
    have hbefore := expiredSlots_silent fun o ho => hsilent o (List.mem_append_left after ho)
    have hafter := expiredSlots_silent fun o ho => hsilent o (List.mem_append_right before ho)
    unfold expiredSlots at hbefore hafter ⊢
    rw [hobserved, List.filterMap_append, List.filterMap_append, hbefore, hafter,
      List.filterMap_map, List.append_nil, List.nil_append, ← List.filterMap_eq_map]
    rfl
  refine ⟨hslots, ?_⟩
  rw [hslots]
  have hnodup : (m.node.rpdo.slots.zipIdx.map Prod.snd).Nodup := by
    rw [List.zipIdx_map_snd]
    exact List.nodup_range'
  refine List.Nodup.sublist ?_ hnodup
  apply filterMap_sublist
  rintro ⟨slot, i⟩ p hp
  dsimp only at hp
  split_ifs at hp
  cases hp
  rfl

/-- The events of a check are those of the deadlines it finds expired, as far as the
PDO has a number that can be reported. -/
theorem finish_events (hop : m.state = .operational) (nowUs : UInt64) :
    (m.finishStages nowUs).node.eventQueue = m.node.eventQueue.pushAll
      ((expiredSlots (m.observed (.finish nowUs))).filterMap fun i =>
        m.node.rpdo.slots[i]?.bind fun slot => deadlineEvent i slot.config) := by
  rw [(finish_deadlines hop nowUs).2.1, (observed_slots hop nowUs).1, List.filterMap_map]
  congr 1
  apply List.filterMap_congr
  rintro ⟨i, config⟩ hmem
  obtain ⟨slot, hi, -, rfl⟩ := mem_overdueSlots.mp hmem
  simp [hi]

theorem deadlineExpired_iff (slot : RpdoSlot) : slot.deadlineExpired = true ↔
    slot.deadlineUs.isSome = true ∧ (slot.watch.last = none ∨ slot.watch.expired = true) := by
  have hpositive : (0 < slot.config.deadlineMs) = (slot.config.deadlineMs ≠ 0) := by
    rw [UInt16.lt_iff_toNat_lt, ne_eq, ← UInt16.toNat_inj]
    exact propext Nat.pos_iff_ne_zero
  unfold RpdoSlot.deadlineExpired RpdoSlot.deadlineUs RpdoSlot.watch RpdoRuntime.watch
    RpdoSlot.runtime
  cases slot.config.enabled <;> cases slot.armed <;> cases slot.expired <;> simp [hpositive]

omit [ObjectDictionary OD] in
theorem rpdoDeadlineExpired_eq {n : Node OD evt dirty} {number : UInt16}
    (hi : n.rpdo.slots[i]? = some slot) (hnumber : n.rpdo.slotForNumber number = some i) :
    n.rpdoDeadlineExpired number = slot.deadlineExpired := by
  rw [Node.rpdoDeadlineExpired, RpdoEngine.deadlineExpired, hnumber, Option.any_some,
    RpdoEngine.deadlineExpiredSlot, hi, Option.any_some]

/-- What a frame of receive PDO `i` does. -/
structure Reception (m : Machine OD evt dirty) (i : ℕ) (slot : RpdoSlot) (frame : CanFrame)
    (nowUs : UInt64) : Prop where
  taken : m.act (.frame nowUs frame) = some (m.receiveRpdo i slot frame nowUs)
  /-- A short frame is only counted. -/
  short : slot.longEnough frame = false → m.receiveRpdo i slot frame nowUs =
    { m with node := { m.node with rpdo := { m.node.rpdo with
      lengthErrors := Counter.saturatingAdd m.node.rpdo.lengthErrors 1 } } }
  /-- An event-driven PDO applies the leading mapped bytes. -/
  applied : slot.longEnough frame = true →
    rawIsSynchronous slot.config.transmissionType = false →
    (m.receiveRpdo i slot (slot.leading frame) nowUs).node =
      (m.receiveRpdo i slot frame nowUs).node
  /-- A synchronous one holds the frame until the pulse. -/
  held : slot.longEnough frame = true →
    rawIsSynchronous slot.config.transmissionType = true →
    (m.receiveRpdo i slot (slot.leading frame) nowUs).node =
      (m.receiveRpdo i slot frame nowUs).node.hold i (slot.leading frame)

/-- Reception and deadlines of receive PDOs. In every state a node can reach, a short
frame is only counted, a long one is as good as its leading mapped bytes, and each PDO
has a watchdog. What a check finds expired is reported if it has a number, and the level
flag tells that the PDO has not been received since Operational was entered, or not since
it last expired. -/
theorem rpdos_received_and_monitored {config : NodeConfig} {od : OD} {n : Node OD evt dirty}
    (hn : Node.new config od = some n) {l : List (Action OD)}
    (hl : (Machine.start n).acts l = some m) :
    (∀ frame nowUs i slot, m.rpdoSlot frame = some (i, slot) → Reception m i slot frame nowUs) ∧
    (∀ i slot frame b, m.node.rpdo.slots[i]? = some slot → slot.pending = some frame →
      slot.longEnough frame = true →
      (Machine.applyPulse ⟨m.node.hold i (slot.leading frame), b⟩).node = m.applyPulse.node) ∧
    (∀ i < config.rpdo.length, ∃ slot, m.node.rpdo.slots[i]? = some slot ∧
      Watchdog.Guaranteed elapsedOver
        (Runs.log Machine.act (Machine.watchTokens i) (Machine.start n) l) slot.watch ∧
      ∀ number, m.node.rpdo.slotForNumber number = some i →
        (m.node.rpdoDeadlineExpired number = true ↔ slot.deadlineUs.isSome = true ∧
          (Watchdog.lastFed (Runs.log Machine.act (Machine.watchTokens i) (Machine.start n) l) =
              none ∨
            Watchdog.Expired
              (Runs.log Machine.act (Machine.watchTokens i) (Machine.start n) l)))) ∧
    (m.state = .operational → ∀ nowUs,
      (expiredSlots (m.observed (.finish nowUs))).Nodup ∧
      (m.finishStages nowUs).node.eventQueue = m.node.eventQueue.pushAll
        ((expiredSlots (m.observed (.finish nowUs))).filterMap fun i =>
          m.node.rpdo.slots[i]?.bind fun slot => deadlineEvent i slot.config)) := by
  refine ⟨?_, ?_, ?_, ?_⟩
  · intro frame nowUs i slot hs
    obtain ⟨htaken, hi⟩ := rpdoSlot_act hs nowUs
    exact ⟨htaken, receiveRpdo_short, receiveRpdo_leading,
      fun hlong htype => receiveRpdo_hold hlong htype hi⟩
  · intro i slot frame b hi hpending hlong
    exact applyPulse_leading hi hpending hlong b
  · intro i hi
    obtain ⟨slot₀, hi₀, hstart⟩ := watch_start hn hi
    obtain ⟨slot, hslot, hlaw⟩ :=
      watch_run ⟨gatingInv_start hn, fun _ => idle_new hn⟩ hl hi₀
    rw [hstart] at hlaw
    have hguaranteed := hlaw.guaranteed
    refine ⟨slot, hslot, hguaranteed, ?_⟩
    intro number hnumber
    rw [rpdoDeadlineExpired_eq hslot hnumber, deadlineExpired_iff, hguaranteed.last,
      hguaranteed.expired]
  · intro hop nowUs
    exact ⟨(observed_slots hop nowUs).2, finish_events hop nowUs⟩

end Act

/-! ## Runs of the small device -/

/-- The sample drive with its control word monitored under the given PDO number. -/
def monitoredConfig (odNumber : UInt16) : NodeConfig :=
  { NodeConfig.fromOd sampleOd sampleNode with
    rpdo := [⟨odNumber, 0x205, 255, 1, [⟨0x6040, 0, 16⟩], true⟩] }

/-- The control word is received once. -/
def controlActions : List (Action GeneratedOd) :=
  startActions ++ [.frame 10 (.literal 0x205 [0x06, 0x00])]

def shortControl : CanFrame := .literal 0x205 [0x06]

/-- The counter of short frames is at its limit. -/
def saturated (m : Machine GeneratedOd 4 4) : Machine GeneratedOd 4 4 :=
  { m with node := { m.node with rpdo := { m.node.rpdo with lengthErrors := 0xFFFFFFFF } } }

/-- A deadline of PDO 600 expires without an event, and a counter at its limit does not
count. -/
theorem rpdo_deadline_unreported :
    (∃ n m, Node.new (monitoredConfig 600) sampleOd = some n ∧
      (Machine.start n : Machine GeneratedOd 4 4).acts controlActions = some m ∧
      m.state = .operational ∧
      m.watchTokens 0 (.finish 5000) = [.checked (some 1000) 5000 true] ∧
      (m.finishStages 5000).node.eventQueue = m.node.eventQueue ∧
      (m.finishStages 5000).node.eventOverflowCount = m.node.eventOverflowCount) ∧
    ∃ m m' slot, (m : Machine GeneratedOd 4 4).rpdoSlot shortControl = some (0, slot) ∧
      slot.longEnough shortControl = false ∧ m.act (.frame 20 shortControl) = some m' ∧
      m'.node.rpdo.lengthErrors = m.node.rpdo.lengthErrors := by
  have hany : ((Node.new (monitoredConfig 600) sampleOd : Option (Node GeneratedOd 4 4)).bind
      fun n => ((Machine.start n).acts controlActions).map fun m => (n, m)).any (fun (_, m) =>
        m.state == .operational &&
        m.watchTokens 0 (.finish 5000) == [.checked (some 1000) 5000 true] &&
        (m.finishStages 5000).node.eventQueue == m.node.eventQueue &&
        (m.finishStages 5000).node.eventOverflowCount == m.node.eventOverflowCount &&
        ((saturated m).rpdoSlot shortControl).any (fun p =>
          p.1 == 0 && !p.2.longEnough shortControl)) = true := by
    decide
  obtain ⟨⟨n, m⟩, hrun, hp⟩ := (Option.any_eq_true _ _).mp hany
  obtain ⟨_, hn, hrun⟩ := Option.bind_eq_some_iff.mp hrun
  obtain ⟨_, hm, heq⟩ := Option.map_eq_some_iff.mp hrun
  cases heq
  simp only [Bool.and_eq_true, beq_iff_eq] at hp
  obtain ⟨⟨⟨⟨hop, htokens⟩, hqueue⟩, hcount⟩, hslot⟩ := hp
  obtain ⟨⟨k, slot⟩, hs, hshort⟩ := (Option.any_eq_true _ _).mp hslot
  simp only [Bool.and_eq_true, beq_iff_eq, Bool.not_eq_true'] at hshort
  obtain ⟨rfl, hshort⟩ := hshort
  refine ⟨⟨n, m, hn, hm, hop, htokens, hqueue, hcount⟩, _, _, slot, hs, hshort,
    (rpdoSlot_act hs 20).1, ?_⟩
  rw [receiveRpdo_short hshort]
  rfl

theorem rpdos_monitored_once : ∃ m : Machine GeneratedOd 4 4,
    m.node.rpdoDeadlineExpired 1 = true ∧ ∃ (n : Node GeneratedOd 4 4)
        (slot : RpdoSlot), Watchdog.Guaranteed elapsedOver (Runs.log Machine.act
        (Machine.watchTokens 0) (Machine.start n) (controlActions ++ [.finish 5000])) slot.watch ∧
      m.node.rpdo.slots[0]? = some slot := by
  have hany : ((Node.new (monitoredConfig 1) sampleOd : Option (Node GeneratedOd 4 4)).bind
      fun n => ((Machine.start n).acts (controlActions ++ [.finish 5000])).map fun m =>
        (n, m)).any (fun (_, m) => m.node.rpdoDeadlineExpired 1) = true := by
    decide
  obtain ⟨⟨n, m⟩, hrun, hp⟩ := (Option.any_eq_true _ _).mp hany
  obtain ⟨_, hn, hrun⟩ := Option.bind_eq_some_iff.mp hrun
  obtain ⟨_, hm, heq⟩ := Option.map_eq_some_iff.mp hrun
  cases heq
  obtain ⟨slot, hslot, hguaranteed, -⟩ :=
    (rpdos_received_and_monitored hn hm).2.2.1 0 (by decide)
  exact ⟨m, hp, n, slot, hguaranteed, hslot⟩

end Canopen
