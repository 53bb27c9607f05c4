import Canopen.Node.PdoRuntime

/-!
# One transmit PDO

What the actions of a node in Operational do to one transmit PDO whose configuration
does not change: `SlotAct` has one constructor for each kind of action, and `slot_act`
derives it once for all laws about single PDOs.
-/

namespace Canopen

open Pdo Sdo

variable {OD : Type} [ObjectDictionary OD] {evt dirty : ℕ}

/-- A frame offered as event-driven PDO `i`, and whether the transport took it. -/
def Obs.eventOffer (i : ℕ) : Obs → Option (CanFrame × Bool)
  | .offer (.eventTpdo k _) frame result _ => if k = i then some (frame, result == .accepted) else none
  | _ => none

/-- The offers of event-driven PDO `i`. -/
def eventOffers (i : ℕ) (obs : List Obs) : List (CanFrame × Bool) := obs.filterMap (Obs.eventOffer i)

/-- Poll one PDO when the transport is going to take its frame, or not. -/
def Pdo.TpdoSlot.polled (slot : TpdoSlot) (od : OD) (nowUs : UInt64)
    (dirtySet : List (UInt16 × UInt8)) (accepted : Bool) : TpdoSlot × List (CanFrame × Bool) :=
  if !slot.isEventDriven then (slot, [])
  else
    let slot := slot.latchDirty dirtySet
    if slot.isDue nowUs then
      match slot.buildPdoFrame od with
      | some frame => (if accepted then slot.sent nowUs else slot, [(frame, accepted)])
      | none => (slot, [])
    else (slot, [])

namespace Machine

def tpdoConfigs (m : Machine OD evt dirty) : List TpdoConfig :=
  m.node.tpdo.slots.map TpdoSlot.config

/-- The node is Operational afterwards, with the given configuration of its transmit
PDOs. -/
def steady (configs : List TpdoConfig) (m : Machine OD evt dirty) (a : Action OD) : Bool :=
  (m.act a).any fun m' => m'.state == .operational && m'.tpdoConfigs == configs

end Machine

/-! ## Offers -/

section Offers

variable {i k : ℕ}

theorem eventOffers_append (i : ℕ) (obs obs' : List Obs) :
    eventOffers i (obs ++ obs') = eventOffers i obs ++ eventOffers i obs' :=
  List.filterMap_append

theorem eventOffer_of_not_pdo {o : Obs} (h : o.ofPdo = false) (i : ℕ) : o.eventOffer i = none := by
  unfold Obs.eventOffer
  split
  · cases h
  · rfl

theorem eventOffers_of_not_pdo {obs : List Obs} (h : ∀ o ∈ obs, o.ofPdo = false) :
    eventOffers i obs = [] :=
  List.filterMap_eq_nil_iff.mpr fun o ho => eventOffer_of_not_pdo (h o ho) i

omit [ObjectDictionary OD] in
theorem latchDirty_kept (slot : TpdoSlot) (dirtySet : List (UInt16 × UInt8)) :
    (slot.latchDirty dirtySet).config = slot.config ∧
      (slot.latchDirty dirtySet).lastSendUs = slot.lastSendUs ∧
      (slot.latchDirty dirtySet).syncCounter = slot.syncCounter := by
  unfold TpdoSlot.latchDirty
  split_ifs
  · exact ⟨rfl, rfl, rfl⟩
  · exact ⟨rfl, rfl, rfl⟩

/-- A PDO that is not event-driven is not polled. An event-driven one latches its events,
and is offered if it is due and its frame can be built. -/
theorem polled_cases (slot : TpdoSlot) (od : OD) (nowUs : UInt64)
    (dirtySet : List (UInt16 × UInt8)) (accepted : Bool) :
    (slot.isEventDriven = false ∧ slot.polled od nowUs dirtySet accepted = (slot, [])) ∨
    (slot.isEventDriven = true ∧
      ((slot.latchDirty dirtySet).isDue nowUs = false ∨ slot.buildPdoFrame od = none) ∧
      slot.polled od nowUs dirtySet accepted = (slot.latchDirty dirtySet, [])) ∨
    (slot.isEventDriven = true ∧ (slot.latchDirty dirtySet).isDue nowUs = true ∧
      ∃ frame, slot.buildPdoFrame od = some frame ∧
        slot.polled od nowUs dirtySet accepted =
          (if accepted then (slot.latchDirty dirtySet).sent nowUs else slot.latchDirty dirtySet,
            [(frame, accepted)])) := by
  have hbuild : (slot.latchDirty dirtySet).buildPdoFrame od = slot.buildPdoFrame od := by
    rw [TpdoSlot.buildPdoFrame, (latchDirty_kept slot dirtySet).1, TpdoSlot.buildPdoFrame]
  unfold TpdoSlot.polled
  dsimp only
  cases slot.isEventDriven with
  | false => exact .inl ⟨rfl, rfl⟩
  | true =>
    refine .inr ?_
    rw [hbuild, if_neg (by simp)]
    cases (slot.latchDirty dirtySet).isDue nowUs with
    | false => exact .inl ⟨rfl, .inl rfl, rfl⟩
    | true =>
      cases slot.buildPdoFrame od with
      | none => exact .inl ⟨rfl, .inr rfl, rfl⟩
      | some frame => exact .inr ⟨rfl, rfl, frame, rfl, rfl⟩

theorem slotPollWith_polled (od : OD) (nowUs : UInt64) (dirtySet : List (UInt16 × UInt8))
    (state : NmtState) (i : ℕ) (slot : TpdoSlot) (b : Bus) :
    ∃ accepted, ∃ obs,
      (slot.pollWith od nowUs dirtySet (Machine.acceptTpdo state i) b).1 =
        (slot.polled od nowUs dirtySet accepted).1 ∧
      (slot.pollWith od nowUs dirtySet (Machine.acceptTpdo state i) b).2.trace = b.trace ++ obs ∧
      eventOffers i obs = (slot.polled od nowUs dirtySet accepted).2 ∧
      ∀ k, k ≠ i → eventOffers k obs = [] := by
  have hsilent : (∃ obs, b.trace = b.trace ++ obs ∧ eventOffers i obs = [] ∧
      ∀ k, k ≠ i → eventOffers k obs = []) :=
    ⟨[], (List.append_nil _).symm, rfl, fun _ _ => rfl⟩
  refine ⟨b.answers.headD .accepted == .accepted, ?_⟩
  unfold TpdoSlot.pollWith TpdoSlot.polled
  by_cases hdriven : (!slot.isEventDriven) = true
  · rw [if_pos hdriven, if_pos hdriven]
    obtain ⟨obs, hobs⟩ := hsilent
    exact ⟨obs, rfl, hobs⟩
  rw [if_neg hdriven, if_neg hdriven]
  dsimp only
  by_cases hdue : (slot.latchDirty dirtySet).isDue nowUs = true
  · rw [if_pos hdue, if_pos hdue]
    cases hframe : (slot.latchDirty dirtySet).buildPdoFrame od with
    | none =>
      obtain ⟨obs, hobs⟩ := hsilent
      exact ⟨obs, rfl, hobs⟩
    | some frame =>
      refine ⟨[.offer (.eventTpdo i (slot.latchDirty dirtySet).asyncEventPending) frame
        (b.answers.headD .accepted) state], rfl, rfl, ?_, ?_⟩
      · simp [eventOffers, Obs.eventOffer]
      · intro k hk
        simp [eventOffers, Obs.eventOffer, hk.symm]
  · rw [if_neg hdue, if_neg hdue]
    obtain ⟨obs, hobs⟩ := hsilent
    exact ⟨obs, rfl, hobs⟩

theorem pollWith_length {σ : Type} (od : OD) (nowUs : UInt64)
    (dirtySet : List (UInt16 × UInt8)) (accept : ℕ → TpdoSlot → CanFrame → σ → Bool × σ) (i : ℕ)
    (slots : List TpdoSlot) (s : σ) :
    (TpdoEngine.pollWith od nowUs dirtySet accept i slots s).1.length = slots.length := by
  induction slots generalizing i s with
  | nil => rfl
  | cons slot slots ih =>
    rw [TpdoEngine.pollWith]
    exact congrArg (· + 1) (ih (i + 1) _)

/-- Polling the PDOs in order, seen from one of them. -/
theorem pollWith_polled (od : OD) (nowUs : UInt64) (dirtySet : List (UInt16 × UInt8))
    (state : NmtState) (i : ℕ) (slots : List TpdoSlot) (b : Bus) :
    ∃ obs, (TpdoEngine.pollWith od nowUs dirtySet (Machine.acceptTpdo state) i slots b).2.trace =
        b.trace ++ obs ∧
      (∀ k < i, eventOffers k obs = []) ∧
      ∀ k slot, slots[k]? = some slot → ∃ accepted,
        (TpdoEngine.pollWith od nowUs dirtySet (Machine.acceptTpdo state) i slots b).1[k]? =
          some (slot.polled od nowUs dirtySet accepted).1 ∧
        eventOffers (i + k) obs = (slot.polled od nowUs dirtySet accepted).2 := by
  induction slots generalizing i b with
  | nil => exact ⟨[], (List.append_nil _).symm, fun _ _ => rfl, by simp⟩
  | cons slot slots ih =>
    obtain ⟨accepted, obs, hslot, htrace, hown, hothers⟩ :=
      slotPollWith_polled od nowUs dirtySet state i slot b
    obtain ⟨obs', htrace', hbefore, hrest⟩ :=
      ih (i + 1) (slot.pollWith od nowUs dirtySet (Machine.acceptTpdo state i) b).2
    refine ⟨obs ++ obs', ?_, ?_, ?_⟩
    · rw [TpdoEngine.pollWith, htrace', htrace, List.append_assoc]
    · intro k hk
      rw [eventOffers_append, hothers k (by omega), hbefore k (by omega), List.append_nil]
    · intro k slot' hk
      cases k with
      | zero =>
        cases hk
        refine ⟨accepted, ?_, ?_⟩
        · rw [TpdoEngine.pollWith, ← hslot]
          rfl
        · rw [Nat.add_zero, eventOffers_append, hown, hbefore i (Nat.lt_succ_self i),
            List.append_nil]
      | succ k =>
        obtain ⟨accepted', hget, hoffers⟩ := hrest k slot' hk
        refine ⟨accepted', ?_, ?_⟩
        · rw [TpdoEngine.pollWith]
          exact hget
        · rw [eventOffers_append, hothers (i + (k + 1)) (by omega), List.nil_append,
            Nat.add_comm k 1, ← Nat.add_assoc]
          exact hoffers

end Offers

/-! ## Actions -/

/-- How an action changes transmit PDO `i` and the dirty set, and what it offers of it. -/
inductive SlotAct (m : Machine OD evt dirty) (i : ℕ) (slot : TpdoSlot) :
    Action OD → TpdoSlot → List (UInt16 × UInt8) → Prop
  | kept {a} (hidle : m.changes slot a = false) (hpulse : m.isSyncPulse a = false)
    (hexpire : ∀ nowUs, a ≠ .expire nowUs) (hfinish : ∀ nowUs, a ≠ .finish nowUs)
    (hoffers : eventOffers i (m.observed a) = []) : SlotAct m i slot a slot m.node.dirtySet
  | latch {nowUs} (hoffers : eventOffers i (m.observed (.expire nowUs)) = []) :
    SlotAct m i slot (.expire nowUs) (slot.latchSyncEvent m.node.dirtySet) m.node.dirtySet
  | pulse {a} (od : OD) (hp : m.isSyncPulse a = true) (hidle : m.changes slot a = false)
    (hoffers : eventOffers i (m.observed a) = []) :
    SlotAct m i slot a (slot.onSync od).1 m.node.dirtySet
  | finish {nowUs} (accepted : Bool)
    (hoffers : eventOffers i (m.observed (.finish nowUs)) =
      (slot.polled m.node.od nowUs m.node.dirtySet accepted).2) :
    SlotAct m i slot (.finish nowUs) (slot.polled m.node.od nowUs m.node.dirtySet accepted).1 []
  | notified {c h dirtySet}
    (hdirty : slot.hasDirtyMapping dirtySet = true →
      slot.hasDirtyMapping m.node.dirtySet = true ∨ m.changes slot (.call c h) = true)
    (hkept : slot.hasDirtyMapping m.node.dirtySet = true → slot.hasDirtyMapping dirtySet = true)
    (hoffers : eventOffers i (m.observed (.call c h)) = []) :
    SlotAct m i slot (.call c h) (if m.changes slot (.call c h) then slot.latchEvent else slot)
      dirtySet

section Act

variable {m m' : Machine OD evt dirty} {a : Action OD} {i : ℕ} {slot : TpdoSlot}

omit [ObjectDictionary OD] in
/-- A slot is its configuration and its run-time state. -/
theorem slots_of_runtime {slots slots' : List TpdoSlot}
    (hconfig : slots'.map TpdoSlot.config = slots.map TpdoSlot.config)
    (hruntime : slots'.map TpdoSlot.runtime = slots.map TpdoSlot.runtime) : slots' = slots := by
  induction slots generalizing slots' with
  | nil => exact List.map_eq_nil_iff.mp hconfig
  | cons slot slots ih =>
    cases slots' with
    | nil => cases hconfig
    | cons slot' slots' =>
      rw [List.map_cons, List.map_cons, List.cons.injEq] at hconfig hruntime
      rw [ih hconfig.2 hruntime.2]
      congr 1
      cases slot
      cases slot'
      simp only [TpdoSlot.runtime, TpdoRuntime.mk.injEq] at hruntime
      simp_all

omit [ObjectDictionary OD] in
theorem slot_untouched (h : Untouched m m') (hconfigs : m'.tpdoConfigs = m.tpdoConfigs) :
    m'.node.tpdo.slots = m.node.tpdo.slots ∧ m'.node.dirtySet = m.node.dirtySet :=
  ⟨slots_of_runtime hconfigs (congrArg PdoRuntime.tpdo h.runtime),
    congrArg PdoRuntime.dirtySet h.runtime⟩

omit [ObjectDictionary OD] in
theorem latchSyncEvents_slots (m : Machine OD evt dirty) :
    m.latchSyncEvents.node.tpdo.slots =
      m.node.tpdo.slots.map (·.latchSyncEvent m.node.dirtySet) := by
  change (m.node.tpdo.latchSyncEvents m.node.dirtySet).slots = _
  unfold TpdoEngine.latchSyncEvents
  split_ifs with hempty
  · have hsame : ∀ slot ∈ m.node.tpdo.slots, slot.latchSyncEvent m.node.dirtySet = slot := by
      intro slot _
      simp [TpdoSlot.latchSyncEvent, TpdoSlot.hasDirtyMapping, hempty]
    rw [List.map_congr_left hsame]
    exact (List.map_id' _).symm
  · rfl

omit [ObjectDictionary OD] in
theorem latchSyncEvent_config (slot : TpdoSlot) (dirtySet : List (UInt16 × UInt8)) :
    (slot.latchSyncEvent dirtySet).config = slot.config := by
  unfold TpdoSlot.latchSyncEvent
  split_ifs <;> rfl

/-- A stage that leaves the transmit PDOs alone and offers none that is event-driven. -/
structure SlotsKept (m m' : Machine OD evt dirty) : Prop where
  tpdo : m'.node.tpdo = m.node.tpdo
  dirtySet : m'.node.dirtySet = m.node.dirtySet
  od : m'.node.od = m.node.od
  state : m'.state = m.state
  trace : ∃ obs, m'.bus.trace = m.bus.trace ++ obs ∧ ∀ o ∈ obs, ∀ i, o.eventOffer i = none

omit [ObjectDictionary OD] in
theorem SlotsKept.trans {m'' : Machine OD evt dirty} (h : SlotsKept m m') (h' : SlotsKept m' m'') :
    SlotsKept m m'' where
  tpdo := h'.tpdo.trans h.tpdo
  dirtySet := h'.dirtySet.trans h.dirtySet
  od := h'.od.trans h.od
  state := h'.state.trans h.state
  trace := by
    obtain ⟨obs, htrace, hobs⟩ := h.trace
    obtain ⟨obs', htrace', hobs'⟩ := h'.trace
    refine ⟨obs ++ obs', by rw [htrace', htrace, List.append_assoc], ?_⟩
    intro o ho
    rcases List.mem_append.mp ho with ho | ho
    · exact hobs o ho
    · exact hobs' o ho

omit [ObjectDictionary OD] in
theorem slotsKept_quiet (h : Quiet m m') : SlotsKept m m' where
  tpdo := h.tpdo
  dirtySet := h.dirtySet
  od := h.od
  state := quiet_state h
  trace := by
    obtain ⟨obs, htrace, hobs⟩ := quietPdo_of_quiet h
    exact ⟨obs, htrace, fun o ho i => eventOffer_of_not_pdo (hobs o ho) i⟩

omit [ObjectDictionary OD] in
theorem slotsKept_retry (m : Machine OD evt dirty) (nowUs : UInt64) :
    SlotsKept m (m.retryPendingSyncTpdo nowUs) := by
  rcases retryPendingSyncTpdo_cases m nowUs with heq | heq | ⟨-, last, heq⟩
  · rw [heq]
    exact ⟨rfl, rfl, rfl, rfl, [], (List.append_nil _).symm, by simp⟩
  · rw [heq]
    exact ⟨rfl, rfl, rfl, rfl, [], (List.append_nil _).symm, by simp⟩
  · obtain ⟨obs, htrace, hobs⟩ := transmitAll_trace m.state .syncTpdo m.node.pendingSyncTpdo m.bus
    rw [heq]
    refine ⟨rfl, rfl, rfl, rfl, obs, htrace, ?_⟩
    intro o ho i
    obtain ⟨frame, -, result, rfl⟩ := hobs o ho
    rfl

omit [ObjectDictionary OD] in
theorem slotsKept_deadlines (hop : m.state = .operational) (nowUs : UInt64) :
    SlotsKept m (m.checkDeadlines nowUs) := by
  obtain ⟨-, queue, count, heq⟩ | ⟨hne, -⟩ := checkDeadlines_cases m nowUs
  · rw [heq]
    refine ⟨rfl, rfl, rfl, rfl, _, rfl, ?_⟩
    intro o ho i
    obtain ⟨p, -, rfl⟩ := List.mem_map.mp ho
    rfl
  · exact absurd hop hne

theorem finish_slotsKept (hop : m.state = .operational) (nowUs : UInt64) :
    ∃ m₁, SlotsKept m m₁ ∧ m.finishStages nowUs = (m₁.pollTpdo nowUs).clearDirty := by
  have hretry := slotsKept_retry m nowUs
  have hdeadlines := hretry.trans
    (slotsKept_deadlines ((retryPendingSyncTpdo_state m nowUs).trans hop) nowUs)
  have hheartbeat := hdeadlines.trans (slotsKept_quiet (sendHeartbeat_quiet _ nowUs))
  have hchecked := hheartbeat.trans (slotsKept_quiet (checkHeartbeats_quiet _ nowUs))
  exact ⟨_, hchecked.trans (slotsKept_quiet (sendEmcy_quiet _)), rfl⟩

theorem pollTpdo_eq (hop : m.state = .operational) (nowUs : UInt64) :
    m.pollTpdo nowUs = ⟨{ m.node with tpdo := ⟨(TpdoEngine.pollWith m.node.od nowUs
      m.node.dirtySet (Machine.acceptTpdo m.state) 0 m.node.tpdo.slots (m.bus.log (latchObs
        TpdoSlot.isEventDriven m.node.dirtySet m.node.tpdo.slots))).1⟩ },
      (TpdoEngine.pollWith m.node.od nowUs m.node.dirtySet (Machine.acceptTpdo m.state) 0
        m.node.tpdo.slots (m.bus.log (latchObs TpdoSlot.isEventDriven m.node.dirtySet
          m.node.tpdo.slots))).2⟩ :=
  if_pos hop

theorem finish_length (hop : m.state = .operational) (nowUs : UInt64) :
    (m.finishStages nowUs).node.tpdo.slots.length = m.node.tpdo.slots.length := by
  obtain ⟨m₁, hkept, heq⟩ := finish_slotsKept hop nowUs
  rw [heq, Machine.clearDirty, pollTpdo_eq (hkept.state.trans hop), ← hkept.tpdo]
  exact pollWith_length _ _ _ _ _ _ _

/-- The transmit stage: the slots are polled and the dirty set is emptied. -/
theorem finish_polled (hop : m.state = .operational) (nowUs : UInt64)
    (hi : m.node.tpdo.slots[i]? = some slot) :
    ∃ accepted, (m.finishStages nowUs).node.tpdo.slots[i]? =
        some (slot.polled m.node.od nowUs m.node.dirtySet accepted).1 ∧
      (m.finishStages nowUs).node.dirtySet = [] ∧
      eventOffers i (m.observed (.finish nowUs)) =
        (slot.polled m.node.od nowUs m.node.dirtySet accepted).2 := by
  have ha : m.act (.finish nowUs) = some (m.finishStages nowUs) := rfl
  obtain ⟨m₁, hkept, heq⟩ := finish_slotsKept hop nowUs
  obtain ⟨obs, htrace, hobs⟩ := hkept.trace
  obtain ⟨obs', htrace', -, hrest⟩ := pollWith_polled m₁.node.od nowUs m₁.node.dirtySet m₁.state 0
    m₁.node.tpdo.slots
    (m₁.bus.log (latchObs TpdoSlot.isEventDriven m₁.node.dirtySet m₁.node.tpdo.slots))
  obtain ⟨accepted, hget, hoffers⟩ := hrest i slot (by rw [hkept.tpdo]; exact hi)
  have hpoll := pollTpdo_eq (hkept.state.trans hop) nowUs
  rw [hkept.od, hkept.dirtySet] at hget hoffers
  rw [Nat.zero_add] at hoffers
  refine ⟨accepted, ?_, ?_, ?_⟩
  · rw [heq, ← hget, Machine.clearDirty, hpoll, hkept.od, hkept.dirtySet]
  · rw [heq]
    rfl
  · have hall : (m.finishStages nowUs).bus.trace = m.bus.trace ++ (obs ++ (latchObs
        TpdoSlot.isEventDriven m₁.node.dirtySet m₁.node.tpdo.slots ++ obs')) := by
      rw [heq, Machine.clearDirty, hpoll]
      dsimp only
      rw [htrace', Bus.log, htrace]
      simp only [List.append_assoc]
    rw [observed_eq ha hall, eventOffers_append, eventOffers_append,
      eventOffers_of_not_pdo ofPdo_latchObs, hoffers]
    rw [eventOffers, List.filterMap_eq_nil_iff.mpr fun o ho => hobs o ho i]
    rfl

theorem pulse_slots {m₁ : Machine OD evt dirty} {nowUs : UInt64} (hq : Quiet m m₁) :
    (m₁.applyPulse.sendPulse nowUs).node.tpdo.slots =
      m.node.tpdo.slots.map fun slot => (slot.onSync m₁.applyPulse.node.od).1 := by
  rw [← hq.tpdo]
  rfl

theorem changes_of_pulse (hp : m.isPulse a = true) (slot : TpdoSlot) :
    m.changes slot a = false := by
  cases a with
  | call c h => cases hp
  | _ => rfl

/-- Only the transmit stage in Operational offers event-driven PDOs. -/
theorem act_eventOffers (ha : m.act a = some m')
    (hfinish : ∀ nowUs, a = .finish nowUs → m.state ≠ .operational) (i : ℕ) :
    eventOffers i (m.observed a) = [] := by
  have hquiet (h : QuietPdo m m') : eventOffers i (m.observed a) = [] := by
    obtain ⟨obs, htrace, hobs⟩ := h
    rw [observed_eq ha htrace]
    exact eventOffers_of_not_pdo hobs
  cases act_pdo ha with
  | untouched _ _ _ _ hu => exact hquiet hu.trace
  | discarded _ _ _ hd => exact hquiet hd.trace
  | latch hu => exact hquiet (QuietPdo.trans (quietPdo_log m _ ofPdo_latchObs) hu.trace)
  | @receive nowUs frame k rpdo hs =>
    obtain ⟨obs, htrace, hobs⟩ := receiveRpdo_trace m k rpdo frame nowUs
    rw [observed_eq ha htrace]
    apply List.filterMap_eq_nil_iff.mpr
    intro o ho
    rcases hobs o ho with rfl | hquiet
    · rfl
    · exact eventOffer_of_not_pdo hquiet i
  | pulse hpulse hop =>
    have hp : m.isSyncPulse a = true := by simp [Machine.isSyncPulse, hpulse, hop]
    obtain ⟨before, offers, hobserved, hbefore, hoffers⟩ := pulse_observed hp ha
    rw [hobserved, eventOffers_append, eventOffers_of_not_pdo hbefore, List.nil_append]
    apply List.filterMap_eq_nil_iff.mpr
    intro o ho
    rcases List.mem_cons.mp ho with rfl | ho
    · rfl
    · obtain ⟨frame, result, state, rfl⟩ := hoffers o ho
      rfl
  | @finish nowUs => exact hquiet (finishStages_discarded (hfinish nowUs rfl) nowUs).trace
  | notified hn => exact hquiet hn.trace

/-- What a steady action does to one transmit PDO. -/
theorem slot_act (hop : m.state = .operational) (ha : m.act a = some m')
    (hop' : m'.state = .operational) (hconfigs : m'.tpdoConfigs = m.tpdoConfigs)
    (hi : m.node.tpdo.slots[i]? = some slot) :
    ∃ slot', m'.node.tpdo.slots[i]? = some slot' ∧ slot'.config = slot.config ∧
      SlotAct m i slot a slot' m'.node.dirtySet := by
  have hconfig {slot' : TpdoSlot} (hi' : m'.node.tpdo.slots[i]? = some slot') :
      slot'.config = slot.config := by
    have hget : m'.tpdoConfigs[i]? = m.tpdoConfigs[i]? := by rw [hconfigs]
    rw [Machine.tpdoConfigs, Machine.tpdoConfigs, List.getElem?_map, List.getElem?_map, hi, hi']
      at hget
    exact Option.some.inj hget
  have hsilent (hfinish : ∀ nowUs, a ≠ .finish nowUs) : eventOffers i (m.observed a) = [] :=
    act_eventOffers ha (fun nowUs h => absurd h (hfinish nowUs)) i
  cases act_pdo ha with
  | untouched hidle hpulse hexpire hfinish hu =>
    obtain ⟨hslots, hdirty⟩ := slot_untouched hu hconfigs
    rw [hslots, hdirty]
    refine ⟨slot, hi, rfl, .kept (hidle slot) ?_ hexpire hfinish (hsilent hfinish)⟩
    cases hp : m.isPulse a with
    | false => simp [Machine.isSyncPulse, hp]
    | true => exact absurd hop (hpulse hp)
  | discarded _ _ _ hd => exact absurd hop' hd.state
  | latch hu =>
    have hlatched := latchSyncEvents_slots m
    obtain ⟨hslots, hdirty⟩ := slot_untouched hu (by
      rw [hconfigs, Machine.tpdoConfigs, Machine.tpdoConfigs, hlatched, List.map_map]
      exact List.map_congr_left fun slot _ => (latchSyncEvent_config slot _).symm)
    have hget : m'.node.tpdo.slots[i]? = some (slot.latchSyncEvent m.node.dirtySet) := by
      rw [hslots, hlatched, List.getElem?_map, hi]
      rfl
    rw [hdirty]
    exact ⟨_, hget, hconfig hget, .latch (hsilent (by simp))⟩
  | @receive nowUs frame k rpdo hs =>
    obtain ⟨htpdo, hdirty⟩ := receiveRpdo_tpdo m k rpdo frame nowUs
    have hpulse : m.isSyncPulse (.frame nowUs frame) = false := by
      unfold Machine.rpdoSlot at hs
      split_ifs at hs with hroute
      simp [Machine.isSyncPulse, Machine.isPulse, hroute.1]
    rw [htpdo, hdirty]
    exact ⟨slot, hi, rfl, .kept rfl hpulse (by simp) (by simp) (hsilent (by simp))⟩
  | @pulse _ m₁ nowUs hpulse _ hnow hq =>
    have hp : m.isSyncPulse a = true := by simp [Machine.isSyncPulse, hpulse, hop]
    have hfinish (nowUs : UInt64) : a ≠ .finish nowUs := by
      rintro rfl
      cases hpulse
    have hget : (m₁.applyPulse.sendPulse nowUs).node.tpdo.slots[i]? =
        some (slot.onSync m₁.applyPulse.node.od).1 := by
      rw [pulse_slots hq, List.getElem?_map, hi]
      rfl
    have hdirty : (m₁.applyPulse.sendPulse nowUs).node.dirtySet = m.node.dirtySet := hq.dirtySet
    rw [hdirty]
    exact ⟨_, hget, hconfig hget, .pulse _ hp (changes_of_pulse hpulse slot) (hsilent hfinish)⟩
  | finish =>
    obtain ⟨accepted, hget, hdirty, hoffers⟩ := finish_polled hop _ hi
    rw [hdirty]
    exact ⟨_, hget, hconfig hget, .finish accepted hoffers⟩
  | @notified c h _ hn =>
    have hget : m'.node.tpdo.slots[i]? =
        some (if m.changes slot (.call c h) then slot.latchEvent else slot) := by
      rw [hn.slots, List.getElem?_map, hi]
      rfl
    exact ⟨_, hget, hconfig hget, .notified (hn.dirty slot) (hn.kept slot)
      (hsilent (by simp))⟩

end Act

/-! ## Steady runs -/

/-- The node is Operational, and its transmit PDOs are configured as given. -/
structure Steady (configs : List TpdoConfig) (m : Machine OD evt dirty) : Prop where
  operational : m.state = .operational
  unchanged : m.tpdoConfigs = configs

section Steady

variable {configs : List TpdoConfig} {config : TpdoConfig} {m m' : Machine OD evt dirty}
  {a : Action OD} {i : ℕ} {slot : TpdoSlot}

theorem Steady.step (hs : m.steady configs a = true) (ha : m.act a = some m') :
    Steady configs m' := by
  rw [Machine.steady, ha, Option.any_some, Bool.and_eq_true, beq_iff_eq, beq_iff_eq] at hs
  exact ⟨hs.1, hs.2⟩

omit [ObjectDictionary OD] in
theorem Steady.get (h : Steady configs m) (hc : configs[i]? = some config) :
    ∃ slot, m.node.tpdo.slots[i]? = some slot ∧ slot.config = config := by
  rw [← h.unchanged, Machine.tpdoConfigs, List.getElem?_map] at hc
  exact Option.map_eq_some_iff.mp hc

theorem Steady.slot_act (h : Steady configs m) (hs : m.steady configs a = true)
    (ha : m.act a = some m') (hi : m.node.tpdo.slots[i]? = some slot) :
    ∃ slot', m'.node.tpdo.slots[i]? = some slot' ∧ slot'.config = slot.config ∧
      SlotAct m i slot a slot' m'.node.dirtySet :=
  have hnext := Steady.step hs ha
  Canopen.slot_act h.operational ha hnext.operational (hnext.unchanged.trans h.unchanged.symm) hi

end Steady
end Canopen
