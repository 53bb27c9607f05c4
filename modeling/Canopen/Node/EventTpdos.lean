import Canopen.Lib.Trigger
import Canopen.Node.TpdoSlots

/-!
# Event-driven transmit PDOs

An event-driven PDO is a rate-limited trigger. An application change makes it pending; it
is offered in the transmit stage when the inhibit time allows, until the transport takes
it; the event timer sets it off, too. Between the change and the offer the event is in the
dirty set or in the latch of the PDO.
-/

namespace Canopen

open Derive Pdo Sdo

variable {OD : Type} [ObjectDictionary OD] {evt dirty : ℕ}

/-- The inhibit time and the event timer in microseconds. -/
def Pdo.TpdoSlot.timing (slot : TpdoSlot) : Trigger.Timing :=
  ⟨slot.config.inhibitTime100us.toNat * 100, slot.config.eventTimerMs.toNat * 1000⟩

/-- The trigger of a PDO. Events that are only in the dirty set are pending, too. -/
def Pdo.TpdoSlot.trigger (slot : TpdoSlot) (dirtySet : List (UInt16 × UInt8)) : Trigger.State :=
  ⟨slot.asyncEventPending || slot.hasDirtyMapping dirtySet, slot.lastSendUs.toNat⟩

def offerTokens (nowUs : UInt64) (offers : List (CanFrame × Bool)) : List Trigger.Token :=
  offers.map fun offer => .offer nowUs.toNat offer.2

/-- What happens to event-driven PDO `i`: its objects change, or it is offered. -/
def Machine.triggerTokens (i : ℕ) (m : Machine OD evt dirty) (a : Action OD) :
    List Trigger.Token :=
  (if m.node.tpdo.slots[i]?.any (m.changes · a) then [.event] else []) ++
    offerTokens (a.nowUs.getD 0) (eventOffers i (m.observed a))

/-- The time of the transmit stage. -/
def Action.finishUs : Action OD → Option ℕ
  | .finish nowUs => some nowUs.toNat
  | _ => none

def finishTimes (l : List (Action OD)) : List ℕ := l.filterMap Action.finishUs

def Call.nowUs : Call OD → Option UInt64
  | .process nowUs _ _ => some nowUs
  | _ => none

/-! ## Polls -/

section Poll

variable {slot : TpdoSlot} {od : OD} {nowUs : UInt64} {dirtySet : List (UInt16 × UInt8)}
  {accepted : Bool}

omit [ObjectDictionary OD] in
theorem latchDirty_trigger (slot : TpdoSlot) (dirtySet : List (UInt16 × UInt8)) :
    (slot.latchDirty dirtySet).trigger [] = slot.trigger dirtySet ∧
      (slot.latchDirty dirtySet).asyncEventPending = (slot.trigger dirtySet).pending := by
  unfold TpdoSlot.latchDirty TpdoSlot.trigger
  cases hdirty : slot.hasDirtyMapping dirtySet with
  | false => simp [TpdoSlot.hasDirtyMapping]
  | true => simp [TpdoSlot.hasDirtyMapping]

omit [ObjectDictionary OD] in
/-- On a clock that does not go back, the wrapping difference is the elapsed time. -/
theorem isDue_iff (h : slot.lastSendUs.toNat ≤ nowUs.toNat) :
    slot.isDue nowUs = true ↔
      slot.timing.Due ⟨slot.asyncEventPending, slot.lastSendUs.toNat⟩ nowUs.toNat := by
  have helapsed : (nowUs - slot.lastSendUs).toNat = nowUs.toNat - slot.lastSendUs.toNat :=
    UInt64.toNat_sub_of_le _ _ (UInt64.le_iff_toNat_le.mpr h)
  have hinhibit : (slot.config.inhibitTime100us.toUInt64 * 100).toNat =
      slot.config.inhibitTime100us.toNat * 100 := by
    have := slot.config.inhibitTime100us.toNat_lt
    simp only [UInt64.toNat_mul, UInt16.toNat_toUInt64, UInt64.reduceToNat]
    omega
  have htimer : (slot.config.eventTimerMs.toUInt64 * 1000).toNat =
      slot.config.eventTimerMs.toNat * 1000 := by
    have := slot.config.eventTimerMs.toNat_lt
    simp only [UInt64.toNat_mul, UInt16.toNat_toUInt64, UInt64.reduceToNat]
    omega
  have hpositive : 0 < slot.config.eventTimerMs ↔ 0 < slot.config.eventTimerMs.toNat * 1000 := by
    rw [UInt16.lt_iff_toNat_lt]
    change 0 < _ ↔ _
    omega
  unfold TpdoSlot.isDue Trigger.Timing.Due TpdoSlot.timing
  simp only [Bool.and_eq_true, Bool.or_eq_true, decide_eq_true_eq, UInt64.le_iff_toNat_le,
    helapsed, hinhibit, htimer, hpositive]
  constructor
  · rintro ⟨hset, hwait⟩
    refine ⟨?_, by omega⟩
    rcases hset with hset | ⟨hset, hwaited⟩
    · exact .inl hset
    · exact .inr ⟨hset, by omega⟩
  · rintro ⟨hset, hwait⟩
    refine ⟨?_, by omega⟩
    rcases hset with hset | ⟨hset, hwaited⟩
    · exact .inl hset
    · exact .inr ⟨hset, by omega⟩

omit [ObjectDictionary OD] in
theorem latchDirty_isDue (h : slot.lastSendUs.toNat ≤ nowUs.toNat) :
    (slot.latchDirty dirtySet).isDue nowUs = true ↔
      slot.timing.Due (slot.trigger dirtySet) nowUs.toNat := by
  obtain ⟨hconfig, hlast, -⟩ := latchDirty_kept slot dirtySet
  rw [isDue_iff (by rw [hlast]; exact h), TpdoSlot.timing, hconfig,
    (latchDirty_trigger slot dirtySet).2, hlast]
  rfl

theorem polled_law (hdriven : slot.isEventDriven = true)
    (h : slot.lastSendUs.toNat ≤ nowUs.toNat) :
    Trigger.Law slot.timing (slot.trigger dirtySet)
      (offerTokens nowUs (slot.polled od nowUs dirtySet accepted).2)
      ((slot.polled od nowUs dirtySet accepted).1.trigger []) := by
  have htrigger := (latchDirty_trigger slot dirtySet).1
  rcases polled_cases slot od nowUs dirtySet accepted with
    ⟨hnot, -⟩ | ⟨-, -, heq⟩ | ⟨-, hdue, frame, -, heq⟩
  · rw [hdriven] at hnot
    cases hnot
  · rw [heq]
    change Trigger.Law _ _ [] ((slot.latchDirty dirtySet).trigger [])
    rw [htrigger]
    exact .nil
  · rw [heq]
    rw [latchDirty_isDue h] at hdue
    cases accepted with
    | true =>
      have hsent : ((slot.latchDirty dirtySet).sent nowUs).trigger [] = ⟨false, nowUs.toNat⟩ := by
        simp [TpdoSlot.trigger, TpdoSlot.sent, TpdoSlot.hasDirtyMapping]
      change Trigger.Law _ _ ([] ++ [.offer nowUs.toNat true])
        (((slot.latchDirty dirtySet).sent nowUs).trigger [])
      rw [hsent]
      exact .accepted .nil hdue
    | false =>
      change Trigger.Law _ _ ([] ++ [.offer nowUs.toNat false])
        ((slot.latchDirty dirtySet).trigger [])
      rw [htrigger]
      exact .refused .nil hdue

/-- A poll offers the frame of the dictionary as it is now, and does so whenever the
trigger is due. -/
theorem polled_frame (hdriven : slot.isEventDriven = true)
    (h : slot.lastSendUs.toNat ≤ nowUs.toNat) :
    (∀ offer ∈ (slot.polled od nowUs dirtySet accepted).2,
      slot.buildPdoFrame od = some offer.1) ∧
    (slot.timing.Due (slot.trigger dirtySet) nowUs.toNat →
      (slot.buildPdoFrame od).isSome = true →
      (slot.polled od nowUs dirtySet accepted).2 ≠ []) := by
  rw [← latchDirty_isDue h]
  rcases polled_cases slot od nowUs dirtySet accepted with
    ⟨hnot, -⟩ | ⟨-, hidle, heq⟩ | ⟨-, -, frame, hframe, heq⟩
  · rw [hdriven] at hnot
    cases hnot
  · rw [heq]
    refine ⟨nofun, ?_⟩
    intro hdue hsome
    rcases hidle with hidle | hnone
    · rw [hidle] at hdue
      cases hdue
    · rw [hnone] at hsome
      cases hsome
  · rw [heq]
    refine ⟨?_, fun _ _ => by simp⟩
    intro offer ho
    rw [List.mem_singleton.mp ho]
    exact hframe

end Poll

/-! ## Actions -/

section Act

variable {m m' : Machine OD evt dirty} {a : Action OD} {i : ℕ} {slot slot' : TpdoSlot}
  {dirtySet : List (UInt16 × UInt8)}

theorem triggerTokens_eq (hi : m.node.tpdo.slots[i]? = some slot) (a : Action OD) :
    m.triggerTokens i a = (if m.changes slot a then [.event] else []) ++
      offerTokens (a.nowUs.getD 0) (eventOffers i (m.observed a)) := by
  rw [Machine.triggerTokens, hi, Option.any_some]

theorem triggerTokens_silent (hi : m.node.tpdo.slots[i]? = some slot)
    (hc : m.changes slot a = false) (hoffers : eventOffers i (m.observed a) = []) :
    m.triggerTokens i a = [] := by
  rw [triggerTokens_eq hi, hc, hoffers]
  rfl

omit [ObjectDictionary OD] in
theorem isEventDriven_iff : slot.isEventDriven = true ↔ slot.config.enabled = true ∧
    (slot.config.transmissionType = 254 ∨ slot.config.transmissionType = 255) := by
  simp [TpdoSlot.isEventDriven]

theorem onSync_eventDriven (hdriven : slot.isEventDriven = true) (od : OD) :
    (slot.onSync od).1 = slot := by
  obtain ⟨hen, htype | htype⟩ := isEventDriven_iff.mp hdriven
  · simp [TpdoSlot.onSync, hen, htype]
  · simp [TpdoSlot.onSync, hen, htype]

omit [ObjectDictionary OD] in
theorem latchEvent_trigger (hdriven : slot.isEventDriven = true)
    (dirtySet dirtySet' : List (UInt16 × UInt8)) :
    slot.latchEvent.trigger dirtySet = ⟨true, (slot.trigger dirtySet').last⟩ := by
  obtain ⟨hen, htype | htype⟩ := isEventDriven_iff.mp hdriven
  · simp [TpdoSlot.latchEvent, TpdoSlot.trigger, hen, htype]
  · simp [TpdoSlot.latchEvent, TpdoSlot.trigger, hen, htype]

/-- A steady action obeys the law of triggers. -/
theorem SlotAct.law (hdriven : slot.isEventDriven = true)
    (h : SlotAct m i slot a slot' dirtySet) (hi : m.node.tpdo.slots[i]? = some slot)
    (hclock : ∀ nowUs, a = .finish nowUs → slot.lastSendUs.toNat ≤ nowUs.toNat) :
    Trigger.Law slot.timing (slot.trigger m.node.dirtySet) (m.triggerTokens i a)
      (slot'.trigger dirtySet) := by
  cases h with
  | kept hidle _ _ _ hoffers =>
    rw [triggerTokens_silent hi hidle hoffers]
    exact .nil
  | latch hoffers =>
    have hsame : slot.latchSyncEvent m.node.dirtySet = slot := by
      obtain ⟨hen, htype | htype⟩ := isEventDriven_iff.mp hdriven
      · simp [TpdoSlot.latchSyncEvent, htype]
      · simp [TpdoSlot.latchSyncEvent, htype]
    rw [triggerTokens_silent hi rfl hoffers, hsame]
    exact .nil
  | pulse od _ hidle hoffers =>
    rw [triggerTokens_silent hi hidle hoffers, onSync_eventDriven hdriven]
    exact .nil
  | @finish nowUs accepted hoffers =>
    have hidle : m.changes slot (.finish nowUs) = false := rfl
    rw [triggerTokens_eq hi, hidle, hoffers]
    exact polled_law hdriven (hclock _ rfl)
  | notified hdirty hkept hoffers =>
    rw [triggerTokens_eq hi, hoffers]
    cases hchange : m.changes slot (.call _ _) with
    | true =>
      rw [if_pos rfl, if_pos rfl, latchEvent_trigger hdriven dirtySet m.node.dirtySet]
      exact .event .nil
    | false =>
      have hsame : slot.hasDirtyMapping dirtySet = slot.hasDirtyMapping m.node.dirtySet := by
        rw [Bool.eq_iff_iff]
        exact ⟨fun hd => (hdirty hd).resolve_right (by simp [hchange]), hkept⟩
      rw [if_neg (by simp), if_neg (by simp), TpdoSlot.trigger, TpdoSlot.trigger, hsame]
      exact .nil

/-! ## The last transmission -/

omit [ObjectDictionary OD] in
theorem lastSends_runtime (m : Machine OD evt dirty) :
    m.node.tpdo.slots.map TpdoSlot.lastSendUs =
      m.node.pdoRuntime.tpdo.map TpdoRuntime.lastSendUs := by
  rw [Node.pdoRuntime, List.map_map]
  rfl

theorem onSync_lastSend (slot : TpdoSlot) (od : OD) :
    (slot.onSync od).1.lastSendUs = slot.lastSendUs := by
  unfold TpdoSlot.onSync
  dsimp only
  split_ifs <;> rfl

/-- Outside the transmit stage no PDO is sent as event-driven. -/
theorem act_lastSend (ha : m.act a = some m')
    (hfinish : ∀ nowUs, a = .finish nowUs → m.state ≠ .operational) :
    m'.node.tpdo.slots.map TpdoSlot.lastSendUs = m.node.tpdo.slots.map TpdoSlot.lastSendUs := by
  have hmap {m'' : Machine OD evt dirty} {f : TpdoSlot → TpdoSlot}
      (hslots : m''.node.tpdo.slots = m.node.tpdo.slots.map f)
      (hf : ∀ slot, (f slot).lastSendUs = slot.lastSendUs) :
      m''.node.tpdo.slots.map TpdoSlot.lastSendUs = m.node.tpdo.slots.map TpdoSlot.lastSendUs := by
    rw [hslots, List.map_map]
    exact List.map_congr_left fun slot _ => hf slot
  have hdiscarded (hd : Discarded m m') :
      m'.node.tpdo.slots.map TpdoSlot.lastSendUs = m.node.tpdo.slots.map TpdoSlot.lastSendUs := by
    rw [lastSends_runtime, lastSends_runtime]
    rcases hd.runtime with hruntime | hruntime
    · rw [hruntime, PdoRuntime.discard, List.map_map]
      rfl
    · rw [hruntime, PdoRuntime.restart, PdoRuntime.discard, List.map_map, List.map_map]
      rfl
  cases act_pdo ha with
  | untouched _ _ _ _ hu => rw [lastSends_runtime, lastSends_runtime, hu.runtime]
  | discarded _ _ _ hd => exact hdiscarded hd
  | latch hu =>
    rw [lastSends_runtime, hu.runtime, ← lastSends_runtime]
    apply hmap (latchSyncEvents_slots m)
    intro slot
    unfold TpdoSlot.latchSyncEvent
    split_ifs <;> rfl
  | receive hs => rw [(receiveRpdo_tpdo m _ _ _ _).1]
  | pulse _ _ _ hq => exact hmap (pulse_slots hq) (onSync_lastSend · _)
  | @finish nowUs => exact hdiscarded (finishStages_discarded (hfinish nowUs rfl) nowUs)
  | notified hn =>
    apply hmap hn.slots
    intro slot
    split_ifs
    · unfold TpdoSlot.latchEvent
      split_ifs <;> rfl
    · rfl

/-- The send time of PDO `i` is that of its last accepted offer, and not in the future. -/
def SentAt (i clock : ℕ) (tokens : List Trigger.Token) (m : Machine OD evt dirty) : Prop :=
  ∀ slot, m.node.tpdo.slots[i]? = some slot →
    slot.lastSendUs.toNat = Trigger.lastAccepted 0 tokens ∧ slot.lastSendUs.toNat ≤ clock

theorem polled_last {od : OD} {nowUs : UInt64} {accepted : Bool}
    (h : slot.lastSendUs.toNat ≤ nowUs.toNat) :
    (slot.polled od nowUs dirtySet accepted).1.lastSendUs.toNat =
        Trigger.lastAccepted slot.lastSendUs.toNat
          (offerTokens nowUs (slot.polled od nowUs dirtySet accepted).2) ∧
      (slot.polled od nowUs dirtySet accepted).1.lastSendUs.toNat ≤ nowUs.toNat := by
  have hlast := (latchDirty_kept slot dirtySet).2.1
  rcases polled_cases slot od nowUs dirtySet accepted with
    ⟨-, heq⟩ | ⟨-, -, heq⟩ | ⟨-, -, frame, -, heq⟩
  · rw [heq]
    exact ⟨rfl, h⟩
  · rw [heq]
    dsimp only
    rw [hlast]
    exact ⟨rfl, h⟩
  · rw [heq]
    cases accepted with
    | true => exact ⟨rfl, le_refl _⟩
    | false =>
      change (slot.latchDirty dirtySet).lastSendUs.toNat = _ ∧
        (slot.latchDirty dirtySet).lastSendUs.toNat ≤ _
      rw [hlast]
      exact ⟨rfl, h⟩

theorem SentAt.act {clock : ℕ} {tokens : List Trigger.Token} (h : SentAt i clock tokens m)
    (ha : m.act a = some m') (hclock : clock ≤ a.finishUs.getD clock) :
    SentAt i (a.finishUs.getD clock) (tokens ++ m.triggerTokens i a) m' := by
  intro slot' hi'
  by_cases hfinish : ∀ nowUs, a = .finish nowUs → m.state ≠ .operational
  · have hlasts := congrArg (·[i]?) (act_lastSend ha hfinish)
    simp only [List.getElem?_map, hi', Option.map_some] at hlasts
    obtain ⟨slot, hi, hsame⟩ := Option.map_eq_some_iff.mp hlasts.symm
    obtain ⟨hlast, hle⟩ := h slot hi
    rw [triggerTokens_eq hi, act_eventOffers ha hfinish, Trigger.lastAccepted_append, ← hlast,
      ← hsame]
    refine ⟨?_, hle.trans hclock⟩
    split_ifs <;> rfl
  · simp only [not_forall, not_not] at hfinish
    obtain ⟨nowUs, rfl, hop⟩ := hfinish
    obtain rfl := Machine.act_finish ha
    have hlt := (List.getElem?_eq_some_iff.mp hi').1
    rw [finish_length hop] at hlt
    have hi : m.node.tpdo.slots[i]? = some m.node.tpdo.slots[i] := List.getElem?_eq_getElem hlt
    obtain ⟨accepted, hpolled, -, hoffers⟩ := finish_polled hop nowUs hi
    cases hi'.symm.trans hpolled
    obtain ⟨hlast, hle⟩ := h _ hi
    have hidle (slot : TpdoSlot) : m.changes slot (.finish nowUs) = false := rfl
    rw [triggerTokens_eq hi, hidle, hoffers, Trigger.lastAccepted_append, ← hlast]
    exact polled_last (hle.trans hclock)

end Act

/-! ## Runs -/

section Runs

variable {m m' : Machine OD evt dirty} {a : Action OD} {l : List (Action OD)} {i clock : ℕ}
  {slot : TpdoSlot} {tokens : List Trigger.Token}

omit [ObjectDictionary OD] in
/-- The clock is the time of the last transmit stage. -/
theorem finishTimes_cons (h : (clock :: finishTimes (a :: l)).Pairwise (· ≤ ·)) :
    clock ≤ a.finishUs.getD clock ∧
      (a.finishUs.getD clock :: finishTimes l).Pairwise (· ≤ ·) ∧
      a.finishUs.getD clock :: finishTimes l ⊆ clock :: finishTimes (a :: l) := by
  cases hfinish : a.finishUs with
  | none =>
    have hsame : finishTimes (a :: l) = finishTimes l := List.filterMap_cons_none hfinish
    rw [hsame] at h ⊢
    exact ⟨le_refl _, h, fun _ => id⟩
  | some time =>
    have hcons : finishTimes (a :: l) = time :: finishTimes l := List.filterMap_cons_some hfinish
    rw [hcons] at h ⊢
    obtain ⟨hfirst, hrest⟩ := List.pairwise_cons.mp h
    exact ⟨hfirst time List.mem_cons_self, hrest, List.subset_cons_self _ _⟩

theorem sentAt_start {config : NodeConfig} {od : OD} {n : Node OD evt dirty}
    (hn : Node.new config od = some n) (i : ℕ) : SentAt i 0 [] (Machine.start n) := by
  intro slot hi
  have hzero : slot.lastSendUs ∈ (Machine.start n).node.tpdo.slots.map TpdoSlot.lastSendUs :=
    List.mem_map_of_mem (List.mem_of_getElem? hi)
  have hruntime : (Machine.start n).node.pdoRuntime =
      (Node.initial config od : Node OD evt dirty).pdoRuntime := new_runtime hn
  rw [lastSends_runtime, hruntime] at hzero
  obtain ⟨r, hr, hsend⟩ := List.mem_map.mp hzero
  obtain ⟨slot', hslot', rfl⟩ := List.mem_map.mp hr
  obtain ⟨pdo, -, rfl⟩ := List.mem_map.mp hslot'
  rw [← hsend]
  exact ⟨rfl, le_refl _⟩

/-- The send time along any run. -/
theorem sentAt_run (h : SentAt i clock tokens m)
    (htimes : (clock :: finishTimes l).Pairwise (· ≤ ·)) (hl : m.acts l = some m') :
    ∃ clock' ∈ clock :: finishTimes l,
      SentAt i clock' (tokens ++ Runs.log Machine.act (Machine.triggerTokens i) m l) m' := by
  induction l generalizing m clock tokens with
  | nil =>
    cases hl
    rw [Runs.log, List.append_nil]
    exact ⟨clock, List.mem_cons_self, h⟩
  | cons a l ih =>
    obtain ⟨m₁, ha, hl⟩ := Runs.run_cons.mp hl
    obtain ⟨hclock, hrest, hsub⟩ := finishTimes_cons htimes
    obtain ⟨clock', hmem, hsent⟩ := ih (h.act ha hclock) hrest hl
    rw [Runs.log, ha, ← List.append_assoc]
    exact ⟨clock', hsub hmem, hsent⟩

theorem law_run {configs : List TpdoConfig} (hm : Steady configs m)
    (hs : Runs.along Machine.act (Machine.steady configs) m l = true)
    (hi : m.node.tpdo.slots[i]? = some slot) (hdriven : slot.isEventDriven = true)
    (h : SentAt i clock tokens m) (htimes : (clock :: finishTimes l).Pairwise (· ≤ ·))
    (hl : m.acts l = some m') :
    Steady configs m' ∧ ∃ slot', m'.node.tpdo.slots[i]? = some slot' ∧
      slot'.config = slot.config ∧ Trigger.Law slot.timing (slot.trigger m.node.dirtySet)
        (Runs.log Machine.act (Machine.triggerTokens i) m l) (slot'.trigger m'.node.dirtySet) := by
  induction l generalizing m clock tokens slot with
  | nil =>
    cases hl
    exact ⟨hm, slot, hi, rfl, .nil⟩
  | cons a l ih =>
    obtain ⟨m₁, ha, hl⟩ := Runs.run_cons.mp hl
    rw [Runs.along, ha, Bool.and_eq_true] at hs
    obtain ⟨hclock, hrest, -⟩ := finishTimes_cons htimes
    obtain ⟨slot₁, hi₁, hconfig, hact⟩ := hm.slot_act hs.1 ha hi
    have hlaw := hact.law hdriven hi (by
      rintro nowUs rfl
      exact (h slot hi).2.trans hclock)
    have htiming : slot₁.timing = slot.timing := by
      rw [TpdoSlot.timing, hconfig, TpdoSlot.timing]
    have hdriven₁ : slot₁.isEventDriven = true := by
      rw [isEventDriven_iff, hconfig]
      exact isEventDriven_iff.mp hdriven
    obtain ⟨hm', slot', hi', hconfig', hlaw'⟩ :=
      ih (Steady.step hs.1 ha) hs.2 hi₁ hdriven₁ (h.act ha hclock) hrest hl
    rw [htiming] at hlaw'
    rw [Runs.log, ha]
    exact ⟨hm', slot', hi', hconfig'.trans hconfig, hlaw.trans hlaw'⟩

omit [ObjectDictionary OD] in
theorem finishTimes_actions (m : Machine OD evt dirty) (c : Call OD) :
    (finishTimes (m.actions c)).Sublist ((c.nowUs.map UInt64.toNat).toList) := by
  cases c with
  | process nowUs rx answers =>
    have hframes : finishTimes (rx.map (.frame nowUs) : List (Action OD)) = [] := by
      apply List.filterMap_eq_nil_iff.mpr
      intro a ha
      obtain ⟨frame, -, rfl⟩ := List.mem_map.mp ha
      rfl
    rw [Machine.actions]
    split_ifs
    · have htimes : finishTimes (.boot nowUs answers :: (.expire nowUs :: rx.map (.frame nowUs) ++
          [.service nowUs, .produceSync nowUs, .finish nowUs]) : List (Action OD)) =
          finishTimes (rx.map (.frame nowUs) : List (Action OD)) ++ [nowUs.toNat] := by
        rw [finishTimes, List.filterMap_cons_none rfl, List.cons_append,
          List.filterMap_cons_none rfl, List.filterMap_append]
        rfl
      rw [htimes, hframes]
      exact List.Sublist.refl _
    · exact List.nil_sublist _
  | _ => exact List.nil_sublist _

/-- The transmit stages are as ordered as the calls. -/
theorem finishTimes_sublist (m : Machine OD evt dirty) (calls : List (Call OD)) :
    (finishTimes (m.runActions calls)).Sublist
      ((calls.filterMap Call.nowUs).map UInt64.toNat) := by
  induction calls generalizing m with
  | nil => exact List.nil_sublist _
  | cons c calls ih =>
    have hcons : ((c :: calls).filterMap Call.nowUs).map UInt64.toNat =
        (c.nowUs.map UInt64.toNat).toList ++ (calls.filterMap Call.nowUs).map UInt64.toNat := by
      rw [List.filterMap_cons]
      cases c.nowUs with
      | none => rfl
      | some nowUs => rfl
    rw [Machine.runActions, Runs.log, finishTimes, List.filterMap_append, hcons]
    apply (finishTimes_actions m c).append
    cases m.call c with
    | none => exact List.nil_sublist _
    | some m' => exact ih m'

/-- What the transmit stage does with an event-driven PDO. -/
structure Polled (m : Machine OD evt dirty) (i : ℕ) (slot : TpdoSlot) (nowUs : UInt64) : Prop where
  /-- An offer carries the objects as they are now. -/
  frame : ∀ offer ∈ eventOffers i (m.observed (.finish nowUs)),
    slot.buildPdoFrame m.node.od = some offer.1
  due : slot.timing.Due (slot.trigger m.node.dirtySet) nowUs.toNat →
    (slot.buildPdoFrame m.node.od).isSome = true →
    eventOffers i (m.observed (.finish nowUs)) ≠ []
  /-- A refused frame leaves the event and the timers as they are. -/
  refused : (∀ offer ∈ eventOffers i (m.observed (.finish nowUs)), offer.2 = false) →
    ∃ slot', (m.finishStages nowUs).node.tpdo.slots[i]? = some slot' ∧
      slot'.trigger (m.finishStages nowUs).node.dirtySet = slot.trigger m.node.dirtySet

theorem polled_stage {nowUs : UInt64} (hop : m.state = .operational)
    (hi : m.node.tpdo.slots[i]? = some slot) (hdriven : slot.isEventDriven = true)
    (h : slot.lastSendUs.toNat ≤ nowUs.toNat) : Polled m i slot nowUs := by
  obtain ⟨accepted, hget, hdirty, hoffers⟩ := finish_polled hop nowUs hi
  refine ⟨?_, ?_, ?_⟩
  · rw [hoffers]
    exact (polled_frame hdriven h).1
  · rw [hoffers]
    exact (polled_frame hdriven h).2
  · intro hrefused
    refine ⟨_, hget, ?_⟩
    rw [hdirty]
    rw [hoffers] at hrefused
    rcases polled_cases slot m.node.od nowUs m.node.dirtySet accepted with
      ⟨hnot, -⟩ | ⟨-, -, heq⟩ | ⟨-, -, frame, -, heq⟩
    · rw [hdriven] at hnot
      cases hnot
    · rw [heq]
      exact (latchDirty_trigger slot _).1
    · rw [heq] at hrefused ⊢
      have hnot : accepted = false := hrefused (frame, accepted) List.mem_cons_self
      rw [hnot]
      exact (latchDirty_trigger slot _).1

/-- Event-driven PDOs. In every run in Operational with an unchanged configuration an
event-driven PDO is a rate-limited trigger, from the last frame of it that was accepted in
the whole history of the node. -/
theorem event_tpdos_triggered {config : NodeConfig} {od : OD} {n : Node OD evt dirty}
    (hn : Node.new config od = some n) {m₀ : Machine OD evt dirty} {calls₀ calls : List (Call OD)}
    (h₀ : (Machine.start n).run calls₀ = some m₀) (hop : m₀.state = .operational)
    (h : m₀.run calls = some m)
    (hs : Runs.along Machine.act (Machine.steady m₀.tpdoConfigs) m₀ (m₀.runActions calls) = true)
    (htimes : ((calls₀ ++ calls).filterMap Call.nowUs).Pairwise (· ≤ ·))
    (hi : m₀.node.tpdo.slots[i]? = some slot) (hdriven : slot.isEventDriven = true) :
    slot.lastSendUs.toNat = Trigger.lastAccepted 0 (Runs.log Machine.act (Machine.triggerTokens i)
      (Machine.start n) ((Machine.start n).runActions calls₀)) ∧
    ∀ before after, m₀.runActions calls = before ++ after → ∃ m₁ slot₁,
      m₀.acts before = some m₁ ∧ m₁.node.tpdo.slots[i]? = some slot₁ ∧
      slot₁.config = slot.config ∧
      Trigger.Guaranteed slot.timing (slot.trigger m₀.node.dirtySet)
        (Runs.log Machine.act (Machine.triggerTokens i) m₀ before)
        (slot₁.trigger m₁.node.dirtySet) ∧
      ∀ nowUs rest, after = .finish nowUs :: rest → Polled m₁ i slot₁ nowUs := by
  have hfinish : (0 :: (finishTimes ((Machine.start n).runActions calls₀) ++
      finishTimes (m₀.runActions calls))).Pairwise (· ≤ ·) := by
    rw [List.pairwise_cons]
    refine ⟨fun _ _ => Nat.zero_le _, ?_⟩
    refine List.Pairwise.sublist ((finishTimes_sublist _ calls₀).append
      (finishTimes_sublist m₀ calls)) ?_
    rw [← List.map_append, ← List.filterMap_append]
    exact List.pairwise_map.mpr (htimes.imp UInt64.le_iff_toNat_le.mp)
  rw [← List.cons_append, List.pairwise_append] at hfinish
  obtain ⟨clock, hclock, hsent⟩ := sentAt_run (sentAt_start hn i) hfinish.1 (run_acts h₀)
  rw [List.nil_append] at hsent
  have htimes₀ : (clock :: finishTimes (m₀.runActions calls)).Pairwise (· ≤ ·) :=
    List.pairwise_cons.mpr ⟨hfinish.2.2 clock hclock, hfinish.2.1⟩
  refine ⟨(hsent slot hi).1, ?_⟩
  intro before after heq
  have hrun := run_acts h
  change m₀.acts (m₀.runActions calls) = some m at hrun
  rw [heq] at hrun hs htimes₀
  obtain ⟨m₁, hbefore, hafter⟩ := Runs.run_append_eq_some.mp hrun
  obtain ⟨hs₀, hs₁⟩ := Runs.along_append hbefore hs
  have hsplit : clock :: finishTimes (before ++ after) =
      (clock :: finishTimes before) ++ finishTimes after := by
    rw [finishTimes, List.filterMap_append]
    rfl
  rw [hsplit, List.pairwise_append] at htimes₀
  have hsteady : Steady m₀.tpdoConfigs m₀ := ⟨hop, rfl⟩
  obtain ⟨hsteady₁, slot₁, hi₁, hconfig, hlaw⟩ :=
    law_run hsteady hs₀ hi hdriven hsent htimes₀.1 hbefore
  refine ⟨m₁, slot₁, hbefore, hi₁, hconfig, hlaw.guaranteed, ?_⟩
  rintro nowUs rest rfl
  obtain ⟨clock₁, hclock₁, hsent₁⟩ := sentAt_run hsent htimes₀.1 hbefore
  have hdriven₁ : slot₁.isEventDriven = true := by
    rw [isEventDriven_iff, hconfig]
    exact isEventDriven_iff.mp hdriven
  have hle : clock₁ ≤ nowUs.toNat := htimes₀.2.2 clock₁ hclock₁ _ List.mem_cons_self
  exact polled_stage hsteady₁.operational hi₁ hdriven₁ ((hsent₁ slot₁ hi₁).2.trans hle)

end Runs

/-! ## A run of the small device -/

/-- The sample drive sends its status word on a change. -/
def eventStatusConfig : NodeConfig :=
  { NodeConfig.fromOd sampleOd sampleNode with
    tpdo := [⟨1, 0x185, 255, 10, 0, [⟨0x6041, 0, 16⟩], true⟩] }

def startCalls : List (Call GeneratedOd) := [.process 0 [.literal 0x000 [1, 5]] []]

/-- Two changes, of which the transport refuses the first frame. -/
def changeCalls : List (Call GeneratedOd) :=
  [.notifyChanged 0x6041 0, .process 2000 [] [.wouldBlock], .notifyChanged 0x6041 0,
    .process 3000 [] []]

theorem event_tpdos_triggered_once : ∃ m₀ m : Machine GeneratedOd 4 4,
    m₀.run changeCalls = some m ∧
    Runs.log Machine.act (Machine.triggerTokens 0) m₀ (m₀.runActions changeCalls) =
      [.event, .offer 2000 false, .event, .offer 3000 true] ∧
    ∃ slot₀ slot, m₀.node.tpdo.slots[0]? = some slot₀ ∧ m.node.tpdo.slots[0]? = some slot ∧
      Trigger.Guaranteed slot₀.timing (slot₀.trigger m₀.node.dirtySet)
        (Runs.log Machine.act (Machine.triggerTokens 0) m₀ (m₀.runActions changeCalls))
        (slot.trigger m.node.dirtySet) := by
  have hany : ((Node.new eventStatusConfig sampleOd : Option (Node GeneratedOd 4 4)).bind fun n =>
      ((Machine.start n).run startCalls).bind fun m₀ => (m₀.run changeCalls).bind fun m =>
        m₀.node.tpdo.slots[0]?.map fun slot => (m₀, m, slot)).any (fun (m₀, _, slot) =>
          m₀.state == .operational &&
          Runs.along Machine.act (Machine.steady m₀.tpdoConfigs) m₀ (m₀.runActions changeCalls) &&
          slot.isEventDriven &&
          Runs.log Machine.act (Machine.triggerTokens 0) m₀ (m₀.runActions changeCalls) ==
            [.event, .offer 2000 false, .event, .offer 3000 true]) = true := by
    decide
  obtain ⟨⟨m₀, m, slot₀⟩, hrun, hp⟩ := (Option.any_eq_true _ _).mp hany
  obtain ⟨n, hn, hrun⟩ := Option.bind_eq_some_iff.mp hrun
  obtain ⟨_, h₀, hrun⟩ := Option.bind_eq_some_iff.mp hrun
  obtain ⟨_, h, hrun⟩ := Option.bind_eq_some_iff.mp hrun
  obtain ⟨_, hi, heq⟩ := Option.map_eq_some_iff.mp hrun
  cases heq
  simp only [Bool.and_eq_true, beq_iff_eq] at hp
  obtain ⟨⟨⟨hop, hsteady⟩, hdriven⟩, htokens⟩ := hp
  obtain ⟨m₁, slot, hm, hslot, -, hguaranteed, -⟩ :=
    (event_tpdos_triggered hn h₀ hop h hsteady (by decide) hi hdriven).2
      (m₀.runActions changeCalls) [] (List.append_nil _).symm
  cases hm.symm.trans (run_acts h)
  exact ⟨m₀, m, h, htokens, slot₀, slot, hi, hslot, hguaranteed⟩

end Canopen
