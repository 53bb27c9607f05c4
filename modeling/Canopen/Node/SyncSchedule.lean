import Canopen.Lib.Divisor
import Canopen.Lib.History
import Canopen.Node.TpdoSlots

/-!
# The schedule of synchronous transmit PDOs

A cyclic PDO is sampled when its divisor fires. A PDO of type 0 is sampled on the first
pulse after an application change; the change is latched at once and again from the dirty
set when a call begins, and the set is emptied before the next call.
-/

namespace Canopen

open Derive Pdo Sdo

variable {OD : Type} [ObjectDictionary OD] {evt dirty : ℕ}

/-- Whether a pulse samples the PDO. -/
def Pdo.TpdoSlot.samples (slot : TpdoSlot) : Bool :=
  slot.config.enabled &&
    if slot.config.transmissionType = 0 then slot.syncEventPending
    else slot.config.transmissionType ≤ 240 &&
      slot.config.transmissionType ≤ slot.syncCounter + 1

/-- What happens to a synchronous PDO: its objects change, or a pulse samples it or not. -/
inductive SyncToken
  | change
  | pulse (sampled : Bool)
  deriving DecidableEq, Repr

def SyncToken.isPulse : SyncToken → Bool
  | .pulse _ => true
  | .change => false

def SyncToken.flag : SyncToken → Option Bool
  | .pulse sampled => some sampled
  | .change => none

/-- Which pulses sampled the PDO. -/
def pulseFlags (tokens : List SyncToken) : List Bool := tokens.filterMap SyncToken.flag

def Machine.syncTokens (i : ℕ) (m : Machine OD evt dirty) (a : Action OD) : List SyncToken :=
  match m.node.tpdo.slots[i]? with
  | some slot => (if m.changes slot a then [.change] else []) ++
    if m.isSyncPulse a then [.pulse slot.samples] else []
  | none => []

theorem onSync_samples (slot : TpdoSlot) (od : OD) :
    (slot.onSync od).2 = if slot.samples then slot.buildPdoFrame od else none := by
  unfold TpdoSlot.onSync TpdoSlot.samples
  cases slot.config.enabled with
  | false => rfl
  | true =>
    by_cases hzero : slot.config.transmissionType = 0
    · cases slot.syncEventPending <;> simp [hzero]
    · by_cases hcyclic : slot.config.transmissionType ≤ 240
      · by_cases hdue : slot.config.transmissionType ≤ slot.syncCounter + 1 <;>
          simp [hzero, hcyclic, hdue]
      · simp [hzero, hcyclic]

/-! ## Changes and pulses -/

/-- A PDO of type 0: it is pending after a change, and a pulse samples it if it is pending.
The last argument tells whether it is pending in the end. -/
inductive Acyclic (pending : Bool) : List SyncToken → Bool → Prop
  | nil : Acyclic pending [] pending
  | change {tokens p} (h : Acyclic pending tokens p) : Acyclic pending (tokens ++ [.change]) true
  | pulse {tokens p} (h : Acyclic pending tokens p) : Acyclic pending (tokens ++ [.pulse p]) false

section Acyclic

variable {pending p q r : Bool} {tokens tokens' : List SyncToken}

theorem Acyclic.trans (h : Acyclic p tokens q) (h' : Acyclic q tokens' r) :
    Acyclic p (tokens ++ tokens') r := by
  induction h' with
  | nil =>
    rw [List.append_nil]
    exact h
  | change _ ih =>
    rw [← List.append_assoc]
    exact ih.change
  | pulse _ ih =>
    rw [← List.append_assoc]
    exact ih.pulse

theorem Acyclic.pending_iff (h : Acyclic pending tokens p) :
    p = true ↔ .change ∈ History.since SyncToken.isPulse tokens ∨
      (pending = true ∧ ∀ token ∈ tokens, token.isPulse = false) := by
  induction h with
  | nil => simp [History.since, History.sinceFrom]
  | @change tokens p h ih =>
    rw [History.since_append_of_not_cut tokens (by simp [SyncToken.isPulse])]
    simp
  | @pulse tokens p h ih =>
    rw [History.since_append_cut tokens rfl (by simp)]
    simp [SyncToken.isPulse]

theorem Acyclic.front (h : Acyclic pending (tokens ++ tokens') q) :
    ∃ p, Acyclic pending tokens p := by
  induction tokens' using List.reverseRecOn generalizing q with
  | nil =>
    rw [List.append_nil] at h
    exact ⟨q, h⟩
  | append_singleton tokens' token ih =>
    rw [← List.append_assoc] at h
    generalize hall : tokens ++ tokens' ++ [token] = all at h
    cases h with
    | nil => simp at hall
    | change h =>
      obtain ⟨rfl, -⟩ := List.append_inj' hall rfl
      exact ih h
    | pulse h =>
      obtain ⟨rfl, -⟩ := List.append_inj' hall rfl
      exact ih h

/-- A PDO of type 0 is sampled on the first pulse after a change and on no other one. -/
theorem Acyclic.at {sampled : Bool} (h : Acyclic pending (tokens ++ .pulse sampled :: tokens') q) :
    sampled = true ↔ .change ∈ History.since SyncToken.isPulse tokens ∨
      (pending = true ∧ ∀ token ∈ tokens, token.isPulse = false) := by
  rw [List.append_cons] at h
  obtain ⟨_, hfront⟩ := h.front
  generalize hall : tokens ++ [SyncToken.pulse sampled] = all at hfront
  cases hfront with
  | nil => simp at hall
  | change h' =>
    obtain ⟨-, hlast⟩ := List.append_inj' hall rfl
    cases hlast
  | pulse h' =>
    obtain ⟨rfl, hlast⟩ := List.append_inj' hall rfl
    cases hlast
    exact h'.pending_iff

end Acyclic

/-! ## Cyclic PDOs -/

section Cyclic

variable {configs : List TpdoConfig} {m m' : Machine OD evt dirty} {a : Action OD} {i : ℕ}
  {slot slot' : TpdoSlot} {dirtySet : List (UInt16 × UInt8)}

theorem syncTokens_eq (hi : m.node.tpdo.slots[i]? = some slot) (a : Action OD) :
    m.syncTokens i a = (if m.changes slot a then [.change] else []) ++
      if m.isSyncPulse a then [.pulse slot.samples] else [] := by
  rw [Machine.syncTokens, hi]

theorem pulseFlags_tokens (hi : m.node.tpdo.slots[i]? = some slot) (a : Action OD) :
    pulseFlags (m.syncTokens i a) = if m.isSyncPulse a then [slot.samples] else [] := by
  rw [syncTokens_eq hi]
  split_ifs <;> rfl

theorem polled_counter (slot : TpdoSlot) (od : OD) (nowUs : UInt64)
    (dirtySet : List (UInt16 × UInt8)) (accepted : Bool) :
    (slot.polled od nowUs dirtySet accepted).1.syncCounter = slot.syncCounter := by
  have hlatch := (latchDirty_kept slot dirtySet).2.2
  rcases polled_cases slot od nowUs dirtySet accepted with
    ⟨-, heq⟩ | ⟨-, -, heq⟩ | ⟨-, -, frame, -, heq⟩
  · rw [heq]
  · rw [heq]
    exact hlatch
  · rw [heq]
    cases accepted with
    | true => exact hlatch
    | false => exact hlatch

omit [ObjectDictionary OD] in
theorem latchEvent_counter (slot : TpdoSlot) :
    slot.latchEvent.syncCounter = slot.syncCounter := by
  unfold TpdoSlot.latchEvent
  split_ifs <;> rfl

/-- Only a pulse moves a divisor. -/
theorem SlotAct.counter (h : SlotAct m i slot a slot' dirtySet) (hp : m.isSyncPulse a = false) :
    slot'.syncCounter = slot.syncCounter := by
  cases h with
  | kept => rfl
  | latch =>
    unfold TpdoSlot.latchSyncEvent
    split_ifs <;> rfl
  | pulse od hpulse =>
    rw [hpulse] at hp
    cases hp
  | finish => exact polled_counter _ _ _ _ _
  | notified =>
    split_ifs
    · exact latchEvent_counter slot
    · rfl

theorem SlotAct.pulsed (h : SlotAct m i slot a slot' dirtySet) (hp : m.isSyncPulse a = true) :
    ∃ od : OD, slot' = (slot.onSync od).1 := by
  cases h with
  | kept _ hpulse =>
    rw [hpulse] at hp
    cases hp
  | latch => simp [Machine.isSyncPulse, Machine.isPulse] at hp
  | pulse od => exact ⟨od, rfl⟩
  | finish => simp [Machine.isSyncPulse, Machine.isPulse] at hp
  | notified => simp [Machine.isSyncPulse, Machine.isPulse] at hp

/-- The divisor of an enabled cyclic PDO is a `Divisor`. -/
theorem onSync_tick (hen : slot.config.enabled = true) (hlow : slot.config.transmissionType ≠ 0)
    (hhigh : slot.config.transmissionType ≤ 240) (hcounter : slot.syncCounter.toNat ≤ 239) (od : OD) :
    (slot.onSync od).1.syncCounter.toNat =
        (Divisor.tick slot.config.transmissionType.toNat slot.syncCounter.toNat).1 ∧
      slot.samples =
        (Divisor.tick slot.config.transmissionType.toNat slot.syncCounter.toNat).2 := by
  have hsucc : (slot.syncCounter + 1).toNat = slot.syncCounter.toNat + 1 := by
    rw [UInt8.toNat_add, UInt8.toNat_one, Nat.mod_eq_of_lt (by omega)]
  unfold TpdoSlot.onSync TpdoSlot.samples Divisor.tick
  by_cases hdue : slot.config.transmissionType ≤ slot.syncCounter + 1
  · have hdue' := UInt8.le_iff_toNat_le.mp hdue
    rw [hsucc] at hdue'
    simp [hen, hlow, hhigh, hdue, hdue']
  · have hdue' : ¬ slot.config.transmissionType.toNat ≤ slot.syncCounter.toNat + 1 := by
      rw [← hsucc, ← UInt8.le_iff_toNat_le]
      exact hdue
    simp [hen, hlow, hhigh, hdue, hdue', hsucc]

/-- The divisor of PDO `i` and the pulses it has counted. -/
structure Divided (configs : List TpdoConfig) (config : TpdoConfig) (i c₀ : ℕ)
    (tokens : List SyncToken) (m : Machine OD evt dirty) : Prop where
  steady : Steady configs m
  divisor : ∃ slot, m.node.tpdo.slots[i]? = some slot ∧ slot.config = config ∧
    slot.syncCounter.toNat ≤ 239 ∧
    Divisor.Fired config.transmissionType.toNat c₀ (pulseFlags tokens) slot.syncCounter.toNat

theorem Divided.step {config : TpdoConfig} {c₀ : ℕ} {tokens : List SyncToken}
    (hen : config.enabled = true) (hlow : config.transmissionType ≠ 0)
    (hhigh : config.transmissionType ≤ 240) (h : Divided configs config i c₀ tokens m)
    (hs : m.steady configs a = true) (ha : m.act a = some m') :
    Divided configs config i c₀ (tokens ++ m.syncTokens i a) m' := by
  obtain ⟨slot, hi, rfl, hcounter, hfired⟩ := h.divisor
  obtain ⟨slot', hi', hconfig, hact⟩ := h.steady.slot_act hs ha hi
  refine ⟨Steady.step hs ha, slot', hi', hconfig, ?_⟩
  have happend : pulseFlags (tokens ++ m.syncTokens i a) =
      pulseFlags tokens ++ pulseFlags (m.syncTokens i a) := List.filterMap_append
  rw [happend, pulseFlags_tokens hi]
  have ht : 0 < slot.config.transmissionType.toNat :=
    Nat.pos_of_ne_zero fun hzero => hlow (UInt8.toNat_inj.mp hzero)
  have ht' := UInt8.le_iff_toNat_le.mp hhigh
  cases hp : m.isSyncPulse a with
  | false =>
    rw [hact.counter hp, if_neg (by simp), List.append_nil]
    exact ⟨hcounter, hfired⟩
  | true =>
    obtain ⟨od, rfl⟩ := hact.pulsed hp
    obtain ⟨htick, hsamples⟩ := onSync_tick hen hlow hhigh hcounter od
    rw [htick, if_pos rfl, hsamples]
    refine ⟨?_, hfired.tick ht⟩
    unfold Divisor.tick
    split_ifs with hdue
    · exact Nat.zero_le _
    · change slot.syncCounter.toNat + 1 ≤ 239
      change slot.config.transmissionType.toNat ≤ 240 at ht'
      omega

end Cyclic

/-! ## Acyclic PDOs -/

/-- Whether an application event is pending for a PDO. Between two calls the dirty set is
counted. -/
def Pdo.TpdoSlot.eventPending (slot : TpdoSlot) (counted : Bool)
    (dirtySet : List (UInt16 × UInt8)) : Bool :=
  slot.syncEventPending || (counted && slot.hasDirtyMapping dirtySet)

structure Latched (configs : List TpdoConfig) (config : TpdoConfig) (i : ℕ) (counted p : Bool)
    (m : Machine OD evt dirty) : Prop where
  steady : Steady configs m
  event : ∃ slot, m.node.tpdo.slots[i]? = some slot ∧ slot.config = config ∧
    slot.eventPending counted m.node.dirtySet = p

/-- What happens between the first and the last stage of a processing call. -/
def Action.isInner : Action OD → Bool
  | .frame _ _ | .service _ | .produceSync _ => true
  | .boot _ _ | .expire _ | .finish _ | .call _ _ => false

variable (evt dirty) in
/-- A list of actions keeps to the law of acyclic PDOs. -/
def Tracks (configs : List TpdoConfig) (config : TpdoConfig) (i : ℕ) (counted counted' : Bool)
    (l : List (Action OD)) : Prop :=
  ∀ (m m' : Machine OD evt dirty) (p : Bool), Latched configs config i counted p m →
    Runs.along Machine.act (Machine.steady configs) m l = true → m.acts l = some m' →
    ∃ q, Acyclic p (Runs.log Machine.act (Machine.syncTokens i) m l) q ∧
      Latched configs config i counted' q m'

section Latch

variable {configs : List TpdoConfig} {config : TpdoConfig} {m m' : Machine OD evt dirty}
  {a : Action OD} {i : ℕ} {slot slot' : TpdoSlot} {dirtySet : List (UInt16 × UInt8)}
  {p counted counted' : Bool} {l l' : List (Action OD)}

theorem onSync_acyclic (hen : slot.config.enabled = true)
    (hzero : slot.config.transmissionType = 0) (od : OD) :
    (slot.onSync od).1.syncEventPending = false ∧ slot.samples = slot.syncEventPending := by
  unfold TpdoSlot.onSync TpdoSlot.samples
  cases hp : slot.syncEventPending with
  | false => simp [hen, hzero, hp]
  | true => simp [hen, hzero]

theorem syncTokens_idle (hi : m.node.tpdo.slots[i]? = some slot) (hc : m.changes slot a = false)
    (hp : m.isSyncPulse a = false) : m.syncTokens i a = [] := by
  rw [syncTokens_eq hi, hc, hp]
  rfl

theorem SlotAct.boot {nowUs : UInt64} {answers : List TxResult}
    (h : SlotAct m i slot (.boot nowUs answers) slot' dirtySet)
    (hi : m.node.tpdo.slots[i]? = some slot) :
    ∃ q, Acyclic (slot.eventPending counted m.node.dirtySet) (m.syncTokens i (.boot nowUs answers))
      q ∧ slot'.eventPending counted dirtySet = q := by
  cases h with
  | kept hidle hpulse =>
    rw [syncTokens_idle hi hidle hpulse]
    exact ⟨_, .nil, rfl⟩
  | pulse od hpulse => simp [Machine.isSyncPulse, Machine.isPulse] at hpulse

/-- The dirty set is latched before the first frame of a call. -/
theorem SlotAct.expire {nowUs : UInt64} (hen : slot.config.enabled = true)
    (hzero : slot.config.transmissionType = 0)
    (h : SlotAct m i slot (.expire nowUs) slot' dirtySet)
    (hi : m.node.tpdo.slots[i]? = some slot) :
    ∃ q, Acyclic (slot.eventPending true m.node.dirtySet) (m.syncTokens i (.expire nowUs)) q ∧
      slot'.eventPending false dirtySet = q := by
  have hnone : m.isSyncPulse (.expire nowUs) = false := Bool.and_false _
  rw [syncTokens_idle hi rfl hnone]
  refine ⟨_, .nil, ?_⟩
  cases h with
  | kept _ _ hexpire => exact absurd rfl (hexpire nowUs)
  | latch =>
    unfold TpdoSlot.latchSyncEvent TpdoSlot.eventPending
    cases hdirty : slot.hasDirtyMapping m.node.dirtySet with
    | false => simp
    | true => simp [hen, hzero]
  | pulse od hpulse => cases hnone.symm.trans hpulse

theorem SlotAct.inner (hen : slot.config.enabled = true)
    (hzero : slot.config.transmissionType = 0) (ha : a.isInner = true)
    (h : SlotAct m i slot a slot' dirtySet) (hi : m.node.tpdo.slots[i]? = some slot) :
    ∃ q, Acyclic (slot.eventPending false m.node.dirtySet) (m.syncTokens i a) q ∧
      slot'.eventPending false dirtySet = q := by
  cases h with
  | kept hidle hpulse =>
    rw [syncTokens_idle hi hidle hpulse]
    exact ⟨_, .nil, rfl⟩
  | latch => cases ha
  | pulse od hpulse hidle =>
    obtain ⟨hnext, hsamples⟩ := onSync_acyclic hen hzero od
    have hpending : slot.eventPending false m.node.dirtySet = slot.samples := by
      rw [TpdoSlot.eventPending, Bool.false_and, Bool.or_false, hsamples]
    have htokens : m.syncTokens i a = [] ++ [.pulse slot.samples] := by
      rw [syncTokens_eq hi, hidle, hpulse]
      rfl
    rw [hpending, htokens]
    refine ⟨false, .pulse .nil, ?_⟩
    rw [TpdoSlot.eventPending, hnext]
    rfl
  | finish => cases ha
  | notified => cases ha

/-- The dirty set is emptied at the end of a call. -/
theorem SlotAct.finished {nowUs : UInt64} (hzero : slot.config.transmissionType = 0)
    (h : SlotAct m i slot (.finish nowUs) slot' dirtySet)
    (hi : m.node.tpdo.slots[i]? = some slot) :
    ∃ q, Acyclic (slot.eventPending false m.node.dirtySet) (m.syncTokens i (.finish nowUs)) q ∧
      slot'.eventPending true dirtySet = q := by
  have hnone : m.isSyncPulse (.finish nowUs) = false := Bool.and_false _
  rw [syncTokens_idle hi rfl hnone]
  refine ⟨_, .nil, ?_⟩
  cases h with
  | kept _ _ _ hfinish => exact absurd rfl (hfinish nowUs)
  | pulse od hpulse => cases hnone.symm.trans hpulse
  | finish =>
    have hdriven : slot.isEventDriven = false := by simp [TpdoSlot.isEventDriven, hzero]
    have hpolled (accepted : Bool) :
        (slot.polled m.node.od nowUs m.node.dirtySet accepted).1 = slot := by
      rw [TpdoSlot.polled, if_pos (by rw [hdriven]; rfl)]
    rw [hpolled, TpdoSlot.eventPending, TpdoSlot.eventPending, Bool.false_and]
    rfl

/-- An application change makes the PDO pending. -/
theorem SlotAct.called {c : Call OD} {hc : c.isProcess = false}
    (hen : slot.config.enabled = true) (hzero : slot.config.transmissionType = 0)
    (h : SlotAct m i slot (.call c hc) slot' dirtySet) (hi : m.node.tpdo.slots[i]? = some slot) :
    ∃ q, Acyclic (slot.eventPending true m.node.dirtySet) (m.syncTokens i (.call c hc)) q ∧
      slot'.eventPending true dirtySet = q := by
  have hnone : m.isSyncPulse (.call c hc) = false := Bool.and_false _
  cases h with
  | kept hidle =>
    rw [syncTokens_idle hi hidle hnone]
    exact ⟨_, .nil, rfl⟩
  | pulse od hpulse => cases hnone.symm.trans hpulse
  | notified hdirty hkept =>
    cases hchange : m.changes slot (.call c hc) with
    | false =>
      rw [syncTokens_idle hi hchange hnone, if_neg (by simp)]
      refine ⟨_, .nil, ?_⟩
      have hsame : slot.hasDirtyMapping dirtySet = slot.hasDirtyMapping m.node.dirtySet := by
        rw [Bool.eq_iff_iff]
        exact ⟨fun hd => (hdirty hd).resolve_right (by rw [hchange]; nofun), hkept⟩
      rw [TpdoSlot.eventPending, TpdoSlot.eventPending, hsame]
    | true =>
      have htokens : m.syncTokens i (.call c hc) = [] ++ [.change] := by
        rw [syncTokens_eq hi, hchange, hnone]
        rfl
      rw [htokens, if_pos rfl]
      refine ⟨true, .change .nil, ?_⟩
      rw [TpdoSlot.eventPending, TpdoSlot.latchEvent]
      simp [hen, hzero]

/-- A single action, seen from the PDO. -/
theorem tracks_single (hstep : ∀ (m : Machine OD evt dirty) slot slot' dirtySet,
      slot.config = config → m.node.tpdo.slots[i]? = some slot → SlotAct m i slot a slot' dirtySet →
      ∃ q, Acyclic (slot.eventPending counted m.node.dirtySet) (m.syncTokens i a) q ∧
        slot'.eventPending counted' dirtySet = q) :
    Tracks evt dirty configs config i counted counted' [a] := by
  intro m m' p h hs ha
  obtain ⟨m₁, ha, hnil⟩ := Runs.run_cons.mp ha
  cases hnil
  rw [Runs.along, Bool.and_eq_true] at hs
  obtain ⟨slot, hi, hslot, rfl⟩ := h.event
  obtain ⟨slot', hi', hconfig, hact⟩ := h.steady.slot_act hs.1 ha hi
  obtain ⟨q, hacyclic, hnext⟩ := hstep m slot slot' _ hslot hi hact
  rw [Runs.log, ha]
  change ∃ q, Acyclic _ (m.syncTokens i a ++ []) q ∧ _
  rw [List.append_nil]
  exact ⟨q, hacyclic, Steady.step hs.1 ha, slot', hi', hconfig.trans hslot, hnext⟩

theorem tracks_nil : Tracks evt dirty configs config i counted counted ([] : List (Action OD)) := by
  intro m m' p h _ ha
  cases ha
  exact ⟨p, .nil, h⟩

theorem Tracks.append {counted₁ : Bool} (h : Tracks evt dirty configs config i counted counted₁ l)
    (h' : Tracks evt dirty configs config i counted₁ counted' l') :
    Tracks evt dirty configs config i counted counted' (l ++ l') := by
  intro m m' p hm hs ha
  obtain ⟨m₁, hfront, hback⟩ := Runs.run_append_eq_some.mp ha
  obtain ⟨hs, hs'⟩ := Runs.along_append hfront hs
  obtain ⟨q, hacyclic, hm₁⟩ := h m m₁ p hm hs hfront
  obtain ⟨r, hacyclic', hm'⟩ := h' m₁ m' q hm₁ hs' hback
  rw [Runs.log_append hfront]
  exact ⟨r, hacyclic.trans hacyclic', hm'⟩

theorem tracks_inner (hen : config.enabled = true) (hzero : config.transmissionType = 0)
    (hl : ∀ a ∈ l, a.isInner = true) : Tracks evt dirty configs config i false false l := by
  induction l with
  | nil => exact tracks_nil
  | cons a l ih =>
    have hfirst : Tracks evt dirty configs config i false false [a] := by
      apply tracks_single
      rintro m slot slot' dirtySet rfl hi hact
      exact hact.inner hen hzero (hl a List.mem_cons_self) hi
    exact hfirst.append (ih fun b hb => hl b (List.mem_cons_of_mem a hb))

/-- The actions of a call keep to the law. -/
theorem tracks_actions (hen : config.enabled = true) (hzero : config.transmissionType = 0)
    (m : Machine OD evt dirty) (c : Call OD) :
    Tracks evt dirty configs config i true true (m.actions c) := by
  have hcall (c : Call OD) (hc : c.isProcess = false) :
      Tracks evt dirty configs config i true true [.call c hc] := by
    apply tracks_single
    rintro m slot slot' dirtySet rfl hi hact
    exact hact.called hen hzero hi
  cases c with
  | process nowUs rx answers =>
    have hboot : Tracks evt dirty configs config i true true
        ([.boot nowUs answers] : List (Action OD)) := by
      apply tracks_single
      rintro m slot slot' dirtySet rfl hi hact
      exact hact.boot hi
    have hexpire : Tracks evt dirty configs config i true false
        ([.expire nowUs] : List (Action OD)) := by
      apply tracks_single
      rintro m slot slot' dirtySet rfl hi hact
      exact hact.expire hen hzero hi
    have hinner : Tracks evt dirty configs config i false false
        (rx.map (.frame nowUs) ++ [.service nowUs, .produceSync nowUs] : List (Action OD)) := by
      apply tracks_inner hen hzero
      intro a ha
      rcases List.mem_append.mp ha with ha | ha
      · obtain ⟨frame, -, rfl⟩ := List.mem_map.mp ha
        rfl
      · simp only [List.mem_cons, List.not_mem_nil, or_false] at ha
        rcases ha with rfl | rfl
        · rfl
        · rfl
    have hfinish : Tracks evt dirty configs config i false true
        ([.finish nowUs] : List (Action OD)) := by
      apply tracks_single
      rintro m slot slot' dirtySet rfl hi hact
      exact hact.finished hzero hi
    have hrunning := hboot.append (hexpire.append (hinner.append hfinish))
    rw [Machine.actions]
    split_ifs
    · rw [List.append_assoc] at hrunning
      exact hrunning
    · exact hboot
  | requestReset resetType => exact hcall _ rfl
  | notifyChanged index subindex => exact hcall _ rfl
  | setError code bits data => exact hcall _ rfl
  | clearError bits => exact hcall _ rfl
  | clearAllErrors => exact hcall _ rfl
  | odMut f => exact hcall _ rfl
  | nextEvent => exact hcall _ rfl
  | nextHeartbeatEvent => exact hcall _ rfl
  | takeResetEvent => exact hcall _ rfl

theorem tracks_run (hen : config.enabled = true) (hzero : config.transmissionType = 0)
    (m : Machine OD evt dirty) (calls : List (Call OD)) :
    Tracks evt dirty configs config i true true
      (Runs.log Machine.call Machine.actions m calls) := by
  induction calls generalizing m with
  | nil => exact tracks_nil
  | cons c calls ih =>
    rw [Runs.log]
    apply (tracks_actions hen hzero m c).append
    cases m.call c with
    | none => exact tracks_nil
    | some m' => exact ih m'

end Latch

/-! ## Any history -/

/-- The application reconfigures transmit PDOs: their run-time state stays. -/
def Reconfigured (m m' : Machine OD evt dirty) : Prop :=
  ∃ slots : List TpdoSlot, slots.map TpdoSlot.runtime = m.node.tpdo.slots.map TpdoSlot.runtime ∧
    m' = { m with node := { m.node with tpdo := ⟨slots⟩ } }

/-- What a node can become by actions and reconfigurations in any order. -/
def Becomes : Machine OD evt dirty → Machine OD evt dirty → Prop :=
  Relation.ReflTransGen fun m m' => (∃ a, m.act a = some m') ∨ Reconfigured m m'

/-- The divisors stay below the largest transmission type of a cyclic PDO. -/
def DivisorsBounded (m : Machine OD evt dirty) : Prop :=
  ∀ r ∈ m.node.pdoRuntime.tpdo, r.syncCounter ≤ 239

section Bound

variable {m m' : Machine OD evt dirty} {a : Action OD}

omit [ObjectDictionary OD] in
theorem divisorsBounded_iff : DivisorsBounded m ↔
    ∀ slot ∈ m.node.tpdo.slots, slot.syncCounter ≤ 239 := by
  unfold DivisorsBounded
  simp only [Node.pdoRuntime, List.mem_map, forall_exists_index, and_imp, forall_apply_eq_imp_iff₂]
  rfl

omit [ObjectDictionary OD] in
theorem divisorsBounded_map {f : TpdoSlot → TpdoSlot} (h : DivisorsBounded m)
    (hslots : m'.node.tpdo.slots = m.node.tpdo.slots.map f)
    (hf : ∀ slot : TpdoSlot, slot.syncCounter ≤ 239 → (f slot).syncCounter ≤ 239) :
    DivisorsBounded m' := by
  rw [divisorsBounded_iff] at h ⊢
  intro slot hslot
  rw [hslots] at hslot
  obtain ⟨slot₀, hslot₀, rfl⟩ := List.mem_map.mp hslot
  exact hf slot₀ (h slot₀ hslot₀)

theorem onSync_bounded (od : OD) (slot : TpdoSlot) (h : slot.syncCounter ≤ 239) :
    (slot.onSync od).1.syncCounter ≤ 239 := by
  by_cases hcyclic : slot.config.enabled = true ∧ slot.config.transmissionType ≠ 0 ∧
      slot.config.transmissionType ≤ 240
  · have hcounter : slot.syncCounter.toNat ≤ 239 := UInt8.le_iff_toNat_le.mp h
    have htype : slot.config.transmissionType.toNat ≤ 240 :=
      UInt8.le_iff_toNat_le.mp hcyclic.2.2
    rw [UInt8.le_iff_toNat_le, (onSync_tick hcyclic.1 hcyclic.2.1 hcyclic.2.2 hcounter od).1]
    unfold Divisor.tick
    split_ifs with hdue
    · exact Nat.zero_le _
    · change slot.syncCounter.toNat + 1 ≤ 239
      omega
  · have hsame : (slot.onSync od).1.syncCounter = slot.syncCounter := by
      unfold TpdoSlot.onSync
      dsimp only
      split_ifs
      · rfl
      · rfl
      · rfl
      · exact absurd ⟨by simp_all, ‹_›, ‹_›⟩ hcyclic
      · exact absurd ⟨by simp_all, ‹_›, ‹_›⟩ hcyclic
      · rfl
    rwa [hsame]

theorem finish_bounded (h : DivisorsBounded m) (hop : m.state = .operational) (nowUs : UInt64) :
    DivisorsBounded (m.finishStages nowUs) := by
  rw [divisorsBounded_iff] at h ⊢
  intro slot' hslot'
  obtain ⟨i, hi'⟩ := List.mem_iff_getElem?.mp hslot'
  have hlt := (List.getElem?_eq_some_iff.mp hi').1
  rw [finish_length hop] at hlt
  have hi : m.node.tpdo.slots[i]? = some m.node.tpdo.slots[i] := List.getElem?_eq_getElem hlt
  obtain ⟨accepted, hpolled, -, -⟩ := finish_polled hop nowUs hi
  cases hi'.symm.trans hpolled
  rw [polled_counter]
  exact h _ (List.getElem_mem hlt)

theorem act_bounded (h : DivisorsBounded m) (ha : m.act a = some m') : DivisorsBounded m' := by
  have hdiscarded (hd : Discarded m m') : DivisorsBounded m' := by
    unfold DivisorsBounded at h ⊢
    rcases hd.runtime with hruntime | hruntime
    · rw [hruntime]
      intro r hr
      obtain ⟨r₀, hr₀, rfl⟩ := List.mem_map.mp hr
      exact h r₀ hr₀
    · rw [hruntime]
      intro r hr
      obtain ⟨r, -, rfl⟩ := List.mem_map.mp hr
      exact UInt8.le_iff_toNat_le.mpr (Nat.zero_le _)
  cases act_pdo ha with
  | untouched _ _ _ _ hu =>
    rw [DivisorsBounded, hu.runtime]
    exact h
  | discarded _ _ _ hd => exact hdiscarded hd
  | latch hu =>
    rw [DivisorsBounded, hu.runtime]
    apply divisorsBounded_map h (latchSyncEvents_slots m)
    intro slot hslot
    unfold TpdoSlot.latchSyncEvent
    split_ifs
    · exact hslot
    · exact hslot
  | receive hs =>
    rw [divisorsBounded_iff, (receiveRpdo_tpdo m _ _ _ _).1]
    exact divisorsBounded_iff.mp h
  | @pulse _ m₁ nowUs hp hop hnow hq =>
    exact divisorsBounded_map h (pulse_slots hq) (onSync_bounded _)
  | @finish nowUs =>
    by_cases hop : m.state = .operational
    · exact finish_bounded h hop nowUs
    · exact hdiscarded (finishStages_discarded hop nowUs)
  | notified hn =>
    apply divisorsBounded_map h hn.slots
    intro slot hslot
    split_ifs
    · rw [latchEvent_counter]
      exact hslot
    · exact hslot

theorem becomes_bounded (h : DivisorsBounded m) (hm : Becomes m m') : DivisorsBounded m' := by
  induction hm with
  | refl => exact h
  | tail _ hstep ih =>
    rcases hstep with ⟨a, ha⟩ | ⟨slots, hslots, rfl⟩
    · exact act_bounded ih ha
    · rw [DivisorsBounded, Node.pdoRuntime, hslots]
      exact ih

theorem divisorsBounded_start {config : NodeConfig} {od : OD} {n : Node OD evt dirty}
    (hn : Node.new config od = some n) : DivisorsBounded (Machine.start n) := by
  have hruntime : (Machine.start n).node.pdoRuntime =
      (Node.initial config od : Node OD evt dirty).pdoRuntime := new_runtime hn
  have hnew (pdo : TpdoConfig) : (TpdoSlot.new pdo).runtime.syncCounter ≤ 239 :=
    UInt8.le_iff_toNat_le.mpr (Nat.zero_le _)
  rw [DivisorsBounded, hruntime]
  intro r hr
  obtain ⟨slot, hslot, rfl⟩ := List.mem_map.mp hr
  obtain ⟨pdo, -, rfl⟩ := List.mem_map.mp hslot
  exact hnew pdo

end Bound

/-! ## The schedule -/

/-- The pulses of a run sample a PDO when it is due, given its state before the run. -/
structure Scheduled (slot : TpdoSlot) (dirtySet : List (UInt16 × UInt8))
    (tokens : List SyncToken) : Prop where
  /-- Pulse `j` is sampled when it completes a multiple of the type. A count that is too
  high after a change of the type is as good as one pulse before the next multiple. -/
  cyclic : slot.config.transmissionType ≠ 0 → slot.config.transmissionType ≤ 240 →
    pulseFlags tokens = (List.range (pulseFlags tokens).length).map fun j =>
      decide (slot.config.transmissionType.toNat ∣
        min slot.syncCounter.toNat (slot.config.transmissionType.toNat - 1) + j + 1)
  within : slot.config.transmissionType ≠ 0 → slot.config.transmissionType ≤ 240 →
    slot.config.transmissionType.toNat ≤ (pulseFlags tokens).length →
    true ∈ (pulseFlags tokens).take slot.config.transmissionType.toNat
  /-- A pulse is sampled when a change happened since the pulse before it, or was pending
  already when the run began. -/
  acyclic : slot.config.transmissionType = 0 → ∀ before sampled after,
    tokens = before ++ .pulse sampled :: after →
    (sampled = true ↔ .change ∈ History.since SyncToken.isPulse before ∨
      (slot.eventPending true dirtySet = true ∧ ∀ token ∈ before, token.isPulse = false))

section Schedule

variable {m₀ m : Machine OD evt dirty} {calls : List (Call OD)} {i : ℕ} {slot : TpdoSlot}

theorem scheduled_run (hbounded : DivisorsBounded m₀) (hop : m₀.state = .operational)
    (h : m₀.run calls = some m)
    (hs : Runs.along Machine.act (Machine.steady m₀.tpdoConfigs) m₀ (m₀.runActions calls) = true)
    (hi : m₀.node.tpdo.slots[i]? = some slot) (hen : slot.config.enabled = true) :
    Scheduled slot m₀.node.dirtySet
      (Runs.log Machine.act (Machine.syncTokens i) m₀ (m₀.runActions calls)) := by
  have hsteady : Steady m₀.tpdoConfigs m₀ := ⟨hop, rfl⟩
  have hcounter : slot.syncCounter.toNat ≤ 239 :=
    UInt8.le_iff_toNat_le.mp (divisorsBounded_iff.mp hbounded slot (List.mem_of_getElem? hi))
  have hfired (hlow : slot.config.transmissionType ≠ 0)
      (hhigh : slot.config.transmissionType ≤ 240) :
      0 < slot.config.transmissionType.toNat ∧ ∃ c,
        Divisor.Fired slot.config.transmissionType.toNat slot.syncCounter.toNat
          (pulseFlags (Runs.log Machine.act (Machine.syncTokens i) m₀ (m₀.runActions calls))) c := by
    have ht : 0 < slot.config.transmissionType.toNat :=
      Nat.pos_of_ne_zero fun hzero => hlow (UInt8.toNat_inj.mp hzero)
    have hstart : Divided m₀.tpdoConfigs slot.config i slot.syncCounter.toNat [] m₀ :=
      ⟨hsteady, slot, hi, rfl, hcounter, Divisor.fired_start ht _⟩
    have hrun := Runs.run_inv (fun tokens m a m' hinv hs ha => hinv.step hen hlow hhigh hs ha)
      hstart hs (run_acts h)
    obtain ⟨slot', -, -, -, hfired⟩ := hrun.divisor
    exact ⟨ht, _, hfired⟩
  refine ⟨?_, ?_, ?_⟩
  · intro hlow hhigh
    obtain ⟨-, c, hfired⟩ := hfired hlow hhigh
    exact hfired.fired
  · intro hlow hhigh hlen
    obtain ⟨ht, c, hfired⟩ := hfired hlow hhigh
    exact hfired.within ht hlen
  · intro hzero before sampled after heq
    have hlatched : Latched m₀.tpdoConfigs slot.config i true
        (slot.eventPending true m₀.node.dirtySet) m₀ := ⟨hsteady, slot, hi, rfl, rfl⟩
    obtain ⟨q, hacyclic, -⟩ := tracks_run hen hzero m₀ calls m₀ m _ hlatched hs (run_acts h)
    rw [heq] at hacyclic
    exact hacyclic.at

/-- The schedule of synchronous PDOs. In every run in Operational with an unchanged
configuration a pulse samples a cyclic PDO when its divisor fires, and a PDO of type 0 on
the first pulse after a change. However the PDOs were configured before, no divisor is
above 239. -/
theorem sync_tpdos_scheduled {config : NodeConfig} {od : OD} {n : Node OD evt dirty}
    (hn : Node.new config od = some n) (h₀ : Becomes (Machine.start n) m₀)
    (hop : m₀.state = .operational) (h : m₀.run calls = some m)
    (hs : Runs.along Machine.act (Machine.steady m₀.tpdoConfigs) m₀ (m₀.runActions calls) = true) :
    (∀ slot ∈ m₀.node.tpdo.slots, slot.syncCounter ≤ 239) ∧
    (∀ i slot, m₀.node.tpdo.slots[i]? = some slot → slot.config.enabled = true →
      Scheduled slot m₀.node.dirtySet
        (Runs.log Machine.act (Machine.syncTokens i) m₀ (m₀.runActions calls))) ∧
    ∀ (m₁ m₂ : Machine OD evt dirty) (a : Action OD), m₁.isSyncPulse a = true →
      m₁.act a = some m₂ → (m₁.observed a).filterMap Obs.sampled =
        [m₁.node.tpdo.slots.filterMap fun slot =>
          if slot.samples then slot.buildPdoFrame m₂.node.od else none] := by
  have hbounded := becomes_bounded (divisorsBounded_start hn) h₀
  refine ⟨divisorsBounded_iff.mp hbounded, ?_, ?_⟩
  · intro i slot hi hen
    exact scheduled_run hbounded hop h hs hi hen
  · intro m₁ m₂ a hp ha
    rw [pulse_sampled hp ha, TpdoEngine.onSync]
    simp only [onSync_samples]

end Schedule

/-! ## A run of the small device -/

/-- The sample drive sends its status word on every second SYNC. -/
def halfRateConfig : NodeConfig :=
  { NodeConfig.fromOd sampleOd sampleNode with
    tpdo := [⟨1, 0x185, 2, 0, 0, [⟨0x6041, 0, 16⟩], true⟩] }

def syncCalls : List (Call GeneratedOd) :=
  [.process 10 [.literal 0x080 []] [],
    .process 20 [.literal 0x080 []] []]

theorem becomes_acts {m m' : Machine OD evt dirty} {l : List (Action OD)}
    (h : m.acts l = some m') : Becomes m m' := by
  induction l generalizing m with
  | nil =>
    cases h
    exact .refl
  | cons a l ih =>
    obtain ⟨m₁, ha, hl⟩ := Runs.run_cons.mp h
    exact .head (.inl ⟨a, ha⟩) (ih hl)

theorem sync_tpdos_scheduled_twice : ∃ m₀ m : Machine GeneratedOd 4 4,
    m₀.run syncCalls = some m ∧ ∃ slot, m₀.node.tpdo.slots[0]? = some slot ∧
      slot.config.transmissionType = 2 ∧
      Scheduled slot m₀.node.dirtySet
        (Runs.log Machine.act (Machine.syncTokens 0) m₀ (m₀.runActions syncCalls)) ∧
      pulseFlags (Runs.log Machine.act (Machine.syncTokens 0) m₀ (m₀.runActions syncCalls)) =
        [false, true] := by
  have hany : ((Node.new halfRateConfig sampleOd : Option (Node GeneratedOd 4 4)).bind fun n =>
      ((Machine.start n).acts startActions).bind fun m₀ =>
      (m₀.run syncCalls).bind fun m => m₀.node.tpdo.slots[0]?.map fun slot =>
        (m₀, m, slot)).any (fun (m₀, _, slot) => m₀.state == .operational &&
          Runs.along Machine.act (Machine.steady m₀.tpdoConfigs) m₀ (m₀.runActions syncCalls) &&
          slot.config.enabled && slot.config.transmissionType == 2 &&
          pulseFlags (Runs.log Machine.act (Machine.syncTokens 0) m₀
            (m₀.runActions syncCalls)) == [false, true]) = true := by
    decide
  obtain ⟨⟨m₀, m, slot⟩, hrun, hp⟩ := (Option.any_eq_true _ _).mp hany
  obtain ⟨n, hn, hrun⟩ := Option.bind_eq_some_iff.mp hrun
  obtain ⟨_, h₀, hrun⟩ := Option.bind_eq_some_iff.mp hrun
  obtain ⟨_, h, hrun⟩ := Option.bind_eq_some_iff.mp hrun
  obtain ⟨_, hi, heq⟩ := Option.map_eq_some_iff.mp hrun
  cases heq
  simp only [Bool.and_eq_true, beq_iff_eq] at hp
  obtain ⟨⟨⟨⟨hop, hsteady⟩, hen⟩, htype⟩, hflags⟩ := hp
  have hscheduled := (sync_tpdos_scheduled hn (becomes_acts h₀) hop h hsteady).2.1 0 slot hi hen
  exact ⟨m₀, m, h, slot, hi, htype, hscheduled, hflags⟩

end Canopen
