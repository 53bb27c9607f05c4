import Canopen.Derive.Store
import Canopen.Node.Process

/-!
# Re-synchronising the PDO configuration

`sync_pdo_from_od` takes every field of a PDO over from its object when that can be read. The
communication parameters of a PDO the dictionary does not describe stay as they are, but its
mapping list is cleared before the mapping record is read.
-/

namespace Canopen

open Pdo Derive

variable {OD : Type} [ObjectDictionary OD] {evt dirty : ℕ}

attribute [ext] TpdoConfig RpdoConfig

/-- The object cannot be read into a buffer of `n` bytes. -/
def Unreadable (od : OD) (index : UInt16) (sub : UInt8) (n : ℕ) : Prop :=
  ∀ buf : FixedBuffer UInt8 n, (readInto od index sub buf).1 = false

/-- The fields of a transmit PDO whose objects cannot be read are as before. -/
structure TpdoKept (od : OD) (slot : ℕ) (c c' : TpdoConfig) : Prop where
  number : c'.odNumber = c.odNumber
  cobId : Unreadable od (0x1800 + pdoOdOffset c.odNumber slot) 1 4 →
    c'.cobId = c.cobId ∧ c'.enabled = c.enabled
  transmissionType : Unreadable od (0x1800 + pdoOdOffset c.odNumber slot) 2 4 →
    c'.transmissionType = c.transmissionType
  inhibitTime : Unreadable od (0x1800 + pdoOdOffset c.odNumber slot) 3 2 →
    c'.inhibitTime100us = c.inhibitTime100us
  eventTimer : Unreadable od (0x1800 + pdoOdOffset c.odNumber slot) 5 2 →
    c'.eventTimerMs = c.eventTimerMs
  mappings : Unreadable od (0x1A00 + pdoOdOffset c.odNumber slot) 0 4 → c'.mappings = c.mappings

/-- The fields of a receive PDO whose objects cannot be read are as before. -/
structure RpdoKept (od : OD) (slot : ℕ) (c c' : RpdoConfig) : Prop where
  number : c'.odNumber = c.odNumber
  cobId : Unreadable od (0x1400 + pdoOdOffset c.odNumber slot) 1 4 →
    c'.cobId = c.cobId ∧ c'.enabled = c.enabled
  transmissionType : Unreadable od (0x1400 + pdoOdOffset c.odNumber slot) 2 4 →
    c'.transmissionType = c.transmissionType
  deadline : Unreadable od (0x1400 + pdoOdOffset c.odNumber slot) 5 2 → c'.deadlineMs = c.deadlineMs
  mappings : Unreadable od (0x1600 + pdoOdOffset c.odNumber slot) 0 4 → c'.mappings = c.mappings

/-! ## One PDO -/

section Config

variable {od : OD}

theorem readMappingRecord_unreadable {mapIdx : UInt16} (h : Unreadable od mapIdx 0 4)
    (buf : FixedBuffer UInt8 4) : (readMappingRecord od mapIdx buf).1 = [] := by
  unfold readMappingRecord
  dsimp only
  rw [h buf]
  rfl

theorem syncTpdoConfig_mappings (od : OD) (slot : ℕ) (c : TpdoConfig) (b : ReadBufs) :
    ∃ buf, (syncTpdoConfig od slot c b).1.mappings =
      (readMappingRecord od (0x1A00 + pdoOdOffset c.odNumber slot) buf).1 :=
  ⟨_, rfl⟩

theorem syncRpdoConfig_mappings (od : OD) (slot : ℕ) (c : RpdoConfig) (b : ReadBufs) :
    ∃ buf, (syncRpdoConfig od slot c b).1.mappings =
      (readMappingRecord od (0x1600 + pdoOdOffset c.odNumber slot) buf).1 :=
  ⟨_, rfl⟩

/-- The fields are kept exactly when a mapping list that is not described is empty. -/
theorem tpdoKept_iff (od : OD) (slot : ℕ) (c : TpdoConfig) (b : ReadBufs) :
    TpdoKept od slot c (syncTpdoConfig od slot c b).1 ↔
      (Unreadable od (0x1A00 + pdoOdOffset c.odNumber slot) 0 4 → c.mappings = []) := by
  obtain ⟨buf, hmappings⟩ := syncTpdoConfig_mappings od slot c b
  constructor
  · intro h hun
    rw [← h.mappings hun, hmappings, readMappingRecord_unreadable hun]
  · intro h
    refine ⟨?_, ?_, ?_, ?_, ?_, ?_⟩
    · simp only [syncTpdoConfig]
      split_ifs <;> rfl
    · intro hun
      simp only [syncTpdoConfig, hun _, Bool.false_eq_true, if_false]
      split_ifs <;> exact ⟨rfl, rfl⟩
    · intro hun
      simp only [syncTpdoConfig, hun _, Bool.false_eq_true, if_false]
      split_ifs <;> rfl
    · intro hun
      simp only [syncTpdoConfig, hun _, Bool.false_eq_true, if_false]
      split_ifs <;> rfl
    · intro hun
      simp only [syncTpdoConfig, hun _, Bool.false_eq_true, if_false]
      split_ifs <;> rfl
    · intro hun
      rw [hmappings, readMappingRecord_unreadable hun, h hun]

theorem rpdoKept_iff (od : OD) (slot : ℕ) (c : RpdoConfig) (b : ReadBufs) :
    RpdoKept od slot c (syncRpdoConfig od slot c b).1 ↔
      (Unreadable od (0x1600 + pdoOdOffset c.odNumber slot) 0 4 → c.mappings = []) := by
  obtain ⟨buf, hmappings⟩ := syncRpdoConfig_mappings od slot c b
  constructor
  · intro h hun
    rw [← h.mappings hun, hmappings, readMappingRecord_unreadable hun]
  · intro h
    refine ⟨?_, ?_, ?_, ?_, ?_⟩
    · simp only [syncRpdoConfig]
      split_ifs <;> rfl
    · intro hun
      simp only [syncRpdoConfig, hun _, Bool.false_eq_true, if_false]
      split_ifs <;> exact ⟨rfl, rfl⟩
    · intro hun
      simp only [syncRpdoConfig, hun _, Bool.false_eq_true, if_false]
      split_ifs <;> rfl
    · intro hun
      simp only [syncRpdoConfig, hun _, Bool.false_eq_true, if_false]
      split_ifs <;> rfl
    · intro hun
      rw [hmappings, readMappingRecord_unreadable hun, h hun]

/-! ## All PDOs -/

theorem syncTpdoSlots_getElem? (od : OD) (n : ℕ) (slots : List TpdoSlot) (b : ReadBufs) (k : ℕ) :
    ∃ b', (syncTpdoSlots od n slots b).1[k]? = slots[k]?.map fun s =>
      { s with config := (syncTpdoConfig od (n + k) s.config b').1 } := by
  induction slots generalizing n b k with
  | nil => exact ⟨b, rfl⟩
  | cons slot slots ih =>
    cases k with
    | zero => exact ⟨b, rfl⟩
    | succ k =>
      obtain ⟨b', hb'⟩ := ih (n + 1) (syncTpdoConfig od n slot.config b).2 k
      rw [Nat.add_right_comm] at hb'
      exact ⟨b', hb'⟩

theorem syncRpdoSlots_getElem? (od : OD) (n : ℕ) (slots : List RpdoSlot) (b : ReadBufs) (k : ℕ) :
    ∃ b', (syncRpdoSlots od n slots b).1[k]? = slots[k]?.map fun s =>
      { s with config := (syncRpdoConfig od (n + k) s.config b').1 } := by
  induction slots generalizing n b k with
  | nil => exact ⟨b, rfl⟩
  | cons slot slots ih =>
    cases k with
    | zero => exact ⟨b, rfl⟩
    | succ k =>
      obtain ⟨b', hb'⟩ := ih (n + 1) (syncRpdoConfig od n slot.config b).2 k
      rw [Nat.add_right_comm] at hb'
      exact ⟨b', hb'⟩

end Config

namespace Node

/-- The configurations of the two engines, in slot order. -/
def tpdoConfigs (n : Node OD evt dirty) : List TpdoConfig := n.tpdo.slots.map (·.config)

def rpdoConfigs (n : Node OD evt dirty) : List RpdoConfig := n.rpdo.slots.map (·.config)

/-- What the dictionary of `n` does not describe is in `n'` as in `n`. -/
structure KeepsUndescribed (n n' : Node OD evt dirty) : Prop where
  tpdoCount : n'.tpdoConfigs.length = n.tpdoConfigs.length
  rpdoCount : n'.rpdoConfigs.length = n.rpdoConfigs.length
  tpdo : ∀ (k : ℕ) c c', n.tpdoConfigs[k]? = some c → n'.tpdoConfigs[k]? = some c' →
    TpdoKept n.od k c c'
  rpdo : ∀ (k : ℕ) c c', n.rpdoConfigs[k]? = some c → n'.rpdoConfigs[k]? = some c' →
    RpdoKept n.od k c c'

/-- A PDO whose mapping record is not described maps nothing. -/
structure UndescribedUnmapped (n : Node OD evt dirty) : Prop where
  tpdo : ∀ (k : ℕ) c, n.tpdoConfigs[k]? = some c →
    Unreadable n.od (0x1A00 + pdoOdOffset c.odNumber k) 0 4 → c.mappings = []
  rpdo : ∀ (k : ℕ) c, n.rpdoConfigs[k]? = some c →
    Unreadable n.od (0x1600 + pdoOdOffset c.odNumber k) 0 4 → c.mappings = []

/-- The dictionary has no record for any PDO of the node. -/
structure NoPdoRecords (n : Node OD evt dirty) : Prop where
  tpdo : ∀ (k : ℕ) c, n.tpdoConfigs[k]? = some c → ∀ sub size,
    Unreadable n.od (0x1800 + pdoOdOffset c.odNumber k) sub size ∧
      Unreadable n.od (0x1A00 + pdoOdOffset c.odNumber k) sub size
  rpdo : ∀ (k : ℕ) c, n.rpdoConfigs[k]? = some c → ∀ sub size,
    Unreadable n.od (0x1400 + pdoOdOffset c.odNumber k) sub size ∧
      Unreadable n.od (0x1600 + pdoOdOffset c.odNumber k) sub size

variable (n : Node OD evt dirty)

theorem tpdoConfigs_syncPdoFromOd (k : ℕ) : ∃ b, n.syncPdoFromOd.tpdoConfigs[k]? =
    n.tpdoConfigs[k]?.map fun c => (syncTpdoConfig n.od k c b).1 := by
  obtain ⟨b, hb⟩ := syncTpdoSlots_getElem? n.od 0 n.tpdo.slots .zero k
  refine ⟨b, ?_⟩
  change ((syncTpdoSlots n.od 0 n.tpdo.slots .zero).1.map (·.config))[k]? = _
  rw [List.getElem?_map, hb, tpdoConfigs, List.getElem?_map, Option.map_map, Option.map_map, Nat.zero_add]
  rfl

theorem rpdoConfigs_syncPdoFromOd (k : ℕ) : ∃ b, n.syncPdoFromOd.rpdoConfigs[k]? =
    n.rpdoConfigs[k]?.map fun c => (syncRpdoConfig n.od k c b).1 := by
  obtain ⟨b, hb⟩ := syncRpdoSlots_getElem? n.od 0 n.rpdo.slots
    (syncTpdoSlots n.od 0 n.tpdo.slots .zero).2 k
  refine ⟨b, ?_⟩
  change ((syncRpdoSlots n.od 0 n.rpdo.slots _).1.map (·.config))[k]? = _
  rw [List.getElem?_map, hb, rpdoConfigs, List.getElem?_map, Option.map_map, Option.map_map, Nat.zero_add]
  rfl

theorem length_eq_of_getElem? {α β : Type} {l : List α} {l' : List β}
    (h : ∀ k : ℕ, l[k]?.isSome = l'[k]?.isSome) : l.length = l'.length := by
  apply Nat.le_antisymm
  · by_contra hlt
    have := h l'.length
    simp at this
    omega
  · by_contra hlt
    have := h l.length
    simp at this
    omega

/-- Re-synchronising keeps what is not described exactly when that maps nothing. -/
theorem keepsUndescribed_syncPdoFromOd_iff :
    n.KeepsUndescribed n.syncPdoFromOd ↔ n.UndescribedUnmapped := by
  constructor
  · intro h
    constructor
    · intro k c hc hun
      obtain ⟨b, hb⟩ := n.tpdoConfigs_syncPdoFromOd k
      rw [hc] at hb
      exact (tpdoKept_iff n.od k c b).mp (h.tpdo k c _ hc hb) hun
    · intro k c hc hun
      obtain ⟨b, hb⟩ := n.rpdoConfigs_syncPdoFromOd k
      rw [hc] at hb
      exact (rpdoKept_iff n.od k c b).mp (h.rpdo k c _ hc hb) hun
  · intro h
    refine ⟨?_, ?_, ?_, ?_⟩
    · refine length_eq_of_getElem? fun k => ?_
      obtain ⟨b, hb⟩ := n.tpdoConfigs_syncPdoFromOd k
      rw [hb, Option.isSome_map]
    · refine length_eq_of_getElem? fun k => ?_
      obtain ⟨b, hb⟩ := n.rpdoConfigs_syncPdoFromOd k
      rw [hb, Option.isSome_map]
    · intro k c c' hc hc'
      obtain ⟨b, hb⟩ := n.tpdoConfigs_syncPdoFromOd k
      rw [hc, hc'] at hb
      cases hb
      exact (tpdoKept_iff n.od k c b).mpr (h.tpdo k c hc)
    · intro k c c' hc hc'
      obtain ⟨b, hb⟩ := n.rpdoConfigs_syncPdoFromOd k
      rw [hc, hc'] at hb
      cases hb
      exact (rpdoKept_iff n.od k c b).mpr (h.rpdo k c hc)

/-- Without PDO records, what is kept is everything. -/
theorem KeepsUndescribed.configs {n n' : Node OD evt dirty} (h : n.KeepsUndescribed n')
    (hod : n.NoPdoRecords) :
    n'.tpdoConfigs = n.tpdoConfigs ∧ n'.rpdoConfigs = n.rpdoConfigs := by
  constructor
  · refine List.ext_getElem h.tpdoCount fun k hk' hk => ?_
    have hc := List.getElem?_eq_getElem hk
    have hkept := h.tpdo k _ _ hc (List.getElem?_eq_getElem hk')
    have hun := hod.tpdo k _ hc
    obtain ⟨hcob, henabled⟩ := hkept.cobId (hun 1 4).1
    have htype := hkept.transmissionType (hun 2 4).1
    have hinhibit := hkept.inhibitTime (hun 3 2).1
    have htimer := hkept.eventTimer (hun 5 2).1
    have hmappings := hkept.mappings (hun 0 4).2
    exact TpdoConfig.ext hkept.number hcob htype hinhibit htimer hmappings henabled
  · refine List.ext_getElem h.rpdoCount fun k hk' hk => ?_
    have hc := List.getElem?_eq_getElem hk
    have hkept := h.rpdo k _ _ hc (List.getElem?_eq_getElem hk')
    have hun := hod.rpdo k _ hc
    obtain ⟨hcob, henabled⟩ := hkept.cobId (hun 1 4).1
    have htype := hkept.transmissionType (hun 2 4).1
    have hdeadline := hkept.deadline (hun 5 2).1
    have hmappings := hkept.mappings (hun 0 4).2
    exact RpdoConfig.ext hkept.number hcob htype hdeadline hmappings henabled

end Node

/-! ## Resets -/

/-- A reset re-synchronises, and leaves the configuration to that. -/
theorem reset_configs {m m' : Machine OD evt dirty} {resetType : ResetType}
    (h : m.reset resetType = some m') :
    m'.node.tpdoConfigs = m.node.syncPdoFromOd.tpdoConfigs ∧
      m'.node.rpdoConfigs = m.node.syncPdoFromOd.rpdoConfigs := by
  unfold Machine.reset Node.resetSyncState Node.syncConfigFromOd at h
  simp only [Option.map_map, Option.map_eq_some_iff, Function.comp_apply] at h
  obtain ⟨p, -, rfl⟩ := h
  constructor
  · change ((_ : List TpdoSlot).map _).map _ = _
    rw [List.map_map]
    rfl
  · change (((_ : List RpdoSlot).map _).map _).map _ = _
    rw [List.map_map, List.map_map]
    rfl

theorem requestReset_configs {m m' : Machine OD evt dirty} {resetType : ResetType}
    (h : m.requestReset resetType = some m') :
    m'.node.tpdoConfigs = m.node.syncPdoFromOd.tpdoConfigs ∧
      m'.node.rpdoConfigs = m.node.syncPdoFromOd.rpdoConfigs := by
  have hnode : ({ m.node with nmt := .new } : Node OD evt dirty).syncPdoFromOd =
      { m.node.syncPdoFromOd with nmt := .new } := rfl
  obtain ⟨ht, hr⟩ := reset_configs h
  dsimp only at ht hr
  rw [hnode] at ht hr
  exact ⟨ht, hr⟩

theorem keepsUndescribed_congr {n n' n'' : Node OD evt dirty}
    (ht : n''.tpdoConfigs = n'.tpdoConfigs) (hr : n''.rpdoConfigs = n'.rpdoConfigs) :
    n.KeepsUndescribed n'' ↔ n.KeepsUndescribed n' := by
  constructor
  · intro h
    exact ⟨ht ▸ h.tpdoCount, hr ▸ h.rpdoCount, ht ▸ h.tpdo, hr ▸ h.rpdo⟩
  · intro h
    exact ⟨ht ▸ h.tpdoCount, hr ▸ h.rpdoCount, ht ▸ h.tpdo, hr ▸ h.rpdo⟩

/-- Re-synchronising, alone or in a reset, keeps what the dictionary does not describe exactly
when every PDO without a readable mapping record maps nothing. So a reset of a node whose
dictionary has no PDO records keeps its PDOs only if they map nothing. -/
theorem resync_keeps_undescribed (n : Node OD evt dirty) :
    (n.KeepsUndescribed n.syncPdoFromOd ↔ n.UndescribedUnmapped) ∧
    ∀ (m m' : Machine OD evt dirty) (resetType : ResetType), m.node = n →
      m.requestReset resetType = some m' ∨ m.reset resetType = some m' →
      (n.KeepsUndescribed m'.node ↔ n.UndescribedUnmapped) ∧
      (n.NoPdoRecords → n.UndescribedUnmapped →
        m'.node.tpdoConfigs = n.tpdoConfigs ∧ m'.node.rpdoConfigs = n.rpdoConfigs) := by
  refine ⟨n.keepsUndescribed_syncPdoFromOd_iff, ?_⟩
  rintro m m' resetType rfl hreset
  have hconfigs : m'.node.tpdoConfigs = m.node.syncPdoFromOd.tpdoConfigs ∧
      m'.node.rpdoConfigs = m.node.syncPdoFromOd.rpdoConfigs := by
    rcases hreset with h | h
    · exact requestReset_configs h
    · exact reset_configs h
  have hiff : m.node.KeepsUndescribed m'.node ↔ m.node.UndescribedUnmapped :=
    (keepsUndescribed_congr hconfigs.1 hconfigs.2).trans m.node.keepsUndescribed_syncPdoFromOd_iff
  exact ⟨hiff, fun hod h => (hiff.mpr h).configs hod⟩

/-- A dictionary with one object and no PDO records. -/
def handBuiltOd : GeneratedOd :=
  ⟨OdFields.new ⟨[⟨0x2000, .var ⟨.u8, .rw, true, none, [0]⟩⟩], [], [], []⟩, none⟩

def handBuiltConfig (mappings : List PdoMapping) : NodeConfig :=
  ⟨sampleNode, 1000, false, [⟨1, 0x185, 255, 0, 0, mappings, true⟩], [], [], ⟨0, 0, 0, 0⟩⟩

theorem handBuilt_new {mappings : List PdoMapping}
    (h : mappings = [] ∨ mappings = [⟨0x2000, 0, 8⟩]) :
    ∃ n : Node GeneratedOd 8 8, Node.new (handBuiltConfig mappings) handBuiltOd = some n ∧
      n.od = handBuiltOd ∧ n.tpdoConfigs = (handBuiltConfig mappings).tpdo ∧ n.rpdoConfigs = [] := by
  rcases h with rfl | rfl
  · exact ⟨_, rfl, rfl, rfl, rfl⟩
  · exact ⟨_, rfl, rfl, rfl, rfl⟩

theorem unreadable_of_object {od : GeneratedOd} {index : UInt16} {sub : UInt8}
    (h : od.fields.object index sub = none) (size : ℕ) : Unreadable od index sub size := by
  intro buf
  change (od.fields.read index sub buf).1.isOk = false
  rw [OdFields.read, h]
  rfl

theorem handBuilt_noPdoRecords {mappings : List PdoMapping} {n : Node GeneratedOd 8 8}
    (hod : n.od = handBuiltOd) (ht : n.tpdoConfigs = (handBuiltConfig mappings).tpdo)
    (hr : n.rpdoConfigs = []) : n.NoPdoRecords := by
  constructor
  · intro k c hc sub size
    rw [ht] at hc
    rw [hod]
    cases k with
    | zero =>
      cases hc
      have hcommIdx : (0x1800 : UInt16) + pdoOdOffset 1 0 = 0x1800 := by decide
      have hmapIdx : (0x1A00 : UInt16) + pdoOdOffset 1 0 = 0x1A00 := by decide
      dsimp only
      rw [hcommIdx, hmapIdx]
      exact ⟨unreadable_of_object rfl size, unreadable_of_object rfl size⟩
    | succ k => cases hc
  · intro k c hc
    rw [hr] at hc
    cases hc

/-- A node without PDO records keeps a PDO that maps nothing across a reset. -/
theorem resync_keeps_undescribed_unmapped :
    ∃ m m' : Machine GeneratedOd 8 8, m.requestReset .communication = some m' ∧
      m.node.NoPdoRecords ∧ m'.node.tpdoConfigs = m.node.tpdoConfigs := by
  obtain ⟨n, hn, hod, ht, hr⟩ := handBuilt_new (.inl rfl)
  have hrecords := handBuilt_noPdoRecords hod ht hr
  have hunmapped : n.UndescribedUnmapped := by
    constructor
    · intro k c hc _
      rw [ht] at hc
      cases k with
      | zero =>
        cases hc
        rfl
      | succ k => cases hc
    · intro k c hc
      rw [hr] at hc
      cases hc
  have hreset : ((⟨n, ⟨[], []⟩⟩ : Machine GeneratedOd 8 8).requestReset .communication).isSome = true := by
    cases hn
    decide
  obtain ⟨m', hm'⟩ := Option.isSome_iff_exists.mp hreset
  refine ⟨⟨n, ⟨[], []⟩⟩, m', hm', hrecords, ?_⟩
  exact (((resync_keeps_undescribed n).2 ⟨n, ⟨[], []⟩⟩ m' .communication rfl (.inl hm')).2 hrecords
    hunmapped).1

/-- A node without PDO records loses the mapping of its PDO. -/
theorem resync_clears_undescribed_mapping :
    ∃ n : Node GeneratedOd 8 8, Node.new (handBuiltConfig [⟨0x2000, 0, 8⟩]) handBuiltOd = some n ∧
      n.NoPdoRecords ∧ n.tpdoConfigs.map (·.mappings) = [[⟨0x2000, 0, 8⟩]] ∧
      n.syncPdoFromOd.tpdoConfigs.map (·.mappings) = [[]] ∧ ¬n.KeepsUndescribed n.syncPdoFromOd := by
  obtain ⟨n, hn, hod, ht, hr⟩ := handBuilt_new (.inr rfl)
  have hrecords := handBuilt_noPdoRecords hod ht hr
  have hcleared : n.syncPdoFromOd.tpdoConfigs.map (·.mappings) = [[]] := by
    cases hn
    decide
  refine ⟨n, hn, hrecords, by rw [ht]; rfl, hcleared, fun h => ?_⟩
  rw [(h.configs hrecords).1, ht] at hcleared
  cases hcleared

end Canopen
