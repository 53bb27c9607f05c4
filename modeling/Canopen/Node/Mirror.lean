import Canopen.Derive.Writes
import Canopen.Node.Running

/-!
# The running configuration mirrors the dictionary

Configuration is held twice, in the dictionary and in the services. Reading it
again is idempotent and depends on the objects it reads only, so a node that
re-reads what a download concerns stays a fixed point of re-reading.
-/

namespace Canopen

open LittleEndian Pdo Sdo

variable {OD : Type} [ObjectDictionary OD] {evt dirty : ℕ}

/-! ## Dictionaries that are stores -/

/-- Both dictionaries answer every read of the index alike. -/
def SameReads (od od' : OD) (index : UInt16) : Prop :=
  ∀ (sub : UInt8) {n : ℕ} (buf : FixedBuffer UInt8 n),
    ObjectDictionary.read od' index sub buf = ObjectDictionary.read od index sub buf

/-- A write changes the object at its address only, and nothing when it is refused. -/
class StoreOd (OD : Type) [ObjectDictionary OD] : Prop where
  write_refused : ∀ (od : OD) (index : UInt16) (sub : UInt8) (data : List UInt8) (e : OdError),
    (ObjectDictionary.write od index sub data).1 = .error e →
      (ObjectDictionary.write od index sub data).2 = od
  read_write_ne : ∀ (od : OD) (index : UInt16) (sub : UInt8) (data : List UInt8)
    (index' : UInt16) (sub' : UInt8) {n : ℕ} (buf : FixedBuffer UInt8 n),
    (index', sub') ≠ (index, sub) →
      ObjectDictionary.read (ObjectDictionary.write od index sub data).2 index' sub' buf =
        ObjectDictionary.read od index' sub' buf
  read_storeErrorRegister : ∀ (od : OD) (value : UInt8) (index : UInt16) (sub : UInt8) {n : ℕ}
    (buf : FixedBuffer UInt8 n), index ≠ 0x1001 →
      ObjectDictionary.read (ObjectDictionary.storeErrorRegister od value) index sub buf =
        ObjectDictionary.read od index sub buf

instance : StoreOd Derive.GeneratedOd where
  write_refused := Derive.write_refused
  read_write_ne _ _ _ _ _ _ _ buf hne :=
    Derive.OdFields.read_congr (Derive.OdFields.object_write_ne hne) buf
  read_storeErrorRegister _ value _ _ _ buf hne :=
    Derive.OdFields.read_congr (Derive.OdFields.object_storeErrorRegister value hne) buf

theorem sameReads_write [StoreOd OD] (od : OD) {index index' : UInt16} (sub : UInt8)
    (data : List UInt8) (hne : index' ≠ index) :
    SameReads od (ObjectDictionary.write od index sub data).2 index' := by
  intro sub' n buf
  refine StoreOd.read_write_ne od index sub data index' sub' buf ?_
  intro heq
  exact hne (Prod.mk.inj heq).1

theorem readInto_congr {od od' : OD} {index : UInt16} (h : SameReads od od' index) (sub : UInt8)
    {n : ℕ} (buf : FixedBuffer UInt8 n) : readInto od' index sub buf = readInto od index sub buf := by
  unfold readInto
  rw [h sub buf]

/-! ## Reading a PDO configuration -/

section Congr

/-- The PDO has a number of its own, and its records are in the PDO ranges. -/
def NumberInRange (odNumber : UInt16) : Prop := 1 ≤ odNumber.toNat ∧ odNumber.toNat ≤ 512

theorem pdoOdOffset_toNat {odNumber : UInt16} (h : NumberInRange odNumber) (slot : ℕ) :
    (pdoOdOffset odNumber slot).toNat = odNumber.toNat - 1 := by
  unfold pdoOdOffset NumberInRange at *
  have hne : odNumber ≠ 0 := by
    rintro rfl
    exact absurd h.1 (by decide)
  rw [if_neg hne]
  exact UInt16.toNat_sub_of_le _ _ (UInt16.le_iff_toNat_le.mpr h.1)

theorem isPdoConfigIndex_record {odNumber : UInt16} (h : NumberInRange odNumber) (slot : ℕ)
    (base : UInt16) (hbase : 0x1400 ≤ base.toNat ∧ base.toNat ≤ 0x1A00) :
    isPdoConfigIndex (base + pdoOdOffset odNumber slot) = true := by
  have hoff := pdoOdOffset_toNat h slot
  unfold NumberInRange at h
  unfold isPdoConfigIndex
  rw [Bool.and_eq_true, decide_eq_true_eq, decide_eq_true_eq, UInt16.le_iff_toNat_le,
    UInt16.le_iff_toNat_le, UInt16.toNat_add, hoff]
  simp only [UInt16.reduceToNat]
  omega

variable {od od' : OD}

theorem readMappings_congr {mapIdx : UInt16} (h : SameReads od od' mapIdx) (subs : List UInt8)
    (buf : FixedBuffer UInt8 4) : readMappings od' mapIdx subs buf = readMappings od mapIdx subs buf := by
  induction subs generalizing buf with
  | nil => rfl
  | cons sub subs ih => simp only [readMappings, readInto_congr h, ih]

theorem readMappingRecord_congr {mapIdx : UInt16} (h : SameReads od od' mapIdx)
    (buf : FixedBuffer UInt8 4) : readMappingRecord od' mapIdx buf = readMappingRecord od mapIdx buf := by
  simp only [readMappingRecord, readInto_congr h, readMappings_congr h]

variable (hpdo : ∀ index, isPdoConfigIndex index = true → SameReads od od' index)
include hpdo

theorem syncTpdoConfig_congr (slot : ℕ) {config : TpdoConfig}
    (hn : NumberInRange config.odNumber) (b : ReadBufs) :
    syncTpdoConfig od' slot config b = syncTpdoConfig od slot config b := by
  have hcomm := hpdo _ (isPdoConfigIndex_record hn slot 0x1800 (by decide))
  have hmap := hpdo _ (isPdoConfigIndex_record hn slot 0x1A00 (by decide))
  simp only [syncTpdoConfig, readInto_congr hcomm, readMappingRecord_congr hmap]

theorem syncRpdoConfig_congr (slot : ℕ) {config : RpdoConfig}
    (hn : NumberInRange config.odNumber) (b : ReadBufs) :
    syncRpdoConfig od' slot config b = syncRpdoConfig od slot config b := by
  have hcomm := hpdo _ (isPdoConfigIndex_record hn slot 0x1400 (by decide))
  have hmap := hpdo _ (isPdoConfigIndex_record hn slot 0x1600 (by decide))
  simp only [syncRpdoConfig, readInto_congr hcomm, readMappingRecord_congr hmap]

end Congr

section Idempotent

theorem syncTpdoConfig_odNumber (od : OD) (slot : ℕ) (config : TpdoConfig) (b : ReadBufs) :
    (syncTpdoConfig od slot config b).1.odNumber = config.odNumber := by
  unfold syncTpdoConfig
  dsimp only
  split_ifs <;> rfl

theorem syncRpdoConfig_odNumber (od : OD) (slot : ℕ) (config : RpdoConfig) (b : ReadBufs) :
    (syncRpdoConfig od slot config b).1.odNumber = config.odNumber := by
  unfold syncRpdoConfig
  dsimp only
  split_ifs <;> rfl

/-- Reading a configuration twice through the same buffers reads it once: what is
read does not depend on the configuration it goes to. -/
theorem syncTpdoConfig_idem (od : OD) (slot : ℕ) (config : TpdoConfig) (b : ReadBufs) :
    syncTpdoConfig od slot (syncTpdoConfig od slot config b).1 b = syncTpdoConfig od slot config b := by
  have hn := syncTpdoConfig_odNumber od slot config b
  generalize hc : (syncTpdoConfig od slot config b).1 = c at hn ⊢
  unfold syncTpdoConfig at hc ⊢
  dsimp only at hc ⊢
  rw [hn]
  refine Prod.ext ?_ rfl
  rw [← hc]
  split_ifs <;> rfl

theorem syncRpdoConfig_idem (od : OD) (slot : ℕ) (config : RpdoConfig) (b : ReadBufs) :
    syncRpdoConfig od slot (syncRpdoConfig od slot config b).1 b = syncRpdoConfig od slot config b := by
  have hn := syncRpdoConfig_odNumber od slot config b
  generalize hc : (syncRpdoConfig od slot config b).1 = c at hn ⊢
  unfold syncRpdoConfig at hc ⊢
  dsimp only at hc ⊢
  rw [hn]
  refine Prod.ext ?_ rfl
  rw [← hc]
  split_ifs <;> rfl

end Idempotent

section Each

variable {κ : Type} {f g : ℕ → κ → ReadBufs → κ × ReadBufs}

theorem rereadEach_idem (hf : ∀ n config b, f n (f n config b).1 b = f n config b) (n : ℕ)
    (configs : List κ) (b : ReadBufs) :
    rereadEach f n (rereadEach f n configs b).1 b = rereadEach f n configs b := by
  induction configs generalizing n b with
  | nil => rfl
  | cons config configs ih => simp only [rereadEach, hf, ih]

theorem rereadEach_fixed {configs : List κ}
    (h : ∀ config ∈ configs, ∀ n b, (f n config b).1 = config) (n : ℕ) (b : ReadBufs) :
    (rereadEach f n configs b).1 = configs := by
  induction configs generalizing n b with
  | nil => rfl
  | cons config configs ih =>
    simp only [rereadEach, h config List.mem_cons_self,
      ih fun c hc => h c (List.mem_cons_of_mem config hc)]

theorem rereadEach_congr {configs : List κ} (h : ∀ config ∈ configs, ∀ n b, f n config b = g n config b)
    (n : ℕ) (b : ReadBufs) : rereadEach f n configs b = rereadEach g n configs b := by
  induction configs generalizing n b with
  | nil => rfl
  | cons config configs ih =>
    simp only [rereadEach, h config List.mem_cons_self,
      ih fun c hc => h c (List.mem_cons_of_mem config hc)]

theorem rereadEach_all {P : κ → Prop} (hf : ∀ n config b, P config → P (f n config b).1)
    {configs : List κ} (h : ∀ config ∈ configs, P config) (n : ℕ) (b : ReadBufs) :
    ∀ config ∈ (rereadEach f n configs b).1, P config := by
  induction configs generalizing n b with
  | nil => exact h
  | cons config configs ih =>
    intro c hc
    rcases List.mem_cons.mp hc with rfl | hc
    · exact hf n config b (h config List.mem_cons_self)
    · exact ih (fun c hc => h c (List.mem_cons_of_mem config hc)) _ _ c hc

end Each

/-! ## Mirroring -/

/-- Re-reading any part of the configuration would not change it. -/
structure Mirrors (od : OD) (c : Running) : Prop where
  pdos : c.rereadPdos od = c
  heartbeat : c.rereadHeartbeat od = c
  sync : ∃ p, Node.syncParameters od = some p ∧ c.withSync p = c
  tpdoNumbers : ∀ config ∈ c.tpdos, NumberInRange config.odNumber
  rpdoNumbers : ∀ config ∈ c.rpdos, NumberInRange config.odNumber

section Mirrors

variable {od od' : OD} {c c' : Running}

theorem rereadPdos_idem (od : OD) (c : Running) : (c.rereadPdos od).rereadPdos od = c.rereadPdos od := by
  have ht := rereadEach_idem (syncTpdoConfig_idem od) 0 c.tpdos .zero
  have hr := rereadEach_idem (syncRpdoConfig_idem od) 0 c.rpdos
    (rereadEach (syncTpdoConfig od) 0 c.tpdos .zero).2
  unfold Running.rereadPdos
  simp only [ht, hr]

theorem length_configuredMonitors (od : OD) (slot k : ℕ) (buf : FixedBuffer UInt8 4) :
    (configuredMonitors od slot k buf).length = k := by
  induction k generalizing slot buf with
  | zero => rfl
  | succ k ih => simp only [configuredMonitors, List.length_cons, ih]

theorem rereadHeartbeat_idem (od : OD) (c : Running) :
    (c.rereadHeartbeat od).rereadHeartbeat od = c.rereadHeartbeat od := by
  unfold Running.rereadHeartbeat
  simp only [length_configuredMonitors]
  split_ifs <;> rfl

theorem configuredMonitors_congr (h : SameReads od od' 0x1016) (slot k : ℕ)
    (buf : FixedBuffer UInt8 4) :
    configuredMonitors od' slot k buf = configuredMonitors od slot k buf := by
  induction k generalizing slot buf with
  | zero => rfl
  | succ k ih => simp only [configuredMonitors, readInto_congr h, ih]

theorem rereadHeartbeat_congr (h : SameReads od od' 0x1016) (h' : SameReads od od' 0x1017) :
    c.rereadHeartbeat od' = c.rereadHeartbeat od := by
  simp only [Running.rereadHeartbeat, readInto_congr h', configuredMonitors_congr h]

theorem syncParameters_congr (h₅ : SameReads od od' 0x1005) (h₆ : SameReads od od' 0x1006)
    (h₇ : SameReads od od' 0x1007) (h₉ : SameReads od od' 0x1019) :
    Node.syncParameters od' = Node.syncParameters od := by
  simp only [Node.syncParameters, readInto_congr h₅, readInto_congr h₆, readInto_congr h₇,
    readInto_congr h₉]

def isConfigIndex (index : UInt16) : Bool :=
  isPdoConfigIndex index || index == 0x1016 || index == 0x1017 || index == 0x1005 ||
    index == 0x1006 || index == 0x1007 || index == 0x1019

theorem Mirrors.rereadPdos_congr (h : Mirrors od c)
    (hsame : ∀ index, isPdoConfigIndex index = true → SameReads od od' index) :
    c.rereadPdos od' = c := by
  have ht := rereadEach_congr (f := syncTpdoConfig od') (g := syncTpdoConfig od)
    (fun config hc n b => syncTpdoConfig_congr hsame n (h.tpdoNumbers config hc) b) 0 .zero
  have hr (b : ReadBufs) := rereadEach_congr (f := syncRpdoConfig od') (g := syncRpdoConfig od)
    (fun config hc n b => syncRpdoConfig_congr hsame n (h.rpdoNumbers config hc) b) 0 b
  refine Eq.trans ?_ h.pdos
  simp only [Running.rereadPdos, ht, hr]

theorem Mirrors.congr (h : Mirrors od c)
    (hsame : ∀ index, isConfigIndex index = true → SameReads od od' index) : Mirrors od' c where
  pdos := h.rereadPdos_congr fun index hi => hsame index (by simp [isConfigIndex, hi])
  heartbeat := (rereadHeartbeat_congr (hsame _ (by decide)) (hsame _ (by decide))).trans h.heartbeat
  sync := by
    rw [syncParameters_congr (hsame _ (by decide)) (hsame _ (by decide)) (hsame _ (by decide))
      (hsame _ (by decide))]
    exact h.sync
  tpdoNumbers := h.tpdoNumbers
  rpdoNumbers := h.rpdoNumbers

theorem Mirrors.rereadPdos_tpdoNumbers (h : Mirrors od c) :
    ∀ config ∈ (c.rereadPdos od').tpdos, NumberInRange config.odNumber := by
  refine rereadEach_all ?_ h.tpdoNumbers 0 .zero
  intro n config b hn
  rw [syncTpdoConfig_odNumber]
  exact hn

theorem Mirrors.rereadPdos_rpdoNumbers (h : Mirrors od c) :
    ∀ config ∈ (c.rereadPdos od').rpdos, NumberInRange config.odNumber := by
  refine rereadEach_all ?_ h.rpdoNumbers 0 _
  intro n config b hn
  rw [syncRpdoConfig_odNumber]
  exact hn

section Resync

variable {index : UInt16} (h : Mirrors od c)
  (hsame : ∀ index', index' ≠ index → SameReads od od' index')
include h hsame

theorem Mirrors.after_pdo (hi : isPdoConfigIndex index = true) : Mirrors od' (c.rereadPdos od') where
  pdos := rereadPdos_idem od' c
  heartbeat := by
    have hkept : c.rereadHeartbeat od' = c := by
      rw [rereadHeartbeat_congr, h.heartbeat]
      · exact hsame _ (by rintro rfl; exact absurd hi (by decide))
      · exact hsame _ (by rintro rfl; exact absurd hi (by decide))
    exact congrArg (Running.rereadPdos · od') hkept
  sync := by
    obtain ⟨p, hp, hkept⟩ := h.sync
    refine ⟨p, ?_, congrArg (Running.rereadPdos · od') hkept⟩
    rw [syncParameters_congr, hp]
    all_goals exact hsame _ (by rintro rfl; exact absurd hi (by decide))
  tpdoNumbers := h.rereadPdos_tpdoNumbers
  rpdoNumbers := h.rereadPdos_rpdoNumbers

theorem Mirrors.pdos_kept (hi : isPdoConfigIndex index = false) : c.rereadPdos od' = c := by
  apply h.rereadPdos_congr
  intro index' hi'
  apply hsame
  rintro rfl
  exact absurd (hi'.symm.trans hi) (by decide)

theorem Mirrors.after_heartbeat (hi : index = 0x1016 ∨ index = 0x1017) :
    Mirrors od' (c.rereadHeartbeat od') where
  pdos := by
    have hkept : c.rereadPdos od' = c := by
      apply h.pdos_kept hsame
      rcases hi with rfl | rfl <;> decide
    exact congrArg (Running.rereadHeartbeat · od') hkept
  heartbeat := rereadHeartbeat_idem od' c
  sync := by
    obtain ⟨p, hp, hkept⟩ := h.sync
    refine ⟨p, ?_, congrArg (Running.rereadHeartbeat · od') hkept⟩
    rw [syncParameters_congr, hp]
    all_goals
      apply hsame
      rcases hi with rfl | rfl <;> decide
  tpdoNumbers := h.tpdoNumbers
  rpdoNumbers := h.rpdoNumbers

theorem Mirrors.after_sync (hi : index = 0x1005 ∨ index = 0x1006 ∨ index = 0x1007 ∨ index = 0x1019)
    {p : Node.SyncParameters} (hp : Node.syncParameters od' = some p) : Mirrors od' (c.withSync p) where
  pdos := by
    have hkept : c.rereadPdos od' = c := by
      apply h.pdos_kept hsame
      rcases hi with rfl | rfl | rfl | rfl <;> decide
    exact congrArg (Running.withSync · p) hkept
  heartbeat := by
    have hkept : c.rereadHeartbeat od' = c := by
      rw [rereadHeartbeat_congr, h.heartbeat]
      all_goals
        apply hsame
        rcases hi with rfl | rfl | rfl | rfl <;> decide
    exact congrArg (Running.withSync · p) hkept
  sync := ⟨p, hp, rfl⟩
  tpdoNumbers := h.tpdoNumbers
  rpdoNumbers := h.rpdoNumbers

/-- A committed download re-reads what it concerns, and leaves the rest mirrored. -/
theorem Mirrors.resyncAfter (hc : c.resyncAfter od' index = some c') : Mirrors od' c' := by
  unfold Running.resyncAfter at hc
  dsimp only at hc
  by_cases hpdo : isPdoConfigIndex index = true
  · have hother : ¬(index = 0x1016 ∨ index = 0x1017) ∧
        ¬(index = 0x1005 ∨ index = 0x1006 ∨ index = 0x1007 ∨ index = 0x1019) := by
      constructor
      · rintro (rfl | rfl) <;> exact absurd hpdo (by decide)
      · rintro (rfl | rfl | rfl | rfl) <;> exact absurd hpdo (by decide)
    rw [if_pos hpdo, if_neg hother.1, if_neg hother.2] at hc
    cases hc
    exact h.after_pdo hsame hpdo
  rw [if_neg hpdo] at hc
  by_cases hheartbeat : index = 0x1016 ∨ index = 0x1017
  · have hother : ¬(index = 0x1005 ∨ index = 0x1006 ∨ index = 0x1007 ∨ index = 0x1019) := by
      rcases hheartbeat with rfl | rfl <;> decide
    rw [if_pos hheartbeat, if_neg hother] at hc
    cases hc
    exact h.after_heartbeat hsame hheartbeat
  rw [if_neg hheartbeat] at hc
  split_ifs at hc with hsync
  · obtain ⟨p, hp, rfl⟩ := Option.map_eq_some_iff.mp hc
    exact h.after_sync hsame hsync hp
  · cases hc
    apply h.congr
    intro index' hi'
    apply hsame
    rintro rfl
    simp [isConfigIndex, hpdo] at hi'
    tauto

end Resync

theorem Mirrors.reset (h : Mirrors od c) {p : Node.SyncParameters}
    (hp : Node.syncParameters od = some p) :
    ((c.rereadPdos od).rereadHeartbeat od).withSync p = c := by
  obtain ⟨p', hp', hsync⟩ := h.sync
  rw [h.pdos, h.heartbeat]
  rw [hp] at hp'
  cases hp'
  exact hsync

end Mirrors

/-! ## Fixed points -/

section Fixed

theorem syncTpdoSlots_self {od : OD} {k : ℕ} {slots : List TpdoSlot} {b : ReadBufs}
    (h : (syncTpdoSlots od k slots b).1.map (·.config) = slots.map (·.config)) :
    (syncTpdoSlots od k slots b).1 = slots := by
  induction slots generalizing k b with
  | nil => rfl
  | cons slot slots ih =>
    simp only [syncTpdoSlots, List.map_cons, List.cons.injEq] at h ⊢
    rw [h.1]
    exact ⟨rfl, ih h.2⟩

theorem syncRpdoSlots_self {od : OD} {k : ℕ} {slots : List RpdoSlot} {b : ReadBufs}
    (h : (syncRpdoSlots od k slots b).1.map (·.config) = slots.map (·.config)) :
    (syncRpdoSlots od k slots b).1 = slots := by
  induction slots generalizing k b with
  | nil => rfl
  | cons slot slots ih =>
    simp only [syncRpdoSlots, List.map_cons, List.cons.injEq] at h ⊢
    rw [h.1]
    exact ⟨rfl, ih h.2⟩

omit [ObjectDictionary OD] in
theorem syncMonitor_self (monitor : Option HeartbeatMonitor) :
    syncMonitor true (monitorConfig monitor) monitor = monitor := by
  cases monitor with
  | none => rfl
  | some m => simp [monitorConfig, syncMonitor]

theorem syncMonitors_self {od : OD} {slot : ℕ} {monitors : List (Option HeartbeatMonitor)}
    {buf : FixedBuffer UInt8 4}
    (h : configuredMonitors od slot monitors.length buf = monitors.map monitorConfig) :
    syncMonitors od true slot monitors buf = monitors := by
  induction monitors generalizing slot buf with
  | nil => rfl
  | cons monitor monitors ih =>
    simp only [List.length_cons, configuredMonitors, List.map_cons, List.cons.injEq] at h
    simp only [syncMonitors, h.1, syncMonitor_self, ih h.2]

variable {n : Node OD evt dirty}

theorem Mirrors.syncPdoFromOd (h : Mirrors n.od n.running) : n.syncPdoFromOd = n := by
  have hrun := (syncPdoFromOd_running n).trans h.pdos
  have ht := syncTpdoSlots_self (congrArg Running.tpdos hrun)
  have hr := syncRpdoSlots_self (congrArg Running.rpdos hrun)
  unfold Node.syncPdoFromOd
  simp only [ht, hr]

theorem Mirrors.syncHeartbeatFromOd (h : Mirrors n.od n.running) :
    n.syncHeartbeatFromOd true = n := by
  have hinterval := congrArg Running.heartbeatUs h.heartbeat
  have hmonitors : configuredMonitors n.od 0 n.hbMonitors.length (.filled 4 0) =
      n.hbMonitors.map monitorConfig := by
    have hm := congrArg Running.monitors h.heartbeat
    simp only [Running.rereadHeartbeat, Node.running, List.length_map] at hm
    exact hm
  have hproducer : (if (readInto n.od 0x1017 0 (FixedBuffer.filled 2 0)).1 then
      n.heartbeat.setIntervalMs (word16 (readInto n.od 0x1017 0 (FixedBuffer.filled 2 0)).2.cells)
      else n.heartbeat) = n.heartbeat := by
    simp only [Running.rereadHeartbeat, Node.running] at hinterval
    split_ifs at hinterval ⊢
    · unfold HeartbeatProducer.setIntervalMs
      rw [hinterval]
    · rfl
  unfold Node.syncHeartbeatFromOd
  simp only [syncMonitors_self hmonitors]
  rw [hproducer]

theorem Mirrors.syncConfigFromOd (h : Mirrors n.od n.running) : n.syncConfigFromOd = some n := by
  obtain ⟨p, hp, hsync⟩ := h.sync
  have hcob : n.sync.cob = p.cobId := (congrArg Running.syncCob hsync).symm
  have hwindow : p.windowUs = n.syncWindow.lengthUs := congrArg Running.windowUs hsync
  have hproducer : (if p.produce then p.cobId else 0, p.periodUs, p.overflow) =
      n.syncProducer.parameters := congrArg Running.producer hsync
  simp only [SyncProducer.parameters, Prod.mk.injEq] at hproducer
  have happly : n.applySync p = n := by
    unfold Node.applySync SyncConsumer.setCobId SyncProducer.configure SyncWindow.configure
    rw [if_neg (not_not.mpr hcob), if_pos ⟨hproducer.1.symm, hproducer.2.1.symm, hproducer.2.2.symm⟩,
      hwindow]
  rw [Node.syncConfigFromOd, hp, Option.map_some, happly]

end Fixed

/-! ## Runs -/

section Runs

variable [StoreOd OD] {m m' : Machine OD evt dirty}

/-- The application leaves the objects the configuration is read from alone. -/
def KeepsConfig (f : OD → OD) : Prop :=
  ∀ od index, isConfigIndex index = true → SameReads od (f od) index

/-- No receive PDO changes an object the configuration is read from. -/
def RpdosKeepConfig (trace : List Obs) : Prop :=
  ∀ w state, .odWrite .rpdo w state ∈ trace → w.accepted = true → isConfigIndex w.index = false

theorem Wrote.sameReads {od od' : OD} {ws : List OdWrite} (h : Wrote od ws od')
    (hws : ∀ w ∈ ws, w.accepted = true → isConfigIndex w.index = false) {index : UInt16}
    (hi : isConfigIndex index = true) : SameReads od od' index := by
  induction h with
  | nil =>
    intro sub n buf
    rfl
  | @write ws od' _ index' subindex data ih =>
    have hbefore := ih fun w hw => hws w (List.mem_append_left _ hw)
    have hlast := hws _ (List.mem_append_right _ (List.mem_singleton_self _))
    intro sub n buf
    rw [← hbefore sub buf]
    cases hw : (ObjectDictionary.write od' index' subindex data).1 with
    | error e => rw [StoreOd.write_refused od' index' subindex data e hw]
    | ok u =>
      refine sameReads_write od' subindex data ?_ sub buf
      rintro rfl
      rw [hw] at hlast
      exact absurd (hi.symm.trans (hlast rfl)) (by decide)

/-- No step lets dictionary and services drift apart. -/
theorem mirrors_step (hu : Uncommitted m) (h : Mirrors m.node.od m.node.running)
    (hs : Step KeepsConfig m m') (hrpdo : RpdosKeepConfig m'.bus.trace) :
    Mirrors m'.node.od m'.node.running := by
  cases step_config hu hs with
  | rpdo ws hod hlog hrun =>
    rw [hrun]
    apply h.congr
    intro index hi
    exact hod.sameReads (fun w hw hacc => hrpdo w m.state (hlog w hw) hacc) hi
  | application f hf hod hrun =>
    rw [hrun, hod]
    exact h.congr fun index hi => hf _ index hi
  | refused index subindex data e hw hod hrun =>
    rw [hrun, hod, StoreOd.write_refused _ _ _ _ e hw]
    exact h
  | committed index subindex data nowUs hvalid hw hod hrun =>
    refine h.resyncAfter ?_ hrun
    rw [hod]
    intro index' hne
    exact sameReads_write m.node.od subindex data hne
  | reset p hod hp hrun =>
    rw [hrun, hod, h.reset hp]
    exact h

theorem mirrors_steps (hs : Steps KeepsConfig m m') (hu : Uncommitted m)
    (h : Mirrors m.node.od m.node.running) (hrpdo : RpdosKeepConfig m'.bus.trace) :
    Uncommitted m' ∧ Mirrors m'.node.od m'.node.running := by
  induction hs with
  | refl => exact ⟨hu, h⟩
  | tail _ hlast ih =>
    obtain ⟨obs, htrace, -⟩ := step_recorded hlast
    have hbefore := ih fun w state hw => hrpdo w state (by rw [htrace]; exact List.mem_append_left _ hw)
    exact ⟨uncommitted_step hbefore.1 hlast, mirrors_step hbefore.1 hbefore.2 hlast hrpdo⟩

end Runs
end Canopen
