import Canopen.Derive.Store
import Canopen.Node.CobPlan
import Canopen.Node.Construction

/-!
# No COB-ID collides

The COB-ID plan holds in every state a node reaches, provided the dictionary of the new
node agrees with the COB-IDs the start-up check has seen. That check compares COB-IDs as
they are configured, while the dictionary is read with all but eleven bits masked out.
-/

namespace Canopen

open Derive LittleEndian Pdo Sdo

variable {evt dirty : ℕ}

section Steps

variable {OD : Type} [ObjectDictionary OD] [StoreOd OD] {good : OD → Prop}
  (laws : CobObjects good) {n : Node OD evt dirty} {m m' : Machine OD evt dirty}

include laws in
theorem cobWritten_write {od : OD} (hgood : good od) {index : UInt16}
    {sub : UInt8} {data : List UInt8} (hw : (ObjectDictionary.write od index sub data).1 = .ok ()) :
    CobWritten od (ObjectDictionary.write od index sub data).2 index sub (word32 data) where
  other := by
    intro i s _ hne
    unfold cobRaw readInto
    rw [StoreOd.read_write_ne od index sub data i s _ hne]
  self := fun hi => laws.read_write od index sub data hgood hi hw

omit [ObjectDictionary OD] [StoreOd OD] in
theorem syncCobId_running (n : Node OD evt dirty) : n.sync.cobId.getD 0 = n.running.syncCob := by
  change n.sync.cobId.getD 0 = n.sync.cob
  unfold SyncConsumer.cobId
  split_ifs with h0
  · exact h0.symm
  · rfl

include laws in
/-- A download the server accepts leaves a plan without collisions. -/
theorem CobPlan.commit (h : CobPlan n.od n.running) (hgood : good n.od) {nowUs : UInt64}
    {index : UInt16} {sub : UInt8} {data : List UInt8} {c : Running}
    (hvalid : validateDownload n.od (n.sdoContext nowUs) index sub data = .ok ())
    (hw : (ObjectDictionary.write n.od index sub data).1 = .ok ())
    (hc : n.running.resyncAfter (ObjectDictionary.write n.od index sub data).2 index = some c) :
    CobPlan (ObjectDictionary.write n.od index sub data).2 c := by
  obtain ⟨hheartbeat, hpdoCob, hsync⟩ := validateDownload_ok hvalid
  have hwritten := cobWritten_write laws hgood hw
  have hgood' := laws.write n.od index sub data hgood
  have hwidth (hi : isCobObject index sub = true) := laws.write_width n.od index sub data hgood hi hw
  have hcobIds : (n.sdoContext nowUs).cobIds = n.running.sdoCobIds := sdoCobIds_running n
  have hsyncCob : (n.sdoContext nowUs).syncCobId = n.running.syncCob := syncCobId_running n
  unfold Running.resyncAfter at hc
  dsimp only at hc
  by_cases hpdo : isPdoConfigIndex index = true
  · have hindex : ¬(index = 0x1016 ∨ index = 0x1017) ∧
        ¬(index = 0x1005 ∨ index = 0x1006 ∨ index = 0x1007 ∨ index = 0x1019) := by
      constructor
      · rintro (rfl | rfl) <;> exact absurd hpdo (by decide)
      · rintro (rfl | rfl | rfl | rfl) <;> exact absurd hpdo (by decide)
    rw [if_pos hpdo, if_neg hindex.1, if_neg hindex.2] at hc
    cases hc
    refine h.rereadPdos laws hgood' hwritten (by tauto) ?_
    rintro hi rfl
    have hok := validatePdo_ok hi (hwidth (by simp [isCobObject, hi])) hpdoCob
    rw [hcobIds, hsyncCob] at hok
    exact ⟨hok.1, (hok.2 h.sync_ne).symm⟩
  have hcomm : isPdoCommIndex index = false := by
    unfold isPdoCommIndex
    unfold isPdoConfigIndex at hpdo
    simp only [Bool.and_eq_true, decide_eq_true_eq, not_and, Bool.or_eq_false_iff,
      Bool.and_eq_false_iff, decide_eq_false_iff_not, UInt16.le_iff_toNat_le,
      UInt16.reduceToNat] at hpdo ⊢
    omega
  rw [if_neg hpdo] at hc
  by_cases hmonitor : index = 0x1016 ∨ index = 0x1017
  · have hindex : ¬(index = 0x1005 ∨ index = 0x1006 ∨ index = 0x1007 ∨ index = 0x1019) := by
      rcases hmonitor with rfl | rfl <;> decide
    rw [if_pos hmonitor, if_neg hindex] at hc
    cases hc
    refine h.rereadHeartbeat laws hgood' hwritten (by tauto) hcomm ?_
    rintro rfl hread hsub hle node timeMs hnode
    have hcount : sub ≤ (n.sdoContext nowUs).heartbeatConsumerCount := by
      have hcovered := laws.subCount n.od sub hgood hsub hread
      have hmin : (n.sdoContext nowUs).heartbeatConsumerCount =
          if (ObjectDictionary.subCount n.od 0x1016).getD 0 ≤ 8 then
            (ObjectDictionary.subCount n.od 0x1016).getD 0 else 8 := rfl
      rw [hmin]
      split_ifs
      · exact hcovered
      · exact hle
    have hok := validateHeartbeat_ok hsub (hwidth (by simp [isCobObject, hsub])) hcount hheartbeat
      hnode
    rw [hcobIds, hsyncCob] at hok
    exact hok
  rw [if_neg hmonitor] at hc
  by_cases hi : index = 0x1005 ∨ index = 0x1006 ∨ index = 0x1007 ∨ index = 0x1019
  · rw [if_pos hi] at hc
    obtain ⟨p, hp, rfl⟩ := Option.map_eq_some_iff.mp hc
    refine h.withSync hwritten hcomm (by tauto) hp ?_
    rintro rfl rfl hne
    obtain ⟨hsdo, hreserved⟩ := validateSync_ok (hwidth (by decide)) hsync
    rw [hcobIds] at hsdo
    have hfree := reserved_free hne hreserved
    rw [pdoCobs_running, monitorCobs_running] at hfree
    exact ⟨hsdo, hfree⟩
  · rw [if_neg hi] at hc
    cases hc
    refine h.keep hwritten ?_
    simp only [isCobObject, hcomm, Bool.false_and, Bool.or_false, Bool.or_eq_false_iff,
      Bool.and_eq_false_iff, beq_eq_false_iff_ne]
    tauto

include laws in
omit [StoreOd OD] in
theorem CobPlan.reset {od : OD} {c : Running} (h : CobPlan od c) (hgood : good od)
    {p : Node.SyncParameters} (hp : Node.syncParameters od = some p) :
    CobPlan od (((c.rereadPdos od).rereadHeartbeat od).withSync p) := by
  have hsame := cobWritten_refl od
  have hpdos := h.rereadPdos laws hgood hsame (by decide) (fun hi => absurd hi (by decide))
  have hmonitors := hpdos.rereadHeartbeat laws hgood hsame (by decide) (by decide)
    (fun hi => absurd hi (by decide))
  exact hmonitors.withSync hsame (by decide) (by decide) hp (fun hi => absurd hi (by decide))

/-- The application leaves the COB-ID objects alone. -/
def KeepsCobs (good : OD → Prop) (f : OD → OD) : Prop :=
  ∀ od, good od → good (f od) ∧ ∀ i s, isCobObject i s = true → cobRaw (f od) i s = cobRaw od i s

/-- No receive PDO changes a COB-ID object. -/
def RpdosKeepCobs (trace : List Obs) : Prop :=
  ∀ w state, .odWrite .rpdo w state ∈ trace → w.accepted = true →
    isCobObject w.index w.subindex = false

include laws in
theorem Wrote.keepsCobs {od od' : OD} {ws : List OdWrite} (h : Wrote od ws od') (hgood : good od)
    (hws : ∀ w ∈ ws, w.accepted = true → isCobObject w.index w.subindex = false) :
    good od' ∧ ∀ i s, isCobObject i s = true → cobRaw od' i s = cobRaw od i s := by
  induction h with
  | nil => exact ⟨hgood, fun _ _ _ => rfl⟩
  | @write ws od' _ index subindex data ih =>
    have hbefore := ih fun w hw => hws w (List.mem_append_left _ hw)
    have hlast := hws _ (List.mem_append_right _ (List.mem_singleton_self _))
    refine ⟨laws.write od' index subindex data hbefore.1, ?_⟩
    intro i s hi
    rw [← hbefore.2 i s hi]
    cases hw : (ObjectDictionary.write od' index subindex data).1 with
    | error e => rw [StoreOd.write_refused od' index subindex data e hw]
    | ok u =>
      apply (cobWritten_write laws hbefore.1 hw).other i s hi
      intro haddr
      obtain ⟨rfl, rfl⟩ := Prod.mk.inj haddr
      rw [hw] at hlast
      exact absurd (hi.symm.trans (hlast rfl)) (by decide)

omit [StoreOd OD] in
theorem CobPlan.congr {od od' : OD} {c : Running} (h : CobPlan od c)
    (hsame : ∀ i s, isCobObject i s = true → cobRaw od' i s = cobRaw od i s) : CobPlan od' c := by
  have hw : CobWritten od od' 0 0 0 := ⟨fun i s hi _ => hsame i s hi, fun hi => absurd hi (by decide)⟩
  exact h.keep hw (by decide)

include laws in
/-- No step brings a collision into the plan. -/
theorem cobPlan_step (hu : Uncommitted m) (hgood : good m.node.od)
    (h : CobPlan m.node.od m.node.running) (hs : Step (KeepsCobs good) m m')
    (hrpdo : RpdosKeepCobs m'.bus.trace) :
    good m'.node.od ∧ CobPlan m'.node.od m'.node.running := by
  cases step_config hu hs with
  | rpdo ws hod hlog hrun =>
    rw [hrun]
    have hkept := hod.keepsCobs laws hgood fun w hw hacc => hrpdo w m.state (hlog w hw) hacc
    exact ⟨hkept.1, h.congr hkept.2⟩
  | application f hf hod hrun =>
    rw [hrun, hod]
    have hkept := hf m.node.od hgood
    exact ⟨hkept.1, h.congr hkept.2⟩
  | refused index subindex data e hw hod hrun =>
    rw [hrun, hod, StoreOd.write_refused _ _ _ _ e hw]
    exact ⟨hgood, h⟩
  | committed index subindex data nowUs hvalid hw hod hrun =>
    rw [hod] at hrun ⊢
    exact ⟨laws.write _ _ _ _ hgood, h.commit laws hgood hvalid hw hrun⟩
  | reset p hod hp hrun =>
    rw [hrun, hod]
    exact ⟨hgood, h.reset laws hgood hp⟩

include laws in
theorem cobPlan_steps (hs : Steps (KeepsCobs good) m m') (hu : Uncommitted m)
    (hgood : good m.node.od) (h : CobPlan m.node.od m.node.running)
    (hrpdo : RpdosKeepCobs m'.bus.trace) :
    Uncommitted m' ∧ good m'.node.od ∧ CobPlan m'.node.od m'.node.running := by
  induction hs with
  | refl => exact ⟨hu, hgood, h⟩
  | tail _ hlast ih =>
    obtain ⟨obs, htrace, -⟩ := step_recorded hlast
    obtain ⟨hu, hgood, h⟩ :=
      ih fun w state hw => hrpdo w state (by rw [htrace]; exact List.mem_append_left _ hw)
    exact ⟨uncommitted_step hu hlast, cobPlan_step laws hu hgood h hlast hrpdo⟩

end Steps

/-! ## The start -/

section Start

variable {OD : Type} [ObjectDictionary OD]

/-- The SDO server checks the COB-ID objects of the PDOs, and each of them reads, if at all,
as the COB-ID that was just written to it. -/
def cobsTaken (od : OD) (base : UInt16) : ℕ → List (UInt16 × UInt16 × Bool) → Bool
  | _, [] => true
  | k, (odNumber, cobId, enabled) :: rest =>
    let index := base + pdoOdOffset odNumber k
    let od' := (ObjectDictionary.write od index 1 (leBytes32 (Node.pdoCobRaw cobId enabled))).2
    isPdoCommIndex index && (cobRaw od' index 1).all (pdoCob · == cobId) &&
      cobsTaken od' base (k + 1) rest

/-- Number, COB-ID and enabled flag of the configured transmit PDOs. -/
def NodeConfig.tpdoCobs (config : NodeConfig) : List (UInt16 × UInt16 × Bool) :=
  config.tpdo.map fun t => (t.odNumber, t.cobId, t.enabled)

/-- Number, COB-ID and enabled flag of the configured receive PDOs. -/
def NodeConfig.rpdoCobs (config : NodeConfig) : List (UInt16 × UInt16 × Bool) :=
  config.rpdo.map fun r => (r.odNumber, r.cobId, r.enabled)

/-- The dictionary a node is built over takes the COB-IDs of its PDOs. -/
def NodeConfig.cobsTaken (config : NodeConfig) (od : OD) : Bool :=
  Canopen.cobsTaken od 0x1800 0 config.tpdoCobs &&
    Canopen.cobsTaken (Node.writeCobs od 0x1800 0 config.tpdoCobs) 0x1400 0 config.rpdoCobs

/-- What is read at the COB-ID object is among the given COB-IDs. -/
def HoldsOneOf (od : OD) (cobs : List UInt16) (index : UInt16) : Prop :=
  isPdoCommIndex index = true ∧ ∀ raw, cobRaw od index 1 = some raw → pdoCob raw ∈ cobs

variable [StoreOd OD] {good : OD → Prop} (laws : CobObjects good)

theorem HoldsOneOf.write {od : OD} {cobs : List UInt16} {index index' : UInt16} {data : List UInt8}
    (h : HoldsOneOf od cobs index)
    (hself : HoldsOneOf (ObjectDictionary.write od index' 1 data).2 cobs index') :
    HoldsOneOf (ObjectDictionary.write od index' 1 data).2 cobs index := by
  by_cases hi : index = index'
  · rw [hi]
    exact hself
  · refine ⟨h.1, ?_⟩
    intro raw hraw
    apply h.2 raw
    rw [← hraw]
    unfold cobRaw readInto
    rw [StoreOd.read_write_ne od index' 1 data index 1]
    intro haddr
    exact hi (Prod.mk.inj haddr).1

/-- After the write-back every COB-ID object written, and every one that was in order
before, holds a declared COB-ID. -/
theorem writeCobs_holds (cobs : List UInt16) {base : UInt16} {l : List (UInt16 × UInt16 × Bool)}
    (hl : ∀ e ∈ l, e.2.1 ∈ cobs) {od : OD} {k : ℕ} (htaken : cobsTaken od base k l = true) :
    (∀ index, HoldsOneOf od cobs index → HoldsOneOf (Node.writeCobs od base k l) cobs index) ∧
    ∀ j e, l[j]? = some e →
      HoldsOneOf (Node.writeCobs od base k l) cobs (base + pdoOdOffset e.1 (k + j)) := by
  induction l generalizing od k with
  | nil => exact ⟨fun _ h => h, by simp⟩
  | cons e l ih =>
    obtain ⟨odNumber, cobId, enabled⟩ := e
    unfold cobsTaken at htaken
    simp only [Bool.and_eq_true, Option.all_eq_true, beq_iff_eq] at htaken
    obtain ⟨⟨hi, hread⟩, hrest⟩ := htaken
    obtain ⟨hkept, hwritten⟩ := ih (fun e he => hl e (List.mem_cons_of_mem _ he)) hrest
    have hself : HoldsOneOf (ObjectDictionary.write od (base + pdoOdOffset odNumber k) 1
        (leBytes32 (Node.pdoCobRaw cobId enabled))).2 cobs (base + pdoOdOffset odNumber k) := by
      refine ⟨hi, fun raw hraw => ?_⟩
      rw [hread raw hraw]
      exact hl _ List.mem_cons_self
    refine ⟨fun index h => hkept index (h.write hself), ?_⟩
    intro j e hget
    cases j with
    | zero =>
      cases hget
      exact hkept _ hself
    | succ j =>
      have hslot : k + (j + 1) = k + 1 + j := by omega
      rw [hslot]
      exact hwritten j e hget

omit [StoreOd OD] in
include laws in
theorem writeCobs_good (base : UInt16) (l : List (UInt16 × UInt16 × Bool)) {od : OD} (k : ℕ)
    (hgood : good od) : good (Node.writeCobs od base k l) := by
  induction l generalizing od k with
  | nil => exact hgood
  | cons e l ih => exact ih (k + 1) (laws.write _ _ _ _ hgood)

omit [StoreOd OD] [ObjectDictionary OD] in
/-- What the start-up check has looked at. -/
theorem unique_plan {n : Node OD evt dirty} (hne : n.running.syncCob ≠ 0)
    (h : (n.sdoCobIdsAreUnique && n.syncCobIdIsUnique) = true) :
    (n.running.sdoCobIds.claims n.running.syncCob = false ∧ n.running.syncCob ∉ n.running.fixedCobs ∧
      n.running.syncCob ∉ n.running.pdoCobs ∧ n.running.syncCob ∉ n.running.monitorCobs) ∧
    (∀ cob ∈ n.running.pdoCobs, n.running.sdoCobIds.claims cob = false) ∧
    ∀ cob ∈ n.running.monitorCobs, n.running.sdoCobIds.claims cob = false := by
  have hcob : n.sync.cobId = some n.running.syncCob := if_neg hne
  simp only [Node.sdoCobIdsAreUnique, Node.syncCobIdIsUnique, hcob, Bool.and_eq_true,
    List.all_eq_true, Bool.not_eq_true', bne_iff_ne, sdoCobIds_running, pdoCobs_running,
    monitorCobs_running] at h
  obtain ⟨⟨⟨-, hpdo⟩, hmonitor⟩, ⟨⟨⟨-, hsdo⟩, hfixed⟩, hsyncPdo⟩, hsyncMonitor⟩ := h
  refine ⟨⟨hsdo, ?_, ?_, ?_⟩, hpdo, hmonitor⟩
  · exact fun hmem => by simp [Node.fixedCobs, Running.fixedCobs, Node.running] at hfixed hmem; tauto
  · simpa using hsyncPdo
  · simpa using hsyncMonitor

def NodeConfig.writtenBack (config : NodeConfig) (od : OD) : OD :=
  Node.writeCobs (Node.writeCobs od 0x1800 0 config.tpdoCobs) 0x1400 0 config.rpdoCobs

omit [StoreOd OD] in
theorem initial_writtenBack (config : NodeConfig) (od : OD) :
    (Node.initial config od : Node OD evt dirty).writePdoCobIdsToOd.od = config.writtenBack od := by
  have ht : (Node.initial config od : Node OD evt dirty).tpdoCobs = config.tpdoCobs := by
    simp [Node.initial, Node.tpdoCobs, TpdoEngine.new, TpdoSlot.new, Function.comp_def,
      NodeConfig.tpdoCobs]
  have hr : (Node.initial config od : Node OD evt dirty).rpdoCobs = config.rpdoCobs := by
    simp [Node.initial, Node.rpdoCobs, RpdoEngine.new, RpdoSlot.new, Function.comp_def,
      NodeConfig.rpdoCobs]
  rw [Node.writePdoCobIdsToOd, ht, hr]
  rfl

section New

variable {config : NodeConfig} {od : OD} {n : Node OD evt dirty} (hn : Node.new config od = some n)
include hn

omit [StoreOd OD] in
theorem new_config : n.running.tpdos = config.tpdo ∧ n.running.rpdos = config.rpdo ∧
    n.running.sdoCobs.head? = some (CobId.sdoRx n.running.nodeId, CobId.sdoTx n.running.nodeId) ∧
    n.running.monitors = configuredMonitors n.od 0 maxHeartbeatMonitors (.filled 4 0) := by
  obtain ⟨-, -, p, -, hrun⟩ := new_running hn
  rw [hrun]
  refine ⟨?_, ?_, rfl, ?_⟩
  · simp [Running.withSync, Running.rereadHeartbeat, Node.running, Node.initial, TpdoEngine.new,
      TpdoSlot.new, Function.comp_def]
  · simp [Running.withSync, Running.rereadHeartbeat, Node.running, Node.initial, RpdoEngine.new,
      RpdoSlot.new, Function.comp_def]
  · simp [Running.withSync, Running.rereadHeartbeat, Node.running, Node.initial]

omit [StoreOd OD] in
theorem new_syncCob : n.running.syncCob = syncCobOf n.od ∧ n.running.syncCob ≠ 0 := by
  obtain ⟨-, -, p, hp, hrun⟩ := new_running hn
  have hsync : n.running.syncCob = p.cobId := by
    rw [hrun]
    rfl
  rw [hsync]
  exact syncParameters_cob hp

include laws in
theorem new_cobRaw (hgood : good od) :
    good n.od ∧ ∀ i s, isCobObject i s = true → cobRaw n.od i s = cobRaw (config.writtenBack od) i s := by
  obtain ⟨hod, -, -⟩ := new_running hn
  rw [initial_writtenBack] at hod
  have hback : good (config.writtenBack od) :=
    writeCobs_good laws 0x1400 _ 0 (writeCobs_good laws 0x1800 _ 0 hgood)
  rw [hod]
  refine ⟨laws.storeErrorRegister _ _ (laws.storeSdoServerCobIds _ _ hback), ?_⟩
  intro i s hi
  rw [← laws.cobRaw_storeSdoServerCobIds _ config.nodeId i s hback hi]
  unfold cobRaw readInto
  rw [StoreOd.read_storeErrorRegister]
  rintro rfl
  simp [isCobObject, isPdoCommIndex] at hi

include laws in
theorem new_cobsFollow (hgood : good od) (htaken : config.cobsTaken od = true) :
    CobsFollow n.od n.running := by
  obtain ⟨htpdos, hrpdos, -, -⟩ := new_config hn
  obtain ⟨-, hraw⟩ := new_cobRaw laws hn hgood
  have hpdoCobs : n.running.pdoCobs = config.tpdo.map (·.cobId) ++ config.rpdo.map (·.cobId) := by
    rw [Running.pdoCobs, htpdos, hrpdos]
  have ht : ∀ e ∈ config.tpdoCobs, e.2.1 ∈ n.running.pdoCobs := by
    intro e he
    obtain ⟨t, ht, rfl⟩ := List.mem_map.mp he
    rw [hpdoCobs]
    exact List.mem_append_left _ (List.mem_map_of_mem ht)
  have hr : ∀ e ∈ config.rpdoCobs, e.2.1 ∈ n.running.pdoCobs := by
    intro e he
    obtain ⟨r, hr, rfl⟩ := List.mem_map.mp he
    rw [hpdoCobs]
    exact List.mem_append_right _ (List.mem_map_of_mem hr)
  unfold NodeConfig.cobsTaken at htaken
  rw [Bool.and_eq_true] at htaken
  -- the receive PDOs are written back last, and leave a transmit PDO's object in order
  obtain ⟨-, htwritten⟩ := writeCobs_holds _ ht htaken.1
  obtain ⟨hkept, hrwritten⟩ := writeCobs_holds _ hr htaken.2
  have holds {index : UInt16} (h : HoldsOneOf (config.writtenBack od) n.running.pdoCobs index) :
      isPdoCommIndex index = true ∧
        ∀ raw, cobRaw n.od index 1 = some raw → pdoCob raw ∈ n.running.pdoCobs := by
    refine ⟨h.1, ?_⟩
    rw [hraw index 1 (by simp [isCobObject, h.1])]
    exact h.2
  constructor
  · intro k t hget
    rw [htpdos] at hget
    have hlast := htwritten k (t.odNumber, t.cobId, t.enabled)
      (by rw [NodeConfig.tpdoCobs, List.getElem?_map, hget]; rfl)
    rw [Nat.zero_add] at hlast
    exact holds (hkept _ hlast)
  · intro k r hget
    rw [hrpdos] at hget
    have hlast := hrwritten k (r.odNumber, r.cobId, r.enabled)
      (by rw [NodeConfig.rpdoCobs, List.getElem?_map, hget]; rfl)
    rw [Nat.zero_add] at hlast
    exact holds hlast

include laws in
theorem new_cobPlan (hgood : good od) (htaken : config.cobsTaken od = true) :
    CobPlan n.od n.running := by
  obtain ⟨-, hunique, -⟩ := new_running hn
  obtain ⟨-, -, hsdo, hmonitors⟩ := new_config hn
  obtain ⟨hcob, hne⟩ := new_syncCob hn
  obtain ⟨⟨hsyncSdo, hsyncFixed, hsyncPdo, hsyncMonitor⟩, hsdoPdo, hsdoMonitor⟩ :=
    unique_plan hne hunique
  refine ⟨new_cobsFollow laws hn hgood htaken, ?_, ?_, hcob, hsdo, hne, hsyncSdo, hsyncFixed,
    hsyncPdo, hsyncMonitor, hsdoPdo, hsdoMonitor⟩
  · rw [hmonitors, length_configuredMonitors]
  · intro i monitor hget
    rw [hmonitors] at hget
    have heq := configuredMonitors_get laws (new_cobRaw laws hn hgood).1 (by decide) hget
    rw [Nat.zero_add] at heq
    exact heq

end New
end Start

/-! ## Every run -/

/-- No two services share a COB-ID. COB-ID 0 is that of an unused PDO. -/
structure Node.CollisionFree {OD : Type} (n : Node OD evt dirty) : Prop where
  sync_sdo : ∀ ch ∈ n.sdo, n.sync.cob ≠ ch.cobRx ∧ n.sync.cob ≠ ch.cobTx
  sync_pdo : n.sync.cob ∉ n.pdoCobs
  sync_monitor : n.sync.cob ∉ n.monitorCobs
  sync_fixed : n.sync.cob ∉ CobId.nmt :: n.fixedCobs
  sdo_pdo : ∀ ch ∈ n.sdo, ∀ cob ∈ n.pdoCobs, cob ≠ 0 → cob ≠ ch.cobRx ∧ cob ≠ ch.cobTx
  sdo_monitor : ∀ ch ∈ n.sdo, ∀ cob ∈ n.monitorCobs, cob ≠ ch.cobRx ∧ cob ≠ ch.cobTx

section Free

variable {OD : Type} [ObjectDictionary OD] {n : Node OD evt dirty}

omit [ObjectDictionary OD] in
theorem claims_free (hdefault : n.running.sdoCobs.head? =
      some (CobId.sdoRx n.running.nodeId, CobId.sdoTx n.running.nodeId)) {cob : UInt16}
    (hne : cob ≠ 0) (h : n.running.sdoCobIds.claims cob = false) :
    ∀ ch ∈ n.sdo, cob ≠ ch.cobRx ∧ cob ≠ ch.cobTx := by
  rw [← sdoCobIds_running] at h
  simp only [SdoCobIds.claims, Bool.and_eq_false_iff, bne_eq_false_iff_eq, hne, false_or,
    Bool.or_eq_false_iff, beq_eq_false_iff_ne, Node.sdoCobIds] at h
  obtain ⟨⟨⟨hrx, htx⟩, hextraRx⟩, hextraTx⟩ := h
  change (n.sdo.map SdoChannel.cobs).head? = _ at hdefault
  intro ch hch
  cases hsdo : n.sdo with
  | nil =>
    rw [hsdo] at hch
    cases hch
  | cons first rest =>
    rw [hsdo] at hdefault hch hextraRx hextraTx
    rcases List.mem_cons.mp hch with rfl | hrest
    · have hcobs : ch.cobs = (CobId.sdoRx n.nodeId, CobId.sdoTx n.nodeId) := Option.some.inj hdefault
      obtain ⟨hchRx, hchTx⟩ := Prod.mk.inj hcobs
      rw [hchRx, hchTx]
      exact ⟨hrx, htx⟩
    · have hnotRx : cob ∉ rest.map (·.cobRx) := by simpa using hextraRx
      have hnotTx : cob ∉ rest.map (·.cobTx) := by simpa using hextraTx
      constructor
      · rintro rfl
        exact hnotRx (List.mem_map_of_mem hrest)
      · rintro rfl
        exact hnotTx (List.mem_map_of_mem hrest)

theorem heartbeat_ne_zero (node : NodeId) : CobId.heartbeat node ≠ 0 := by
  intro h0
  have hlt := node.raw.toNat_lt
  have h0 := congrArg UInt16.toNat h0
  unfold CobId.heartbeat at h0
  rw [UInt16.toNat_add, UInt8.toNat_toUInt16] at h0
  simp only [UInt16.reduceToNat] at h0
  omega

/-- What the plan says about the node that runs by it. -/
theorem CobPlan.collisionFree (h : CobPlan n.od n.running) : n.CollisionFree where
  sync_sdo := claims_free h.default h.sync_ne h.sync_sdo
  sync_pdo := by
    rw [pdoCobs_running]
    exact h.sync_pdo
  sync_monitor := by
    rw [monitorCobs_running]
    exact h.sync_monitor
  sync_fixed := by
    rw [List.mem_cons, not_or]
    exact ⟨h.sync_ne, h.sync_fixed⟩
  sdo_pdo := by
    intro ch hch cob hcob hne
    rw [pdoCobs_running] at hcob
    exact claims_free h.default hne (h.sdo_pdo cob hcob) ch hch
  sdo_monitor := by
    intro ch hch cob hcob
    rw [monitorCobs_running] at hcob
    have hne : cob ≠ 0 := by
      obtain ⟨monitor, -, hmonitor⟩ := List.mem_filterMap.mp hcob
      obtain ⟨m, -, rfl⟩ := Option.map_eq_some_iff.mp hmonitor
      exact heartbeat_ne_zero m.1
    exact claims_free h.default hne (h.sdo_monitor cob hcob) ch hch

end Free

/-- The COB-ID plan stays free of collisions when the dictionary the node is built over takes
the COB-IDs of its PDOs. -/
theorem cob_plan_collision_free {OD : Type} [ObjectDictionary OD] [StoreOd OD] {good : OD → Prop}
    (laws : CobObjects good) {config : NodeConfig} {od : OD} (hgood : good od)
    (htaken : config.cobsTaken od = true) {n : Node OD evt dirty} (hn : Node.new config od = some n)
    {calls : List (Call OD)} {m : Machine OD evt dirty} (hm : (Machine.start n).run calls = some m)
    (happ : ∀ f, .odMut f ∈ calls → KeepsCobs good f) (hrpdo : RpdosKeepCobs m.bus.trace) :
    m.node.CollisionFree := by
  have hstore : ∀ v, KeepsCobs good (fun od : OD => ObjectDictionary.storeErrorRegister od v) := by
    intro v od hgood
    refine ⟨laws.storeErrorRegister od v hgood, ?_⟩
    intro i s hi
    unfold cobRaw readInto
    rw [StoreOd.read_storeErrorRegister]
    rintro rfl
    simp [isCobObject, isPdoCommIndex] at hi
  have hsteps := run_steps hstore happ hm
  exact (cobPlan_steps laws hsteps (uncommitted_start hn) (new_cobRaw laws hn hgood).1
    (new_cobPlan laws hn hgood htaken) hrpdo).2.2.collisionFree

/-! ## Generated dictionaries -/

/-- The declared COB-ID objects are 32 bits wide. -/
def Derive.OdDefinition.cobsAreWords (d : OdDefinition) : Bool :=
  (OdFields.new d).cells.all fun c =>
    !isCobObject c.info.index c.info.subindex || c.info.dataType.size == some 4

section Generated

variable {d : OdDefinition} (hd : d.Valid) (hwords : d.cobsAreWords = true) {od : OdFields}
  (h : od.Typed d) {index : UInt16} {sub : UInt8}

theorem isCobObject_toNat (hi : isCobObject index sub = true) : index.toNat = 0x1005 ∨
    index.toNat = 0x1016 ∨ (0x1400 ≤ index.toNat ∧ index.toNat ≤ 0x15FF ∧ sub = 1) ∨
      (0x1800 ≤ index.toNat ∧ index.toNat ≤ 0x19FF ∧ sub = 1) := by
  simp only [isCobObject, isPdoCommIndex, Bool.or_eq_true, Bool.and_eq_true, beq_iff_eq,
    bne_iff_ne, decide_eq_true_eq, UInt16.le_iff_toNat_le, ← UInt16.toNat_inj,
    UInt16.reduceToNat] at hi
  tauto

include hd h in
theorem cob_ne_server (hi : isCobObject index sub = true) : ∀ s ∈ od.sdoServers, index ≠ s.decl.idx := by
  intro s hs hidx
  have hindex := isCobObject_toNat hi
  have hsd : s.decl ∈ d.sdoServers := by
    rw [← h.sdoServers]
    exact List.mem_map_of_mem hs
  have hnumber := hd.serverNumbers _ hsd
  have hsub : (s.decl.number - 1).toNat = s.decl.number.toNat - 1 :=
    UInt16.toNat_sub_of_le _ _ (UInt16.le_iff_toNat_le.mpr (le_trans (by decide) hnumber.1))
  rw [hidx, SdoServerDef.idx, UInt16.toNat_add, hsub] at hindex
  simp only [UInt16.reduceToNat] at hindex
  omega

include hd h in
/-- The generated objects among the COB-ID objects are the COB-IDs of the PDOs. -/
theorem cob_generatedObject (hi : isCobObject index sub = true)
    {o : DataType × AccessType × List UInt8} (ho : od.generatedObject index sub = some o) :
    o.1 = .u32 ∧ 0x1400 ≤ index.toNat := by
  have hindex := isCobObject_toNat hi
  simp only [OdFields.generatedObject, Option.orElse_eq_orElse, Option.orElse_eq_or,
    Option.or_eq_some_iff] at ho
  rcases ho with ho | ⟨-, ho | ⟨-, ho⟩⟩
  · obtain ⟨p, hp, hpo⟩ := List.exists_of_findSome?_eq_some ho
    have hpd : p.decl ∈ d.pdos := by
      rw [← h.pdos]
      exact List.mem_map_of_mem hp
    have hnumber := hd.numbers _ hpd
    have hcomm := commIdx_toNat hnumber
    have hmap := mapIdx_toNat hnumber
    have howner := object_index (by rw [hpo]; rfl : (p.object index sub).isSome = true)
    have hi : index.toNat = p.decl.commIdx.toNat ∧ 0x1400 ≤ index.toNat := by
      rw [← UInt16.toNat_inj, ← UInt16.toNat_inj] at howner
      cases hdir : p.decl.direction <;>
        simp only [hdir, PdoDirection.commBase, PdoDirection.mapBase, UInt16.reduceToNat] at hcomm hmap <;>
        omega
    have hsub : sub = 1 := by
      rcases hindex with h5 | h16 | ⟨-, -, h1⟩ | ⟨-, -, h1⟩
      · omega
      · omega
      · exact h1
      · exact h1
    obtain ⟨hcommIdx, hlow⟩ := hi
    obtain rfl := UInt16.toNat_inj.mp hcommIdx
    subst hsub
    simp only [PdoRecord.object, ↓reduceIte] at hpo
    cases hpo
    exact ⟨rfl, hlow⟩
  · obtain ⟨s, hs, hso⟩ := List.exists_of_findSome?_eq_some ho
    simp [SdoServerRecord.object, cob_ne_server hd h hi s hs] at hso
  · unfold edsObject at ho
    split_ifs at ho with h1 h2
    · rw [h1.1] at hindex
      simp at hindex
    · rw [h2.1] at hindex
      simp at hindex

include hd hwords h in
theorem cob_lookup (hi : isCobObject index sub = true) {info : OdEntryMeta}
    (hl : od.lookup index sub = some info) : info.dataType.size = some 4 := by
  unfold OdFields.lookup at hl
  cases hc : od.cell index sub with
  | some c =>
    rw [hc] at hl
    cases hl
    have haddr := List.find?_some hc
    simp only [Bool.and_eq_true, beq_iff_eq] at haddr
    have hkey : (c.info, c.capacity) ∈ (OdFields.new d).cells.map fun c => (c.info, c.capacity) := by
      rw [← h.cells]
      exact List.mem_map_of_mem (List.mem_of_find?_eq_some hc)
    obtain ⟨c', hc', heq⟩ := List.mem_map.mp hkey
    have hword := List.all_eq_true.mp hwords c' hc'
    rw [(Prod.mk.inj heq).1, haddr.1, haddr.2, hi] at hword
    simpa using hword
  | none =>
    rw [hc] at hl
    obtain ⟨o, ho, rfl⟩ := Option.map_eq_some_iff.mp hl
    rw [(cob_generatedObject hd h hi ho).1]
    rfl

theorem cobRaw_generated (od : GeneratedOd) {access : AccessType} {value : List UInt8}
    (ho : od.fields.object index sub = some (access, value)) (hlen : value.length = 4)
    (buf : FixedBuffer UInt8 4) :
    (if (readInto od index sub buf).1 then some (word32 (readInto od index sub buf).2.cells)
      else none) = if access = .wo then none else some (word32 value) := by
  change (if (od.fields.read index sub buf).1.isOk then
    some (word32 (od.fields.read index sub buf).2.cells) else none) = _
  simp only [OdFields.read, ho]
  by_cases haccess : access = .wo
  · simp [haccess, Except.isOk, Except.toBool]
  · rw [if_neg haccess, if_neg haccess, dif_pos hlen.le]
    simp only [FixedBuffer.cells_write_full buf hlen, Except.isOk, Except.toBool, ↓reduceIte]

include hd hwords h in
theorem cob_object (hi : isCobObject index sub = true) : od.object index sub = none ∨
    ∃ access value, od.object index sub = some (access, value) ∧ value.length = 4 := by
  cases hl : od.lookup index sub with
  | none =>
    left
    rw [← Option.not_isSome_iff_eq_none, ← lookup_isSome, hl]
    simp
  | some info =>
    obtain ⟨value, ho, hwidth⟩ := h.object_of_lookup hl
    exact .inr ⟨info.access, value, ho, hwidth 4 (cob_lookup hd hwords h hi hl)⟩

theorem readInto_none {od : GeneratedOd} (ho : od.fields.object index sub = none)
    (buf : FixedBuffer UInt8 4) : (readInto od index sub buf).1 = false := by
  change (od.fields.read index sub buf).1.isOk = false
  simp [OdFields.read, ho, Except.isOk, Except.toBool]

include hd hwords in
theorem cobRaw_write {od : GeneratedOd} (h : od.fields.Typed d) (hi : isCobObject index sub = true)
    {data : List UInt8} (hok : (od.fields.write index sub data).1 = .ok ()) :
    cobRaw (ObjectDictionary.write od index sub data).2 index sub =
      (cobRaw od index sub).map fun _ => word32 data := by
  obtain ⟨info, hl, -, hwidth, ho'⟩ := object_write_self hok
  have hsize := cob_lookup hd hwords h hi hl
  obtain ⟨value, ho, hvalue⟩ := h.object_of_lookup hl
  have hbool : info.dataType ≠ .boolean := by
    intro hbool
    rw [hbool] at hsize
    cases hsize
  rw [storedValue, if_neg hbool] at ho'
  have hbefore : cobRaw od index sub = if info.access = .wo then none else some (word32 value) :=
    cobRaw_generated od ho (hvalue 4 hsize) _
  have hafter : cobRaw (ObjectDictionary.write od index sub data).2 index sub =
      if info.access = .wo then none else some (word32 data) :=
    cobRaw_generated (ObjectDictionary.write od index sub data).2 ho' (hwidth 4 hsize) _
  rw [hbefore, hafter]
  split_ifs <;> rfl

theorem le_foldl_max {l : List UInt8} {a : UInt8} (acc : UInt8) (h : a ∈ l ∨ a ≤ acc) :
    a ≤ l.foldl max acc := by
  induction l generalizing acc with
  | nil => simpa using h
  | cons b l ih =>
    have hmax : max acc b = if acc ≤ b then b else acc := rfl
    apply ih
    rw [List.mem_cons, or_assoc] at h
    rw [hmax]
    rcases h with rfl | h | h
    · right
      split_ifs with hle
      · exact UInt8.le_refl a
      · exact UInt8.le_of_lt (UInt8.not_le.mp hle)
    · exact .inl h
    · right
      split_ifs with hle
      · exact UInt8.le_trans h hle
      · exact h

include hd h in
/-- The number of consumer entries covers the readable ones. -/
theorem subCount_covers (hs : sub ≠ 0) (ho : (od.object 0x1016 sub).isSome = true) :
    sub ≤ (od.subCount 0x1016).getD 0 := by
  have hi : isCobObject 0x1016 sub = true := by simp [isCobObject, hs]
  cases hc : od.cell 0x1016 sub with
  | none =>
    rw [OdFields.object, hc, Option.isSome_map] at ho
    obtain ⟨o, ho⟩ := Option.isSome_iff_exists.mp ho
    have hlow := (cob_generatedObject hd h hi ho).2
    exact absurd hlow (by decide)
  | some c =>
    have haddr := List.find?_some hc
    simp only [Bool.and_eq_true, beq_iff_eq] at haddr
    have hmem : c ∈ od.cells.filter (·.info.index == 0x1016) :=
      List.mem_filter.mpr ⟨List.mem_of_find?_eq_some hc, by simp [haddr.1]⟩
    unfold OdFields.subCount
    split
    · rename_i hnil
      rw [hnil] at hmem
      cases hmem
    · rw [Option.getD_some]
      apply le_foldl_max
      left
      rw [← haddr.2]
      exact List.mem_map_of_mem (f := fun c => c.info.subindex) hmem

include hd hwords in
/-- A generated dictionary keeps COB-IDs as the plan needs them. -/
theorem cobObjects_generated : CobObjects fun od : GeneratedOd => od.fields.Typed d where
  write := fun od index sub data h => h.write index sub data
  storeErrorRegister := fun od value h => h.storeErrorRegister value
  storeSdoServerCobIds := fun od node h => h.storeSdoServerCobIds node
  cobRaw_storeSdoServerCobIds := by
    intro od node index sub h hi
    have hsame (buf : FixedBuffer UInt8 4) :
        (od.fields.storeSdoServerCobIds node).read index sub buf = od.fields.read index sub buf :=
      OdFields.read_congr (OdFields.object_storeSdoServerCobIds node (cob_ne_server hd h hi)) buf
    unfold cobRaw readInto
    change (if ((od.fields.storeSdoServerCobIds node).read index sub _).1.isOk then
      some (word32 ((od.fields.storeSdoServerCobIds node).read index sub _).2.cells) else none) = _
    rw [hsame]
    rfl
  read_width := by
    intro od index sub buf h hi
    rcases cob_object hd hwords h hi with ho | ⟨access, value, ho, hlen⟩
    · simp [cobRaw, readInto_none ho]
    · exact (cobRaw_generated od ho hlen buf).trans (cobRaw_generated od ho hlen _).symm
  write_width := by
    intro od index sub data h hi hok
    obtain ⟨info, hl, -, hwidth, -⟩ := object_write_self hok
    exact hwidth 4 (cob_lookup hd hwords h hi hl)
  read_write := fun od index sub data h hi hok => cobRaw_write hd hwords h hi hok
  subCount := by
    intro od sub h hs hread
    refine subCount_covers hd h hs ?_
    by_contra hnone
    unfold cobRaw at hread
    dsimp only at hread
    rw [readInto_none (Option.not_isSome_iff_eq_none.mp hnone)] at hread
    cases hread

end Generated

/-! ## A colliding configuration -/

theorem rpdosKeepCobs_of_all {trace : List Obs} (h : trace.all (Obs.spares isCobObject) = true) :
    RpdosKeepCobs trace := by
  intro w state hw _
  simpa [Obs.spares] using List.all_eq_true.mp h _ hw

/-- The sample drive with its transmit PDO configured to a COB-ID of more than eleven bits. -/
def wideTpdoConfig : NodeConfig :=
  let config := NodeConfig.fromOd sampleOd sampleNode
  { config with tpdo := config.tpdo.map fun t => { t with cobId := 0x880 } }

/-- The node is booted and its communication is reset. -/
def resetCalls : List (Call GeneratedOd) :=
  [.process 0 [] [], .process 1000 [.literal 0x000 [0x82, 5]] []]

/-- COB-ID 0x880 passes the start-up check, and is SYNC's own once it is read back. -/
theorem cob_plan_collides :
    CobObjects (fun od : GeneratedOd => od.fields.Typed sampleDefinition) ∧
      sampleOd.fields.Typed sampleDefinition ∧
      ∃ (n : Node GeneratedOd 4 4) (m : Machine GeneratedOd 4 4),
        Node.new wideTpdoConfig sampleOd = some n ∧
        (Machine.start n).run resetCalls = some m ∧ RpdosKeepCobs m.bus.trace ∧
        m.node.sync.cob ∈ m.node.pdoCobs := by
  have hvalid : sampleDefinition.Valid := OdDefinition.valid (by decide)
  refine ⟨cobObjects_generated hvalid (by decide), typed_new hvalid, ?_⟩
  have hany : ((Node.new wideTpdoConfig sampleOd : Option (Node GeneratedOd 4 4)).bind fun n =>
      (Machine.start n).run resetCalls).any (fun m => m.node.pdoCobs.contains m.node.sync.cob &&
      m.bus.trace.all (Obs.spares isCobObject)) = true := by
    decide
  obtain ⟨m, hm, hp⟩ := (Option.any_eq_true _ _).mp hany
  obtain ⟨n, hn, hr⟩ := Option.bind_eq_some_iff.mp hm
  rw [Bool.and_eq_true] at hp
  exact ⟨n, m, hn, hr, rpdosKeepCobs_of_all hp.2, by simpa using hp.1⟩

/-- SYNC is moved to 0x090, then TPDO 1 to the old SYNC COB-ID. -/
def swapCalls : List (Call GeneratedOd) :=
  [.process 0 [] [],
    .process 1000 [.literal 0x605 [0x23, 0x05, 0x10, 0, 0x90, 0, 0, 0],
      .literal 0x605 [0x23, 0x00, 0x18, 1, 0x80, 0, 0, 0]] []]

theorem cob_plan_collision_free_swapped :
    ∃ m, sampleRun swapCalls = some m ∧ (m.node.sync.cob = 0x90 ∧ 0x80 ∈ m.node.pdoCobs) ∧
      m.node.CollisionFree := by
  have hany : (sampleRun swapCalls).any (fun m =>
      (m.node.sync.cob == 0x90 && m.node.pdoCobs.contains 0x80) &&
      m.bus.trace.all (Obs.spares isCobObject)) = true := by
    decide
  obtain ⟨n, m, hn, hr, hm, hp⟩ := sampleRun_of_any hany
  rw [Bool.and_eq_true, Bool.and_eq_true, beq_iff_eq, List.contains_iff_mem] at hp
  have hvalid : sampleDefinition.Valid := OdDefinition.valid (by decide)
  refine ⟨m, hm, hp.1, ?_⟩
  exact cob_plan_collision_free (cobObjects_generated hvalid (by decide))
    (typed_new hvalid) (by decide) hn hr (by simp [swapCalls]) (rpdosKeepCobs_of_all hp.2)

end Canopen
