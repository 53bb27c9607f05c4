import Canopen.Node.Mirror

/-!
# The COB-ID plan

A node checks its COB-IDs once at construction; afterwards the validators of the SDO
server check every download against the running configuration. The plan stays free
of collisions as long as the running configuration follows the COB-ID objects of the
dictionary, from the first state on.
-/

namespace Canopen

open Pdo Sdo

variable {OD : Type} [ObjectDictionary OD] {evt dirty : ℕ}

/-! ## COB-ID objects -/

/-- The objects that hold COB-IDs of SYNC, monitored heartbeats and PDOs. -/
def isCobObject (index : UInt16) (sub : UInt8) : Bool :=
  (index == 0x1005 && sub == 0) || (index == 0x1016 && sub != 0) ||
    (isPdoCommIndex index && sub == 1)

/-- The value of such an object, `none` when it cannot be read. -/
def cobRaw (od : OD) (index : UInt16) (sub : UInt8) : Option UInt32 :=
  let (ok, buf) := readInto od index sub (FixedBuffer.filled 4 0)
  if ok then some (word32 buf.cells) else none

/-- What the plan relies on in a dictionary, for the dictionaries that are `good`: COB-ID
objects are four bytes wide, an accepted write is read back, and the sub-index count of
0x1016 covers its readable entries. -/
structure CobObjects (good : OD → Prop) : Prop where
  write : ∀ od index sub data, good od → good (ObjectDictionary.write od index sub data).2
  storeErrorRegister : ∀ od value, good od → good (ObjectDictionary.storeErrorRegister od value)
  storeSdoServerCobIds : ∀ od node, good od → good (ObjectDictionary.storeSdoServerCobIds od node)
  cobRaw_storeSdoServerCobIds : ∀ od node index sub, good od → isCobObject index sub = true →
    cobRaw (ObjectDictionary.storeSdoServerCobIds od node) index sub = cobRaw od index sub
  read_width : ∀ od index sub (buf : FixedBuffer UInt8 4), good od → isCobObject index sub = true →
    (if (readInto od index sub buf).1 then some (word32 (readInto od index sub buf).2.cells) else none) =
      cobRaw od index sub
  write_width : ∀ od index sub data, good od → isCobObject index sub = true →
    (ObjectDictionary.write od index sub data).1 = .ok () → data.length = 4
  read_write : ∀ od index sub data, good od → isCobObject index sub = true →
    (ObjectDictionary.write od index sub data).1 = .ok () →
      cobRaw (ObjectDictionary.write od index sub data).2 index sub =
        (cobRaw od index sub).map fun _ => word32 data
  subCount : ∀ od sub, good od → sub ≠ 0 → (cobRaw od 0x1016 sub).isSome = true →
    sub ≤ (ObjectDictionary.subCount od 0x1016).getD 0

/-! ## The plan -/

namespace Running

def sdoCobIds (c : Running) : SdoCobIds :=
  ⟨CobId.sdoRx c.nodeId, CobId.sdoTx c.nodeId, c.sdoCobs.tail.map (·.1), c.sdoCobs.tail.map (·.2)⟩

def pdoCobs (c : Running) : List UInt16 := c.tpdos.map (·.cobId) ++ c.rpdos.map (·.cobId)

def monitorCobs (c : Running) : List UInt16 :=
  c.monitors.filterMap (·.map fun m => CobId.heartbeat m.1)

def fixedCobs (c : Running) : List UInt16 :=
  [CobId.emergency c.nodeId, CobId.heartbeat c.nodeId, lssRequestCob, lssResponseCob]

end Running

/-- Every COB-ID object of a declared PDO is one the SDO server checks, and what it holds,
where it can be read, is the COB-ID of a declared PDO. -/
structure CobsFollow (od : OD) (c : Running) : Prop where
  tpdo : ∀ k config, c.tpdos[k]? = some config →
    isPdoCommIndex (0x1800 + pdoOdOffset config.odNumber k) = true ∧
    ∀ raw, cobRaw od (0x1800 + pdoOdOffset config.odNumber k) 1 = some raw → pdoCob raw ∈ c.pdoCobs
  rpdo : ∀ k config, c.rpdos[k]? = some config →
    isPdoCommIndex (0x1400 + pdoOdOffset config.odNumber k) = true ∧
    ∀ raw, cobRaw od (0x1400 + pdoOdOffset config.odNumber k) 1 = some raw → pdoCob raw ∈ c.pdoCobs

/-- The SYNC COB-ID as the dictionary has it, the default when it cannot be read. -/
def syncCobOf (od : OD) : UInt16 :=
  match cobRaw od 0x1005 0 with
  | some raw => (raw &&& 0x7FF).toUInt16
  | none => syncCobIdDefault

/-- A plan without collisions, followed by the running configuration. -/
structure CobPlan (od : OD) (c : Running) : Prop where
  pdos : CobsFollow od c
  count : c.monitors.length = maxHeartbeatMonitors
  monitors : ∀ i monitor, c.monitors[i]? = some monitor →
    monitor = (cobRaw od 0x1016 (UInt8.ofNat (i + 1))).bind monitoredNode
  sync : c.syncCob = syncCobOf od
  default : c.sdoCobs.head? = some (CobId.sdoRx c.nodeId, CobId.sdoTx c.nodeId)
  sync_ne : c.syncCob ≠ 0
  sync_sdo : c.sdoCobIds.claims c.syncCob = false
  sync_fixed : c.syncCob ∉ c.fixedCobs
  sync_pdo : c.syncCob ∉ c.pdoCobs
  sync_monitor : c.syncCob ∉ c.monitorCobs
  sdo_pdo : ∀ cob ∈ c.pdoCobs, c.sdoCobIds.claims cob = false
  sdo_monitor : ∀ cob ∈ c.monitorCobs, c.sdoCobIds.claims cob = false

section Views

variable (n : Node OD evt dirty)

omit [ObjectDictionary OD]

theorem sdoCobIds_running : n.sdoCobIds = n.running.sdoCobIds := by
  simp [Node.sdoCobIds, Running.sdoCobIds, Node.running, Function.comp_def, SdoChannel.cobs,
    List.map_tail]

theorem pdoCobs_running : n.pdoCobs = n.running.pdoCobs := by
  simp [Node.pdoCobs, Running.pdoCobs, Node.running, Function.comp_def]

theorem monitorCobs_running : n.monitorCobs = n.running.monitorCobs := by
  unfold Node.monitorCobs Running.monitorCobs Node.running
  rw [List.filterMap_map]
  congr 1
  funext monitor
  cases monitor <;> rfl

end Views

/-! ## The reserved list -/

theorem collectReserved_mono (l : List UInt16) (r : ReservedCobIds) :
    (∀ cob ∈ r.ids, cob ∈ (Node.collectReserved l r).ids) ∧
      (r.truncated = true → (Node.collectReserved l r).truncated = true) := by
  induction l generalizing r with
  | nil => exact ⟨fun _ h => h, id⟩
  | cons cob l ih =>
    unfold Node.collectReserved
    split_ifs
    · exact ih r
    · obtain ⟨hids, htrunc⟩ := ih { r with ids := r.ids ++ [cob] }
      exact ⟨fun c hc => hids c (List.mem_append_left _ hc), htrunc⟩
    · obtain ⟨hids, htrunc⟩ := ih { r with truncated := true }
      exact ⟨hids, fun _ => htrunc rfl⟩

/-- A list that was not cut off has every COB-ID. -/
theorem collectReserved_complete {l : List UInt16} {r : ReservedCobIds}
    (h : (Node.collectReserved l r).truncated = false) :
    ∀ cob ∈ l, cob ≠ 0 → cob ∈ (Node.collectReserved l r).ids := by
  induction l generalizing r with
  | nil => simp
  | cons cob l ih =>
    intro c hc hne
    unfold Node.collectReserved at h ⊢
    rcases List.mem_cons.mp hc with rfl | hc
    · split_ifs at h ⊢ with hskip hroom
      · rcases hskip with h0 | hmem
        · exact absurd h0 hne
        · exact (collectReserved_mono l r).1 c (by simpa using hmem)
      · exact (collectReserved_mono l _).1 c (List.mem_append_right _ (List.mem_singleton_self c))
      · rw [(collectReserved_mono l _).2 rfl] at h
        cases h
    · exact ih h c hc hne

omit [ObjectDictionary OD] in
theorem reserved_free {n : Node OD evt dirty} {cob : UInt16} (hne : cob ≠ 0)
    (h : n.reservedCobIds.claims cob = false) :
    cob ∉ n.fixedCobs ∧ cob ∉ n.pdoCobs ∧ cob ∉ n.monitorCobs := by
  simp only [ReservedCobIds.claims, Bool.and_eq_false_iff, bne_eq_false_iff_eq, hne, false_or,
    Bool.or_eq_false_iff] at h
  have hall : ∀ c ∈ n.fixedCobs ++ n.pdoCobs ++ n.monitorCobs, c ≠ 0 →
      c ∈ n.reservedCobIds.ids := collectReserved_complete h.1
  have hnot : cob ∉ n.reservedCobIds.ids := by simpa using h.2
  refine ⟨?_, ?_, ?_⟩
  · exact fun hc => hnot (hall cob (by simp [hc]) hne)
  · exact fun hc => hnot (hall cob (by simp [hc]) hne)
  · exact fun hc => hnot (hall cob (by simp [hc]) hne)

/-! ## The validators -/

section Validators

variable {od : OD} {ctx : SdoContext} {index : UInt16} {sub : UInt8} {data : List UInt8}

theorem validateDownload_ok (h : validateDownload od ctx index sub data = .ok ()) :
    validateHeartbeatConsumerWrite od ctx.cobIds ctx.syncCobId ctx.heartbeatConsumerCount index
        sub data = .ok () ∧
      validatePdoCobIdWrite ctx.cobIds ctx.syncCobId index sub data = .ok () ∧
      validateSyncCobIdWrite ctx.cobIds ctx.reservedCobIds index sub data = .ok () := by
  unfold validateDownload at h
  simp only [bind, Except.bind] at h
  cases h₁ : validateHeartbeatConsumerWrite od ctx.cobIds ctx.syncCobId ctx.heartbeatConsumerCount
      index sub data with
  | error e => simp [h₁, Except.mapError] at h
  | ok u =>
    cases h₂ : validatePdoCobIdWrite ctx.cobIds ctx.syncCobId index sub data with
    | error e => simp [h₁, h₂, Except.mapError] at h
    | ok u =>
      cases h₃ : validateSyncCobIdWrite ctx.cobIds ctx.reservedCobIds index sub data with
      | error e => simp [h₁, h₂, h₃, Except.mapError] at h
      | ok u => exact ⟨rfl, rfl, rfl⟩

omit [ObjectDictionary OD] in
theorem validateSync_ok (hlen : data.length = 4)
    (h : validateSyncCobIdWrite ctx.cobIds ctx.reservedCobIds 0x1005 0 data = .ok ()) :
    ctx.cobIds.claims (word32 data &&& 0x7FF).toUInt16 = false ∧
      ctx.reservedCobIds.claims (word32 data &&& 0x7FF).toUInt16 = false := by
  unfold validateSyncCobIdWrite at h
  rw [if_neg (by simp [hlen])] at h
  dsimp only at h
  split_ifs at h with hsupported hclaims
  simpa using hclaims

omit [ObjectDictionary OD] in
theorem validatePdo_ok (hi : isPdoCommIndex index = true) (hlen : data.length = 4)
    (h : validatePdoCobIdWrite ctx.cobIds ctx.syncCobId index 1 data = .ok ()) :
    ctx.cobIds.claims (pdoCob (word32 data)) = false ∧
      (ctx.syncCobId ≠ 0 → pdoCob (word32 data) ≠ ctx.syncCobId) := by
  unfold validatePdoCobIdWrite at h
  rw [if_neg (by simp [hi, hlen])] at h
  dsimp only at h
  split_ifs at h with hrange hclaims
  simp only [Bool.or_eq_true, not_or, Bool.not_eq_true, Bool.and_eq_true, bne_iff_ne, beq_iff_eq,
    not_and] at hclaims
  refine ⟨hclaims.1, ?_⟩
  intro hsync heq
  exact hclaims.2 (by unfold pdoCob at heq; rw [heq]; exact hsync) heq

/-- An accepted consumer entry that is in use monitors a node whose heartbeat is neither an
SDO server's COB-ID nor SYNC's. -/
theorem validateHeartbeat_ok (hsub : sub ≠ 0) (hlen : data.length = 4)
    (hcount : sub ≤ ctx.heartbeatConsumerCount)
    (h : validateHeartbeatConsumerWrite od ctx.cobIds ctx.syncCobId ctx.heartbeatConsumerCount
      0x1016 sub data = .ok ()) {node : NodeId} {timeMs : UInt16}
    (hmonitored : monitoredNode (word32 data) = some (node, timeMs)) :
    ctx.cobIds.claims (CobId.heartbeat node) = false ∧ CobId.heartbeat node ≠ ctx.syncCobId := by
  unfold monitoredNode at hmonitored
  dsimp only at hmonitored
  split_ifs at hmonitored with htime
  obtain ⟨node', hnode', heq⟩ := Option.map_eq_some_iff.mp hmonitored
  cases heq
  have hraw : node.raw = ((word32 data >>> 16) &&& 0xFF).toUInt8 := by
    unfold NodeId.new at hnode'
    split_ifs at hnode'
    cases hnode'
    rfl
  have hcob : (0x700 : UInt16) + ((word32 data >>> 16) &&& 0xFF).toUInt16 = CobId.heartbeat node := by
    unfold CobId.heartbeat
    rw [hraw]
    congr 1
    have hle : (word32 data >>> 16 &&& 0xFF).toNat ≤ 255 := by
      rw [UInt32.toNat_and]
      exact Nat.and_le_right
    rw [← UInt16.toNat_inj, UInt32.toNat_toUInt16, UInt8.toNat_toUInt16, UInt32.toNat_toUInt8]
    omega
  have hactive : word32 data &&& 0xFFFF ≠ 0 := by
    intro h0
    rw [h0] at htime
    exact htime rfl
  unfold validateHeartbeatConsumerWrite at h
  rw [if_neg (by simp [hsub, hlen])] at h
  dsimp only at h
  rw [hcob] at h
  split_ifs at h with hreserved hrange hcollision
  simp only [hcount, true_and, not_or, Bool.not_eq_true] at hcollision
  exact hcollision

end Validators

/-! ## Reading the plan -/

section Reads

theorem rereadEach_get {κ : Type} {f : ℕ → κ → ReadBufs → κ × ReadBufs} {n k : ℕ}
    {configs : List κ} {b : ReadBufs} {config' : κ}
    (h : (rereadEach f n configs b).1[k]? = some config') :
    ∃ config b', configs[k]? = some config ∧ config' = (f (n + k) config b').1 := by
  induction configs generalizing n k b with
  | nil => simp [rereadEach] at h
  | cons config configs ih =>
    cases k with
    | zero =>
      simp only [rereadEach, List.getElem?_cons_zero, Option.some.injEq] at h
      exact ⟨config, b, rfl, h.symm⟩
    | succ k =>
      simp only [rereadEach, List.getElem?_cons_succ] at h
      obtain ⟨config₀, b', hget, heq⟩ := ih h
      have hslot : n + 1 + k = n + (k + 1) := by omega
      exact ⟨config₀, b', hget, by rw [heq, hslot]⟩

variable {good : OD → Prop} (laws : CobObjects good) {od od' : OD} (hgood : good od)
include laws hgood

theorem syncTpdoConfig_cob {slot : ℕ} {config : TpdoConfig}
    (hi : isPdoCommIndex (0x1800 + pdoOdOffset config.odNumber slot) = true) (b : ReadBufs) :
    (syncTpdoConfig od slot config b).1.cobId =
      ((cobRaw od (0x1800 + pdoOdOffset config.odNumber slot) 1).map pdoCob).getD config.cobId := by
  have hread := laws.read_width od _ 1 b.buf4 hgood
    (by simp [isCobObject, hi] : isCobObject (0x1800 + pdoOdOffset config.odNumber slot) 1 = true)
  rw [← hread]
  unfold syncTpdoConfig
  dsimp only
  split_ifs <;> rfl

theorem syncRpdoConfig_cob {slot : ℕ} {config : RpdoConfig}
    (hi : isPdoCommIndex (0x1400 + pdoOdOffset config.odNumber slot) = true) (b : ReadBufs) :
    (syncRpdoConfig od slot config b).1.cobId =
      ((cobRaw od (0x1400 + pdoOdOffset config.odNumber slot) 1).map pdoCob).getD config.cobId := by
  have hread := laws.read_width od _ 1 b.buf4 hgood
    (by simp [isCobObject, hi] : isCobObject (0x1400 + pdoOdOffset config.odNumber slot) 1 = true)
  rw [← hread]
  unfold syncRpdoConfig
  dsimp only
  split_ifs <;> rfl

theorem configuredMonitors_get {slot k i : ℕ} (hk : slot + k ≤ maxHeartbeatMonitors)
    {buf : FixedBuffer UInt8 4} {monitor : Option (NodeId × UInt16)}
    (h : (configuredMonitors od slot k buf)[i]? = some monitor) :
    monitor = (cobRaw od 0x1016 (UInt8.ofNat (slot + i + 1))).bind monitoredNode := by
  induction k generalizing slot i buf with
  | zero => simp [configuredMonitors] at h
  | succ k ih =>
    cases i with
    | zero =>
      simp only [configuredMonitors, List.getElem?_cons_zero, Option.some.injEq] at h
      have hsub : isCobObject 0x1016 (UInt8.ofNat (slot + 1)) = true := by
        have hlt : slot + 1 < 256 := by
          unfold maxHeartbeatMonitors at hk
          omega
        have hne : UInt8.ofNat (slot + 1) ≠ 0 := by
          intro h0
          have := congrArg UInt8.toNat h0
          rw [UInt8.toNat_ofNat', Nat.mod_eq_of_lt hlt] at this
          exact absurd this (by simp)
        simp only [isCobObject, Bool.or_eq_true, Bool.and_eq_true, beq_self_eq_true, bne_iff_ne,
          true_and]
        exact .inl (.inr hne)
      rw [← h, Nat.add_zero, ← laws.read_width od 0x1016 _ buf hgood hsub]
      split_ifs <;> rfl
    | succ i =>
      simp only [configuredMonitors, List.getElem?_cons_succ] at h
      rw [ih (by omega) h]
      congr 3
      omega

end Reads

/-! ## Writes and the plan -/

/-- One object is overwritten with `v`; a COB-ID object among them stays readable or not. -/
structure CobWritten (od od' : OD) (index : UInt16) (sub : UInt8) (v : UInt32) : Prop where
  other : ∀ i s, isCobObject i s = true → (i, s) ≠ (index, sub) → cobRaw od' i s = cobRaw od i s
  self : isCobObject index sub = true → cobRaw od' index sub = (cobRaw od index sub).map fun _ => v

theorem cobWritten_refl (od : OD) : CobWritten od od 0 0 0 where
  other := fun _ _ _ _ => rfl
  self := fun h => absurd h (by decide)

theorem fromRaw_cob {raw : UInt32} {sync : SyncCobId} (h : SyncCobId.fromRaw raw = some sync) :
    sync.cobId = (raw &&& 0x7FF).toUInt16 ∧ sync.cobId ≠ 0 := by
  unfold SyncCobId.fromRaw at h
  split_ifs at h with hsupported
  cases h
  refine ⟨rfl, ?_⟩
  simp only [isSupportedSyncCobId, Bool.and_eq_true, bne_iff_ne] at hsupported
  intro h0
  apply hsupported.2
  have hle : (raw &&& 0x7FF).toNat ≤ 0x7FF := by
    rw [UInt32.toNat_and]
    exact Nat.and_le_right
  have h0 := congrArg UInt16.toNat h0
  rw [UInt32.toNat_toUInt16] at h0
  rw [← UInt32.toNat_inj]
  change _ = 0
  change _ % 65536 = 0 at h0
  omega

theorem syncParameters_cob {od : OD} {p : Node.SyncParameters}
    (h : Node.syncParameters od = some p) : p.cobId = syncCobOf od ∧ p.cobId ≠ 0 := by
  unfold Node.syncParameters at h
  unfold syncCobOf cobRaw
  dsimp only at h ⊢
  split at h
  · rename_i hok
    obtain ⟨sync, hsync, hrest⟩ := Option.bind_eq_some_iff.mp h
    have hcob : p.cobId = sync.cobId := by
      obtain ⟨-, hp⟩ := Option.ite_none_right_eq_some.mp hrest
      cases hp
      rfl
    rw [if_pos hok, hcob]
    exact fromRaw_cob hsync
  · rename_i hok
    obtain ⟨sync, hsync, hrest⟩ := Option.bind_eq_some_iff.mp h
    have hcob : p.cobId = sync.cobId := by
      obtain ⟨-, hp⟩ := Option.ite_none_right_eq_some.mp hrest
      cases hp
      rfl
    cases hsync
    rw [if_neg hok, hcob]
    exact ⟨rfl, by decide⟩

section Write

variable {good : OD → Prop} (laws : CobObjects good) {od od' : OD} (hgood' : good od')
  {index : UInt16} {sub : UInt8} {v : UInt32} (hw : CobWritten od od' index sub v) {c : Running}
  (h : CobPlan od c)

include hw in
theorem CobWritten.cases {i : UInt16} {s : UInt8} (hi : isCobObject i s = true) :
    cobRaw od' i s = cobRaw od i s ∨
      ((i, s) = (index, sub) ∧ cobRaw od' i s = (cobRaw od i s).map fun _ => v) := by
  by_cases haddr : (i, s) = (index, sub)
  · obtain ⟨rfl, rfl⟩ := Prod.mk.inj haddr
    exact .inr ⟨rfl, hw.self hi⟩
  · exact .inl (hw.other i s hi haddr)

include hw in
theorem CobWritten.syncCobOf (hne : index ≠ 0x1005 ∨ sub ≠ 0) : syncCobOf od' = Canopen.syncCobOf od := by
  unfold Canopen.syncCobOf
  rw [hw.other 0x1005 0 (by decide)]
  intro haddr
  obtain ⟨rfl, rfl⟩ := Prod.mk.inj haddr
  simp at hne

include hw in
theorem CobWritten.monitor (hne : index ≠ 0x1016) {i : ℕ} (hi : i < maxHeartbeatMonitors) :
    cobRaw od' 0x1016 (UInt8.ofNat (i + 1)) = cobRaw od 0x1016 (UInt8.ofNat (i + 1)) := by
  apply hw.other
  · unfold maxHeartbeatMonitors at hi
    interval_cases i <;> decide
  · intro haddr
    exact hne (Prod.mk.inj haddr).1.symm

include laws hgood' hw h in
/-- The COB-IDs of re-read transmit PDOs are old ones, or the one just written. -/
theorem tpdo_cob {k : ℕ} {config' : TpdoConfig} (hget : (c.rereadPdos od').tpdos[k]? = some config') :
    (isPdoCommIndex (0x1800 + pdoOdOffset config'.odNumber k) = true ∧
      ∀ raw, cobRaw od' (0x1800 + pdoOdOffset config'.odNumber k) 1 = some raw →
        config'.cobId = pdoCob raw) ∧
    (config'.cobId ∈ c.pdoCobs ∨
      (isPdoCommIndex index = true ∧ sub = 1 ∧ config'.cobId = pdoCob v)) := by
  obtain ⟨config, b, hold, rfl⟩ := rereadEach_get hget
  obtain ⟨hi, hfollow⟩ := h.pdos.tpdo k config hold
  rw [Nat.zero_add, syncTpdoConfig_odNumber, syncTpdoConfig_cob laws hgood' hi]
  refine ⟨⟨hi, fun raw hraw => by rw [hraw]; rfl⟩, ?_⟩
  have hmem : config.cobId ∈ c.pdoCobs :=
    List.mem_append_left _ (List.mem_map_of_mem (List.mem_of_getElem? hold))
  rcases hw.cases (by simp [isCobObject, hi] :
      isCobObject (0x1800 + pdoOdOffset config.odNumber k) 1 = true) with heq | ⟨haddr, heq⟩ <;>
    rw [heq]
  · cases hraw : cobRaw od (0x1800 + pdoOdOffset config.odNumber k) 1 with
    | none => exact .inl hmem
    | some raw =>
      exact .inl (hfollow raw hraw)
  · obtain ⟨rfl, rfl⟩ := Prod.mk.inj haddr
    cases cobRaw od (0x1800 + pdoOdOffset config.odNumber k) 1 with
    | none => exact .inl hmem
    | some raw => exact .inr ⟨hi, rfl, rfl⟩

include laws hgood' hw h in
/-- The COB-IDs of re-read receive PDOs are old ones, or the one just written. -/
theorem rpdo_cob {k : ℕ} {config' : RpdoConfig} (hget : (c.rereadPdos od').rpdos[k]? = some config') :
    (isPdoCommIndex (0x1400 + pdoOdOffset config'.odNumber k) = true ∧
      ∀ raw, cobRaw od' (0x1400 + pdoOdOffset config'.odNumber k) 1 = some raw →
        config'.cobId = pdoCob raw) ∧
    (config'.cobId ∈ c.pdoCobs ∨
      (isPdoCommIndex index = true ∧ sub = 1 ∧ config'.cobId = pdoCob v)) := by
  obtain ⟨config, b, hold, rfl⟩ := rereadEach_get hget
  obtain ⟨hi, hfollow⟩ := h.pdos.rpdo k config hold
  rw [Nat.zero_add, syncRpdoConfig_odNumber, syncRpdoConfig_cob laws hgood' hi]
  refine ⟨⟨hi, fun raw hraw => by rw [hraw]; rfl⟩, ?_⟩
  have hmem : config.cobId ∈ c.pdoCobs :=
    List.mem_append_right _ (List.mem_map_of_mem (List.mem_of_getElem? hold))
  rcases hw.cases (by simp [isCobObject, hi] :
      isCobObject (0x1400 + pdoOdOffset config.odNumber k) 1 = true) with heq | ⟨haddr, heq⟩ <;>
    rw [heq]
  · cases hraw : cobRaw od (0x1400 + pdoOdOffset config.odNumber k) 1 with
    | none => exact .inl hmem
    | some raw =>
      exact .inl (hfollow raw hraw)
  · obtain ⟨rfl, rfl⟩ := Prod.mk.inj haddr
    cases cobRaw od (0x1400 + pdoOdOffset config.odNumber k) 1 with
    | none => exact .inl hmem
    | some raw => exact .inr ⟨hi, rfl, rfl⟩

include laws hgood' hw h in
theorem CobPlan.rereadPdos (hindex : index ≠ 0x1005 ∧ index ≠ 0x1016)
    (hfree : isPdoCommIndex index = true → sub = 1 →
      c.sdoCobIds.claims (pdoCob v) = false ∧ c.syncCob ≠ pdoCob v) :
    CobPlan od' (c.rereadPdos od') := by
  have hcobs : ∀ cob ∈ (c.rereadPdos od').pdoCobs, cob ∈ c.pdoCobs ∨
      (isPdoCommIndex index = true ∧ sub = 1 ∧ cob = pdoCob v) := by
    intro cob hcob
    rcases List.mem_append.mp hcob with hcob | hcob
    · obtain ⟨config, hconfig, rfl⟩ := List.mem_map.mp hcob
      obtain ⟨k, hget⟩ := List.mem_iff_getElem?.mp hconfig
      exact (tpdo_cob laws hgood' hw h hget).2
    · obtain ⟨config, hconfig, rfl⟩ := List.mem_map.mp hcob
      obtain ⟨k, hget⟩ := List.mem_iff_getElem?.mp hconfig
      exact (rpdo_cob laws hgood' hw h hget).2
  refine { h with pdos := ?_, monitors := ?_, sync := ?_, sync_pdo := ?_, sdo_pdo := ?_ }
  · constructor
    · intro k config hget
      obtain ⟨hi, hfollow⟩ := (tpdo_cob laws hgood' hw h hget).1
      refine ⟨hi, fun raw hraw => ?_⟩
      rw [← hfollow raw hraw]
      exact List.mem_append_left _ (List.mem_map_of_mem (List.mem_of_getElem? hget))
    · intro k config hget
      obtain ⟨hi, hfollow⟩ := (rpdo_cob laws hgood' hw h hget).1
      refine ⟨hi, fun raw hraw => ?_⟩
      rw [← hfollow raw hraw]
      exact List.mem_append_right _ (List.mem_map_of_mem (List.mem_of_getElem? hget))
  · intro i monitor hget
    have hi : i < maxHeartbeatMonitors := by
      rw [← h.count]
      exact (List.getElem?_eq_some_iff.mp hget).1
    rw [hw.monitor hindex.2 hi]
    exact h.monitors i monitor hget
  · rw [hw.syncCobOf (.inl hindex.1)]
    exact h.sync
  · intro hmem
    rcases hcobs _ hmem with hold | ⟨hi, hsub, heq⟩
    · exact h.sync_pdo hold
    · exact (hfree hi hsub).2 heq
  · intro cob hcob
    rcases hcobs cob hcob with hold | ⟨hi, hsub, rfl⟩
    · exact h.sdo_pdo cob hold
    · exact (hfree hi hsub).1

include hw h in
theorem CobPlan.of_other (hne : isPdoCommIndex index = false ∨ sub ≠ 1) : CobsFollow od' c := by
  have hsame {i : UInt16} (hi : isPdoCommIndex i = true) : cobRaw od' i 1 = cobRaw od i 1 := by
    apply hw.other i 1 (by simp [isCobObject, hi])
    intro haddr
    obtain ⟨rfl, rfl⟩ := Prod.mk.inj haddr
    simp [hi] at hne
  constructor
  · intro k config hget
    obtain ⟨hi, hfollow⟩ := h.pdos.tpdo k config hget
    exact ⟨hi, fun raw hraw => hfollow raw (hsame hi ▸ hraw)⟩
  · intro k config hget
    obtain ⟨hi, hfollow⟩ := h.pdos.rpdo k config hget
    exact ⟨hi, fun raw hraw => hfollow raw (hsame hi ▸ hraw)⟩

include laws hgood' hw h in
theorem CobPlan.rereadHeartbeat (hindex : index ≠ 0x1005) (hpdo : isPdoCommIndex index = false)
    (hfree : index = 0x1016 → (cobRaw od 0x1016 sub).isSome = true → sub ≠ 0 → sub ≤ 8 →
      ∀ node timeMs, monitoredNode v = some (node, timeMs) →
        c.sdoCobIds.claims (CobId.heartbeat node) = false ∧ CobId.heartbeat node ≠ c.syncCob) :
    CobPlan od' (c.rereadHeartbeat od') := by
  have hmonitors : ∀ i monitor, (c.rereadHeartbeat od').monitors[i]? = some monitor →
      i < maxHeartbeatMonitors ∧
        monitor = (cobRaw od' 0x1016 (UInt8.ofNat (i + 1))).bind monitoredNode := by
    intro i monitor hget
    have hi : i < c.monitors.length := by
      have := (List.getElem?_eq_some_iff.mp hget).1
      rwa [Running.rereadHeartbeat, length_configuredMonitors] at this
    rw [h.count] at hi
    have heq := configuredMonitors_get laws hgood' (by rw [h.count, Nat.zero_add]) hget
    rw [Nat.zero_add] at heq
    exact ⟨hi, heq⟩
  have hcobs : ∀ cob ∈ (c.rereadHeartbeat od').monitorCobs,
      c.sdoCobIds.claims cob = false ∧ cob ≠ c.syncCob := by
    intro cob hcob
    obtain ⟨monitor, hmem, hmonitor⟩ := List.mem_filterMap.mp hcob
    obtain ⟨i, hget⟩ := List.mem_iff_getElem?.mp hmem
    obtain ⟨hi, heq⟩ := hmonitors i monitor hget
    obtain ⟨⟨node, timeMs⟩, rfl, rfl⟩ := Option.map_eq_some_iff.mp hmonitor
    have hobject : isCobObject 0x1016 (UInt8.ofNat (i + 1)) = true := by
      unfold maxHeartbeatMonitors at hi
      interval_cases i <;> decide
    rcases hw.cases hobject with hraw | ⟨haddr, hraw⟩ <;> rw [hraw] at heq
    · -- the entry is as before, and so is its monitor
      have hold : (CobId.heartbeat node) ∈ c.monitorCobs := by
        have hi' : i < c.monitors.length := by rw [h.count]; exact hi
        refine List.mem_filterMap.mpr ⟨c.monitors[i], List.getElem_mem hi', ?_⟩
        rw [h.monitors i c.monitors[i] (List.getElem?_eq_getElem hi'), ← heq]
        rfl
      exact ⟨h.sdo_monitor _ hold, fun hsync => h.sync_monitor (hsync ▸ hold)⟩
    · obtain ⟨hi16, rfl⟩ := Prod.mk.inj haddr
      cases hold : cobRaw od 0x1016 (UInt8.ofNat (i + 1)) with
      | none => rw [hold] at heq; cases heq
      | some raw =>
        rw [hold, Option.map_some, Option.bind_some] at heq
        refine hfree hi16.symm (by rw [hold]; rfl) ?_ ?_ node timeMs heq.symm
        · unfold maxHeartbeatMonitors at hi
          interval_cases i <;> decide
        · unfold maxHeartbeatMonitors at hi
          interval_cases i <;> decide
  have hpdos := h.of_other hw (.inl hpdo)
  refine { h with
    pdos := ⟨hpdos.tpdo, hpdos.rpdo⟩, count := ?_, monitors := ?_, sync := ?_, sync_monitor := ?_,
    sdo_monitor := ?_ }
  · exact (length_configuredMonitors ..).trans h.count
  · exact fun i monitor hget => (hmonitors i monitor hget).2
  · rw [hw.syncCobOf (.inl hindex)]
    exact h.sync
  · exact fun hmem => (hcobs _ hmem).2 rfl
  · exact fun cob hcob => (hcobs cob hcob).1

include hw h in
theorem CobPlan.withSync (hpdo : isPdoCommIndex index = false) (hindex : index ≠ 0x1016)
    {p : Node.SyncParameters} (hp : Node.syncParameters od' = some p)
    (hfree : index = 0x1005 → sub = 0 → (v &&& 0x7FF).toUInt16 ≠ 0 →
      c.sdoCobIds.claims (v &&& 0x7FF).toUInt16 = false ∧ (v &&& 0x7FF).toUInt16 ∉ c.fixedCobs ∧
        (v &&& 0x7FF).toUInt16 ∉ c.pdoCobs ∧ (v &&& 0x7FF).toUInt16 ∉ c.monitorCobs) :
    CobPlan od' (c.withSync p) := by
  obtain ⟨hcob, hne⟩ := syncParameters_cob hp
  have hpdos := h.of_other hw (.inl hpdo)
  have hplan : c.sdoCobIds.claims p.cobId = false ∧ p.cobId ∉ c.fixedCobs ∧ p.cobId ∉ c.pdoCobs ∧
      p.cobId ∉ c.monitorCobs := by
    have hold : p.cobId = c.syncCob → c.sdoCobIds.claims p.cobId = false ∧ p.cobId ∉ c.fixedCobs ∧
        p.cobId ∉ c.pdoCobs ∧ p.cobId ∉ c.monitorCobs := by
      intro heq
      rw [heq]
      exact ⟨h.sync_sdo, h.sync_fixed, h.sync_pdo, h.sync_monitor⟩
    by_cases haddr : index = 0x1005 ∧ sub = 0
    · obtain ⟨rfl, rfl⟩ := haddr
      have hself := hw.self (by decide)
      cases hraw : cobRaw od 0x1005 0 with
      | none =>
        -- an object that cannot be read leaves the default in place
        apply hold
        rw [hcob, h.sync, Canopen.syncCobOf, Canopen.syncCobOf, hself, hraw]
        rfl
      | some raw =>
        have hnew : p.cobId = (v &&& 0x7FF).toUInt16 := by
          rw [hcob, Canopen.syncCobOf, hself, hraw]
          rfl
        rw [hnew] at hne ⊢
        exact hfree rfl rfl hne
    · apply hold
      rw [hcob, h.sync]
      apply hw.syncCobOf
      tauto
  refine { h with
    pdos := ⟨hpdos.tpdo, hpdos.rpdo⟩, monitors := ?_, sync := hcob, sync_ne := hne,
    sync_sdo := hplan.1, sync_fixed := hplan.2.1, sync_pdo := hplan.2.2.1,
    sync_monitor := hplan.2.2.2 }
  intro i monitor hget
  have hi : i < maxHeartbeatMonitors := by
    rw [← h.count]
    exact (List.getElem?_eq_some_iff.mp hget).1
  rw [hw.monitor hindex hi]
  exact h.monitors i monitor hget

include hw h in
/-- A write outside the COB-ID objects leaves the plan. -/
theorem CobPlan.keep (hobject : isCobObject index sub = false) : CobPlan od' c := by
  have hsame : ∀ i s, isCobObject i s = true → cobRaw od' i s = cobRaw od i s := by
    intro i s hi
    apply hw.other i s hi
    intro haddr
    obtain ⟨rfl, rfl⟩ := Prod.mk.inj haddr
    exact absurd (hi.symm.trans hobject) (by decide)
  have hmonitor {i : ℕ} (hi : i < maxHeartbeatMonitors) :
      isCobObject 0x1016 (UInt8.ofNat (i + 1)) = true := by
    unfold maxHeartbeatMonitors at hi
    interval_cases i <;> decide
  refine { h with pdos := ?_, monitors := ?_, sync := ?_ }
  · refine h.of_other hw ?_
    by_cases hpdo : isPdoCommIndex index = true
    · right
      rintro rfl
      simp [isCobObject, hpdo] at hobject
    · exact .inl (by simpa using hpdo)
  · intro i monitor hget
    have hi : i < maxHeartbeatMonitors := by
      rw [← h.count]
      exact (List.getElem?_eq_some_iff.mp hget).1
    rw [hsame _ _ (hmonitor hi)]
    exact h.monitors i monitor hget
  · rw [h.sync, Canopen.syncCobOf, Canopen.syncCobOf, hsame _ _ (by decide)]

end Write
end Canopen
