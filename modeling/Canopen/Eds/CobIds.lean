import Canopen.Derive.PdoClient
import Canopen.Eds.Values

/-!
# COB-IDs of PDOs

A declared COB-ID passes four places: the parsers of the EDS and of the macro, the
configuration of the local device, the codecs of its peer, and the exported EDS.
-/

namespace Canopen.Eds

open Derive Text

/-! ## Declarations -/

def nodeIdText : List Char := "$NODEID".toList

/-- An EDS COB-ID: `$NODEID` with a base in either operand order, or a number. -/
def parsePdoCobId (value : List Char) : Option CobIdSpec :=
  let v := trim value
  if eqIgnoreAsciiCase v nodeIdText then some (.nodeRelative 0)
  else
    match splitOnce ['+'] v with
    | some (left, right) =>
      let left := trim left
      let right := trim right
      let base :=
        if eqIgnoreAsciiCase left nodeIdText then some right
        else if eqIgnoreAsciiCase right nodeIdText then some left
        else none
      (base.bind fun base => (parseInt base).filter (· < 2 ^ 32)).map fun n : ℕ =>
        .nodeRelative (UInt32.ofNat n)
    | none => ((parseInt v).filter (· < 2 ^ 32)).map fun n : ℕ => .absolute (UInt32.ofNat n)

/-- A COB-ID parameter of the macro: a literal or `node_id + literal`. -/
inductive CobIdParam
  | literal (n : ℕ)
  | nodeId (base : ℕ)
  deriving DecidableEq, Repr

/-- `base + 127` on 32 bits: a macro built with overflow checks stops on a sum that does not
fit, a release build wraps. -/
def addLargestNodeId (overflowChecks : Bool) (base : UInt32) : Option UInt32 :=
  if overflowChecks && decide (2 ^ 32 ≤ base.toNat + 127) then none else some (base + 127)

/-- The identifier is meant to have 11 bits for every node. -/
def parseCobIdSpec (overflowChecks : Bool) : CobIdParam → Option CobIdSpec
  | .literal n =>
    if 2 ^ 32 ≤ n then none
    else
      let raw := UInt32.ofNat n
      if raw = 0 ∨ 0x7FF < raw then none else some (.absolute raw)
  | .nodeId n =>
    if 2 ^ 32 ≤ n then none
    else
      let base := UInt32.ofNat n
      if base = 0 then none
      else (addLargestNodeId overflowChecks base).bind fun largest =>
        if 0x7FF < largest then none else some (.nodeRelative base)

/-- Where a declaration comes from, and for the macro how it was built. -/
inductive CobIdSource
  | eds (text : List Char)
  | dsl (overflowChecks : Bool) (param : CobIdParam)
  deriving DecidableEq, Repr

def CobIdSource.spec : CobIdSource → Option CobIdSpec
  | .eds text => parsePdoCobId text
  | .dsl overflowChecks param => parseCobIdSpec overflowChecks param

/-! ## Meaning -/

/-- The declared number, with its flag bits. -/
def specValue : CobIdSpec → UInt32
  | .absolute id => id
  | .nodeRelative base => base

/-- The low 11 bits, with the node id added. -/
def specCobId (node : NodeId) : CobIdSpec → ℕ
  | .absolute id => id.toNat % 2 ^ 11
  | .nodeRelative base => (base.toNat + node.raw.toNat) % 2 ^ 11

/-- The device adds the node id to 16 bits of the base. With overflow checks it panics when
the sum does not fit. -/
def specOverflows (node : NodeId) : CobIdSpec → Bool
  | .absolute _ => false
  | .nodeRelative base => 2 ^ 16 ≤ base.toUInt16.toNat + node.raw.toNat

/-- COB-ID and enabled flag in the device's `tpdo_configs` or `rpdo_configs`. -/
def deviceCobId (p : Derive.PdoDef) (node : NodeId) : UInt16 × Bool :=
  match p.direction with
  | .tpdo => ((p.record.tpdoConfig node).cobId, (p.record.tpdoConfig node).enabled)
  | .rpdo => ((p.record.rpdoConfig node).cobId, (p.record.rpdoConfig node).enabled)

theorem deviceCobId_eq (p : Derive.PdoDef) (node : NodeId) :
    deviceCobId p node = (p.record.resolvedCob node, p.record.enabled node) := by
  unfold deviceCobId
  split <;> rfl

/-- The device takes a declared COB-ID at its word. -/
structure DeviceUses (p : Derive.PdoDef) (spec : CobIdSpec) (node : NodeId) : Prop where
  fits : specOverflows node spec = false
  cobId : (deviceCobId p node).1.toNat = specCobId node spec
  standard : (deviceCobId p node).1.toNat ≤ 0x7FF
  enabled : (deviceCobId p node).2 = true ↔
    specValue spec &&& 0x80000000 = 0 ∧ specCobId node spec ≠ 0

/-- The codecs of a definition, when they are accepted, treat the PDO as the device does. -/
def ClientFollows (d : Derive.OdDefinition) (p : Derive.PdoDef) (node : NodeId) : Prop :=
  ∀ codecs, generateParts d node = .ok codecs → ∀ c, (p, c) ∈ codecs →
    c.cobId = (deviceCobId p node).1 ∧ (p.isDisabled = false ↔ (deviceCobId p node).2 = true)

/-- A declared COB-ID means the same to the device and to its peers. -/
def MeansSame (spec : CobIdSpec) (node : NodeId) : Prop :=
  ∀ d : Derive.OdDefinition, ∀ p ∈ d.pdos, p.cobId = some spec →
    (d.validate = true → DeviceUses p spec node) ∧ ClientFollows d p node

/-- The declarations on which all agree. An absolute 0 is taken for an undeclared COB-ID by the
device, and the peer does not see that an identifier of 0 disables a PDO; of a base, the
device uses 16 bits and no flag. -/
def WellDeclared (node : NodeId) : CobIdSpec → Prop
  | .absolute id => id ≠ 0 ∧ id ≠ 0x40000000
  | .nodeRelative base => base.toNat < 2 ^ 31 ∧ base.toNat % 2 ^ 16 + node.raw.toNat ≤ 0x7FF

/-- What the macro accepts needs no condition, but for the bases near 2^32 that it takes when
its bound check wraps. -/
def CobIdSource.WellDeclares (node : NodeId) (spec : CobIdSpec) : CobIdSource → Prop
  | .eds _ => WellDeclared node spec
  | .dsl _ _ =>
    match spec with
    | .absolute _ => True
    | .nodeRelative base => base.toNat ≤ 0x780

/-! ## Agreement -/

theorem and_top_eq_zero (x : UInt32) : x &&& 0x80000000 = 0 ↔ x.toNat < 2 ^ 31 := by
  rw [← UInt32.toNat_inj, UInt32.toNat_and]
  change x.toNat &&& 2 ^ 31 = 0 ↔ _
  have hlt : x.toNat < 2 ^ 32 := x.toNat_lt
  rw [Nat.and_two_pow]
  rcases Nat.lt_or_ge x.toNat (2 ^ 31) with hsmall | hlarge
  · rw [Nat.testBit_lt_two_pow hsmall]
    simpa using hsmall
  · have hbit : x.toNat.testBit 31 = true := by
      rw [Nat.testBit_eq_decide_div_mod_eq]
      simp
      omega
    simp [hbit]
    omega

theorem toNat_low_cob (x : UInt32) : (x &&& 0x7FF).toUInt16.toNat = x.toNat % 2 ^ 11 := by
  have hmask : x.toNat &&& (2 ^ 11 - 1) = x.toNat % 2 ^ 11 := Nat.and_two_pow_sub_one_eq_mod x.toNat 11
  rw [UInt32.toNat_toUInt16, UInt32.toNat_and]
  change (x.toNat &&& (2 ^ 11 - 1)) % 2 ^ 16 = x.toNat % 2 ^ 11
  omega

theorem toNat_node (node : NodeId) : 1 ≤ node.raw.toNat ∧ node.raw.toNat ≤ 127 :=
  ⟨UInt8.le_iff_toNat_le.mp node.pos, UInt8.le_iff_toNat_le.mp node.le⟩

variable {p : Derive.PdoDef}

theorem device_absolute (node : NodeId) {id : UInt32} (hp : p.cobId = some (.absolute id)) (hid : id ≠ 0) :
    (deviceCobId p node).1.toNat = id.toNat % 2 ^ 11 ∧
      ((deviceCobId p node).2 = true ↔ id &&& 0x80000000 = 0 ∧ id.toNat % 2 ^ 11 ≠ 0) := by
  have hrecord : p.record.cobId = id := by simp [Derive.PdoDef.record, hp, CobIdSpec.stored]
  have hcob : p.record.resolvedCob node = (id &&& 0x7FF).toUInt16 := by
    rw [PdoRecord.resolvedCob, hrecord, if_neg hid]
  rw [deviceCobId_eq, PdoRecord.enabled, hcob, hrecord]
  refine ⟨toNat_low_cob id, ?_⟩
  rw [Bool.and_eq_true, beq_iff_eq, bne_iff_ne, ← toNat_low_cob id, ← UInt16.toNat_inj.ne]
  rfl

theorem device_nodeRelative (node : NodeId) {base : UInt32} (hp : p.cobId = some (.nodeRelative base)) :
    (deviceCobId p node).1.toNat = (base.toNat % 2 ^ 16 + node.raw.toNat) % 2 ^ 16 ∧
      ((deviceCobId p node).2 = true ↔ (deviceCobId p node).1.toNat ≠ 0) := by
  have hrecord : p.record.cobId = 0 := by simp [Derive.PdoDef.record, hp, CobIdSpec.stored]
  have hcob : p.record.resolvedCob node = base.toUInt16 + node.raw.toUInt16 := by
    rw [PdoRecord.resolvedCob, hrecord, if_pos rfl]
    change p.defaultCob node = _
    rw [Derive.PdoDef.defaultCob, hp]
  rw [deviceCobId_eq, PdoRecord.enabled, hcob, hrecord]
  refine ⟨?_, ?_⟩
  · rw [UInt16.toNat_add, UInt32.toNat_toUInt16, UInt8.toNat_toUInt16]
  · rw [Bool.and_eq_true, bne_iff_ne, ← UInt16.toNat_inj.ne]
    simp

theorem specOverflows_iff {node : NodeId} {base : UInt32} :
    specOverflows node (.nodeRelative base) = false ↔
    base.toNat % 2 ^ 16 + node.raw.toNat < 2 ^ 16 := by
  simp [specOverflows, UInt32.toNat_toUInt16]

/-- The device follows a declaration other than an absolute 0 exactly when it is well
declared. -/
theorem deviceUses_nodeRelative_iff {node : NodeId} {base : UInt32} (hp : p.cobId = some (.nodeRelative base)) :
    DeviceUses p (.nodeRelative base) node ↔ WellDeclared node (.nodeRelative base) := by
  obtain ⟨hcob, henabled⟩ := device_nodeRelative node hp
  have hnode := toNat_node node
  have hbase : (base.toNat + node.raw.toNat) % 2 ^ 11 =
      (base.toNat % 2 ^ 16 + node.raw.toNat) % 2 ^ 11 := by omega
  constructor
  · rintro ⟨hfits, hsame, hstandard, hiff⟩
    rw [specOverflows_iff] at hfits
    rw [hcob, Nat.mod_eq_of_lt hfits] at hstandard
    have hon : (deviceCobId p node).2 = true := henabled.mpr (by rw [hcob]; omega)
    exact ⟨(and_top_eq_zero base).mp (hiff.mp hon).1, hstandard⟩
  · rintro ⟨htop, hle⟩
    have hcob' : (deviceCobId p node).1.toNat = specCobId node (.nodeRelative base) := by
      rw [hcob, specCobId, hbase]
      omega
    refine ⟨specOverflows_iff.mpr (by omega), hcob', by rw [hcob]; omega, ?_⟩
    rw [henabled, hcob']
    exact ⟨fun h => ⟨(and_top_eq_zero base).mpr htop, h⟩, fun h => h.2⟩

theorem deviceUses_absolute {node : NodeId} {id : UInt32} (hp : p.cobId = some (.absolute id))
    (hid : id ≠ 0) : DeviceUses p (.absolute id) node := by
  obtain ⟨hcob, henabled⟩ := device_absolute node hp hid
  refine ⟨rfl, hcob, ?_, henabled⟩
  rw [hcob]
  omega

theorem toNat_mask (x : UInt32) : (x &&& 0x3FFFFFFF).toNat = x.toNat % 2 ^ 30 := by
  rw [UInt32.toNat_and]
  exact Nat.and_two_pow_sub_one_eq_mod x.toNat 30

theorem cobIdExpr_absolute {node : NodeId} {id : UInt32} {cobId : UInt16}
    (hp : p.cobId = some (.absolute id)) (h : p.cobIdExpr node = .ok cobId) :
    id.toNat % 2 ^ 30 ≤ 0x7FF ∧ cobId.toNat = id.toNat % 2 ^ 30 := by
  have hspec : p.effectiveCobIdSpec = some (.absolute (id &&& 0x3FFFFFFF)) := by
    rw [Derive.PdoDef.effectiveCobIdSpec, hp]
    rfl
  rw [Derive.PdoDef.cobIdExpr, hspec] at h
  dsimp only at h
  split_ifs at h with hext hle
  cases h
  have hle' : id.toNat % 2 ^ 30 ≤ 0x7FF := by
    rw [← toNat_mask]
    exact UInt32.le_iff_toNat_le.mp hle
  rw [UInt32.toNat_toUInt16, toNat_mask]
  exact ⟨hle', by omega⟩

theorem cobIdExpr_nodeRelative {node : NodeId} {base : UInt32} {cobId : UInt16}
    (hp : p.cobId = some (.nodeRelative base)) (h : p.cobIdExpr node = .ok cobId) :
    base.toNat % 2 ^ 30 ≤ 0x780 ∧ cobId.toNat = base.toNat % 2 ^ 30 + node.raw.toNat := by
  have hspec : p.effectiveCobIdSpec = some (.nodeRelative (base &&& 0x3FFFFFFF)) := by
    rw [Derive.PdoDef.effectiveCobIdSpec, hp]
    rfl
  rw [Derive.PdoDef.cobIdExpr, hspec] at h
  dsimp only at h
  split_ifs at h with hext hle
  cases h
  have hnode := toNat_node node
  have hle' : base.toNat % 2 ^ 30 ≤ 0x780 := by
    have hle := UInt32.le_iff_toNat_le.mp hle
    rw [UInt32.toNat_add, toNat_mask] at hle
    change (base.toNat % 2 ^ 30 + 127) % 2 ^ 32 ≤ 0x7FF at hle
    omega
  rw [UInt16.toNat_add, UInt32.toNat_toUInt16, UInt8.toNat_toUInt16, toNat_mask]
  exact ⟨hle', by omega⟩

theorem isDisabled_iff {spec : CobIdSpec} (hp : p.cobId = some spec) :
    p.isDisabled = false ↔ (specValue spec).toNat < 2 ^ 31 := by
  rw [← and_top_eq_zero, Derive.PdoDef.isDisabled, hp]
  cases spec <;> simp [specValue]

/-- The codec of a well declared PDO follows the device. -/
theorem clientFollows_of_wellDeclared {spec : CobIdSpec} (hp : p.cobId = some spec) {node : NodeId}
    (h : WellDeclared node spec) (d : Derive.OdDefinition) : ClientFollows d p node := by
  intro codecs hparts c hc
  have hexpr := generateParts_cobId hparts hc
  rw [isDisabled_iff hp, ← UInt16.toNat_inj]
  cases spec with
  | absolute id =>
    obtain ⟨hzero, hflag⟩ := h
    obtain ⟨hcob, henabled⟩ := device_absolute node hp hzero
    obtain ⟨hle, hcodec⟩ := cobIdExpr_absolute hp hexpr
    have hlow : id.toNat % 2 ^ 11 = id.toNat % 2 ^ 30 := by omega
    refine ⟨by rw [hcodec, hcob, hlow], ?_⟩
    rw [henabled, and_top_eq_zero]
    -- an identifier of 0 leaves the flag bits, of which bit 31 has to be one
    have hne : id.toNat ≠ 0 ∧ id.toNat ≠ 2 ^ 30 :=
      ⟨fun h0 => hzero (UInt32.toNat_inj.mp h0), fun h30 => hflag (UInt32.toNat_inj.mp h30)⟩
    have hlt : id.toNat < 2 ^ 32 := id.toNat_lt
    change id.toNat < 2 ^ 31 ↔ _
    omega
  | nodeRelative base =>
    obtain ⟨htop, hle⟩ := h
    obtain ⟨hcob, henabled⟩ := device_nodeRelative node hp
    obtain ⟨hsmall, hcodec⟩ := cobIdExpr_nodeRelative hp hexpr
    have hnode := toNat_node node
    refine ⟨by omega, ?_⟩
    rw [henabled, hcob]
    exact iff_of_true htop (by omega)

/-! ### Declarations that are read differently -/

def paddingPdo (spec : CobIdSpec) : Derive.PdoDef := ⟨.tpdo, 1, some spec, 255, 0, 0, false, [0x00050008]⟩

def paddingDefinition (spec : CobIdSpec) : Derive.OdDefinition := ⟨[], [paddingPdo spec], [], []⟩

theorem paddingDefinition_valid (spec : CobIdSpec) : (paddingDefinition spec).validate = true := rfl

theorem wellDeclared_of_meansSame {spec : CobIdSpec} {node : NodeId} (h : MeansSame spec node) :
    WellDeclared node spec := by
  obtain ⟨hdevice, hclient⟩ := h (paddingDefinition spec) (paddingPdo spec) (by simp [paddingDefinition]) rfl
  have huses := hdevice (paddingDefinition_valid spec)
  have hnode := toNat_node node
  cases spec with
  | absolute id =>
    refine ⟨?_, ?_⟩
    · rintro rfl
      have hcob : (0x180 : UInt16) + (1 - 1) * 0x100 + node.raw.toUInt16 = 0 :=
        UInt16.toNat_inj.mp huses.cobId
      rw [← UInt16.toNat_inj, UInt16.toNat_add, UInt8.toNat_toUInt16] at hcob
      change (0x180 + node.raw.toNat) % 2 ^ 16 = 0 at hcob
      omega
    · rintro rfl
      have hparts : generateParts (paddingDefinition (.absolute 0x40000000)) node =
          .ok [(paddingPdo (.absolute 0x40000000), ⟨0, [], 1⟩)] := rfl
      have hactive := (hclient _ hparts ⟨0, [], 1⟩ (List.mem_singleton.mpr rfl)).2.mp rfl
      rw [(@device_absolute (paddingPdo (.absolute 0x40000000)) node _ rfl (by decide)).2] at hactive
      exact absurd hactive.2 (by decide)
  | nodeRelative base => exact (deviceUses_nodeRelative_iff rfl).mp huses

theorem meansSame_of_wellDeclared {spec : CobIdSpec} {node : NodeId} (h : WellDeclared node spec) :
    MeansSame spec node := by
  intro d p _ hspec
  refine ⟨fun _ => ?_, clientFollows_of_wellDeclared hspec h d⟩
  cases spec with
  | absolute id => exact deviceUses_absolute hspec h.1
  | nodeRelative base => exact (deviceUses_nodeRelative_iff hspec).mpr h

theorem addLargestNodeId_some {checks : Bool} {base largest : UInt32}
    (h : addLargestNodeId checks base = some largest) : largest.toNat = (base.toNat + 127) % 2 ^ 32 := by
  unfold addLargestNodeId at h
  split_ifs at h
  cases h
  rw [UInt32.toNat_add]
  rfl

/-- An accepted identifier has 11 bits, and an accepted base wraps or leaves room for every
node id. -/
theorem parseCobIdSpec_cases {checks : Bool} {param : CobIdParam} {spec : CobIdSpec}
    (h : parseCobIdSpec checks param = some spec) :
    (∃ id, spec = .absolute id ∧ id ≠ 0 ∧ id.toNat ≤ 0x7FF) ∨
      ∃ base, spec = .nodeRelative base ∧ (base.toNat ≤ 0x780 ∨ 2 ^ 32 ≤ base.toNat + 127) := by
  cases param with
  | literal n =>
    simp only [parseCobIdSpec] at h
    split_ifs at h with _ hrange
    cases h
    refine .inl ⟨_, rfl, fun hzero => hrange (.inl hzero), ?_⟩
    exact Nat.not_lt.mp fun hlarge => hrange (.inr (UInt32.lt_iff_toNat_lt.mpr hlarge))
  | nodeId n =>
    simp only [parseCobIdSpec] at h
    split_ifs at h
    obtain ⟨largest, hsum, hbound⟩ := Option.bind_eq_some_iff.mp h
    split_ifs at hbound with hrange
    cases hbound
    refine .inr ⟨_, rfl, ?_⟩
    have hle : largest.toNat ≤ 0x7FF :=
      Nat.not_lt.mp fun hlarge => hrange (UInt32.lt_iff_toNat_lt.mpr hlarge)
    rw [addLargestNodeId_some hsum] at hle
    omega

example : parseCobIdSpec false (.nodeId 0xFFFFFF81) = some (.nodeRelative 0xFFFFFF81) ∧
    parseCobIdSpec true (.nodeId 0xFFFFFF81) = none := by decide

theorem wellDeclared_of_standard {id : UInt32} (hzero : id ≠ 0) (hle : id.toNat ≤ 0x7FF)
    (node : NodeId) : WellDeclared node (.absolute id) := by
  refine ⟨hzero, ?_⟩
  rintro rfl
  exact absurd hle (by decide)

theorem wellDeclared_base_iff {base : UInt32} (h : base.toNat ≤ 0x780 ∨ 2 ^ 32 ≤ base.toNat + 127)
    (node : NodeId) : WellDeclared node (.nodeRelative base) ↔ base.toNat ≤ 0x780 := by
  have hnode := toNat_node node
  simp only [WellDeclared]
  constructor
  · rintro ⟨htop, -⟩
    omega
  · intro hle
    omega

theorem wellDeclares_iff {source : CobIdSource} {spec : CobIdSpec} (h : source.spec = some spec)
    (node : NodeId) : WellDeclared node spec ↔ source.WellDeclares node spec := by
  cases source with
  | eds text => exact Iff.rfl
  | dsl checks param =>
    obtain ⟨id, rfl, hzero, hle⟩ | ⟨base, rfl, hbase⟩ := parseCobIdSpec_cases h
    · exact iff_of_true (wellDeclared_of_standard hzero hle node) trivial
    · exact wellDeclared_base_iff hbase node

/-- A declaration means the same to all exactly when it is well declared. -/
theorem cob_id_means_same_iff {source : CobIdSource} {spec : CobIdSpec} (h : source.spec = some spec)
    (node : NodeId) :
    MeansSame spec node ↔ source.WellDeclares node spec := by
  rw [← wellDeclares_iff h node]
  exact ⟨wellDeclared_of_meansSame, meansSame_of_wellDeclared⟩

theorem cob_id_means_same_reversed :
    (CobIdSource.eds " 0x1B0 + $nodeid".toList).spec = some (.nodeRelative 0x1B0) ∧
      MeansSame (.nodeRelative 0x1B0) sampleNode := by
  have hspec : (CobIdSource.eds " 0x1B0 + $nodeid".toList).spec = some (.nodeRelative 0x1B0) := by
    decide
  exact ⟨hspec, (cob_id_means_same_iff hspec sampleNode).mpr ⟨by decide, by decide⟩⟩

/-- The device enables a PDO of which the base has bit 31 set. -/
theorem disabled_base_enabled :
    (CobIdSource.eds "$NODEID+0x80000180".toList).spec = some (.nodeRelative 0x80000180) ∧
      ¬MeansSame (.nodeRelative 0x80000180) sampleNode := by
  refine ⟨by decide, ?_⟩
  intro hsame
  obtain ⟨hdevice, -⟩ := hsame (paddingDefinition (.nodeRelative 0x80000180))
    (paddingPdo (.nodeRelative 0x80000180)) (by simp [paddingDefinition]) rfl
  have hbit := ((hdevice rfl).enabled.mp (by decide)).1
  exact absurd hbit (by decide)

/-! ## Export -/

/-- The predefined connection set covers the first four PDOs; an assertion guards the
others. -/
def predefinedPdoCobId (direction : PdoDirection) (number : UInt16) : Option (List Char) :=
  if number ≤ 4 then
    let base := (match direction with | .tpdo => 0x180 | .rpdo => 0x200) + 0x100 * (number - 1)
    some ("$NODEID+0x".toList ++ hex base.toNat)
  else none

/-- The `DefaultValue` of a COB-ID in the exported EDS, `none` when the export panics. -/
def pdoCobIdDefault (p : Derive.PdoDef) : Option (List Char) :=
  match p.cobId with
  | some (.absolute cobId) => some ("0x".toList ++ hex cobId.toNat)
  | some (.nodeRelative base) => some ("$NODEID+0x".toList ++ hex base.toNat)
  | none => predefinedPdoCobId p.direction p.number

/-- What a COB-ID value denotes at a node: the identifier and whether the PDO is enabled. -/
def denotedCobId (node : NodeId) (spec : CobIdSpec) : ℕ × Bool :=
  (specCobId node spec, specValue spec &&& 0x80000000 == 0 && specCobId node spec != 0)

/-- The exported value denotes what the device does. -/
def ExportTells (p : Derive.PdoDef) (node : NodeId) : Prop :=
  (∀ spec, p.cobId = some spec → specOverflows node spec = false) ∧
    ∃ text spec, pdoCobIdDefault p = some text ∧ parsePdoCobId text = some spec ∧
      denotedCobId node spec = ((deviceCobId p node).1.toNat, (deviceCobId p node).2)

theorem plus_not_mem_prefixed (n : ℕ) : '+' ∉ "0x".toList ++ hex n := by
  intro hmem
  rcases List.mem_append.mp hmem with hfront | hdigit
  · exact absurd hfront (by decide)
  · exact absurd (charValue_of_digits (digits_hex n) '+' hdigit) (by decide)

theorem parsePdoCobId_absolute (id : UInt32) :
    parsePdoCobId ("0x".toList ++ hex id.toNat) = some (.absolute id) := by
  have hlt : id.toNat < 2 ^ 32 := id.toNat_lt
  have hparse := parseInt_prefixed (digits_hex id.toNat) (by omega)
  have hname : eqIgnoreAsciiCase ("0x".toList ++ hex id.toNat) nodeIdText = false := rfl
  simp only [parsePdoCobId, trim_of_forall (isWhite_prefixed (digits_hex id.toNat)), hname,
    Bool.false_eq_true, if_false, splitOnce_of_not_mem (plus_not_mem_prefixed id.toNat) [], hparse,
    Option.filter_some, decide_eq_true hlt, if_true, Option.map_some]
  rw [UInt32.ofNat_toNat]

theorem parsePdoCobId_nodeRelative (base : UInt32) :
    parsePdoCobId ("$NODEID+0x".toList ++ hex base.toNat) = some (.nodeRelative base) := by
  have hlt : base.toNat < 2 ^ 32 := base.toNat_lt
  have hdigits := digits_hex base.toNat
  have hparse := parseInt_prefixed hdigits (by omega)
  have hwhite : ∀ c ∈ "$NODEID+0x".toList ++ hex base.toNat, isWhite c = false := by
    intro c hc
    rcases List.mem_append.mp hc with hfront | hdigit
    · have hall : "$NODEID+0x".toList.all (!isWhite ·) = true := by decide
      simpa using List.all_eq_true.mp hall c hfront
    · exact isWhite_of_charValue (charValue_of_digits hdigits c hdigit)
  have hname : eqIgnoreAsciiCase ("$NODEID+0x".toList ++ hex base.toNat) nodeIdText = false := rfl
  have hplus : '+' ∉ nodeIdText := by decide
  have hsplit : splitOnce ['+'] ("$NODEID+0x".toList ++ hex base.toNat) =
      some (nodeIdText, "0x".toList ++ hex base.toNat) :=
    splitOnce_append hplus [] ("0x".toList ++ hex base.toNat)
  have hleft : trim nodeIdText = nodeIdText := by decide
  have hnode : eqIgnoreAsciiCase nodeIdText nodeIdText = true := by decide
  simp only [parsePdoCobId, trim_of_forall hwhite, hname, Bool.false_eq_true, if_false, hsplit,
    hleft, trim_of_forall (isWhite_prefixed hdigits), hnode, if_true, Option.bind_some, hparse,
    Option.filter_some, decide_eq_true hlt, Option.map_some]
  rw [UInt32.ofNat_toNat]

/-- The declarations of which the exported value is true. -/
def ExportsWell (p : Derive.PdoDef) (node : NodeId) : Prop :=
  match p.cobId with
  | some (.absolute id) => id ≠ 0 ∨ 4 < p.number
  | some (.nodeRelative base) =>
    base.toNat < 2 ^ 31 ∧ base.toNat % 2 ^ 16 + node.raw.toNat ≤ 0x7FF
  | none => p.number ≤ 4

theorem device_default (node : NodeId) (hlow : 1 ≤ p.number) (hhigh : p.number ≤ 4)
    (hp : p.cobId = none ∨ p.cobId = some (.absolute 0)) :
    ∃ base : UInt16, base.toNat ≤ 0x500 ∧
      predefinedPdoCobId p.direction p.number = some ("$NODEID+0x".toList ++ hex base.toNat) ∧
      (deviceCobId p node).1.toNat = base.toNat + node.raw.toNat ∧ (deviceCobId p node).2 = true := by
  have hrecord : p.record.cobId = 0 := by
    rcases hp with hp | hp <;> simp [Derive.PdoDef.record, hp, CobIdSpec.stored]
  let base : UInt16 := (match p.direction with | .tpdo => 0x180 | .rpdo => 0x200) + 0x100 * (p.number - 1)
  have hbase : base.toNat ≤ 0x500 := by
    obtain hn | hn | hn | hn : p.number = 1 ∨ p.number = 2 ∨ p.number = 3 ∨ p.number = 4 := by
      have hlow := UInt16.le_iff_toNat_le.mp hlow
      have hhigh := UInt16.le_iff_toNat_le.mp hhigh
      simp only [← UInt16.toNat_inj]
      simp at hlow hhigh ⊢
      omega
    all_goals
      change ((match p.direction with | .tpdo => 0x180 | .rpdo => 0x200) +
        0x100 * (p.number - 1) : UInt16).toNat ≤ 0x500
      rw [hn]
      cases p.direction <;> decide
  have hcob : p.record.resolvedCob node = base + node.raw.toUInt16 := by
    rw [PdoRecord.resolvedCob, hrecord, if_pos rfl]
    change p.defaultCob node = _
    have hswap := UInt16.mul_comm (p.number - 1) 0x100
    rw [Derive.PdoDef.defaultCob]
    rcases hp with hp | hp <;> rw [hp] <;>
      exact (if_pos hhigh).trans (congrArg (fun offset => _ + offset + node.raw.toUInt16) hswap)
  have hnode := toNat_node node
  have hnat : (p.record.resolvedCob node).toNat = base.toNat + node.raw.toNat := by
    rw [hcob, UInt16.toNat_add, UInt8.toNat_toUInt16]
    omega
  refine ⟨base, hbase, if_pos hhigh, ?_, ?_⟩
  · rw [deviceCobId_eq]
    exact hnat
  · rw [deviceCobId_eq, PdoRecord.enabled, hrecord, Bool.and_eq_true, bne_iff_ne,
      ← UInt16.toNat_inj.ne, hnat]
    exact ⟨rfl, by change _ ≠ 0; omega⟩

theorem denoted_eq_iff {node : NodeId} {spec : CobIdSpec} {cob : ℕ} {enabled : Bool} :
    denotedCobId node spec = (cob, enabled) ↔ cob = specCobId node spec ∧
      (enabled = true ↔ specValue spec &&& 0x80000000 = 0 ∧ specCobId node spec ≠ 0) := by
  unfold denotedCobId
  rw [Prod.mk.injEq, Bool.eq_iff_iff, Bool.and_eq_true, beq_iff_eq, bne_iff_ne, eq_comm]
  exact and_congr_right fun _ => iff_comm

/-- The exported text is read back as one declaration. -/
theorem exportTells_iff_denotes {node : NodeId} {text : List Char} {spec : CobIdSpec}
    (htext : pdoCobIdDefault p = some text) (hparse : parsePdoCobId text = some spec) :
    ExportTells p node ↔ (∀ spec, p.cobId = some spec → specOverflows node spec = false) ∧
      (deviceCobId p node).1.toNat = specCobId node spec ∧ ((deviceCobId p node).2 = true ↔
        specValue spec &&& 0x80000000 = 0 ∧ specCobId node spec ≠ 0) := by
  unfold ExportTells
  rw [← denoted_eq_iff]
  refine and_congr_right fun _ => ⟨?_, fun h => ⟨text, spec, htext, hparse, h⟩⟩
  rintro ⟨text', spec', htext', hparse', hdenotes⟩
  rw [htext] at htext'
  cases htext'
  rw [hparse] at hparse'
  cases hparse'
  exact hdenotes

theorem exportTells_default {node : NodeId} (hlow : 1 ≤ p.number) (hp : p.cobId = none) :
    ExportTells p node ↔ p.number ≤ 4 := by
  have htext : pdoCobIdDefault p = predefinedPdoCobId p.direction p.number := by
    rw [pdoCobIdDefault, hp]
  by_cases hfour : p.number ≤ 4
  · refine iff_of_true ?_ hfour
    have hnode := toNat_node node
    obtain ⟨base, hbase, hpredefined, hcob, henabled⟩ := device_default node hlow hfour (.inl hp)
    have hnat : base.toUInt32.toNat = base.toNat := UInt16.toNat_toUInt32 base
    have hparse := parsePdoCobId_nodeRelative base.toUInt32
    rw [hnat] at hparse
    rw [exportTells_iff_denotes (htext.trans hpredefined) hparse]
    have hspec : specCobId node (.nodeRelative base.toUInt32) = base.toNat + node.raw.toNat := by
      rw [specCobId, hnat]
      omega
    have hfits : ∀ spec, p.cobId = some spec → specOverflows node spec = false := by
      intro spec hsome
      rw [hp] at hsome
      cases hsome
    rw [hspec]
    refine ⟨hfits, hcob, ?_⟩
    refine iff_of_true henabled ⟨(and_top_eq_zero _).mpr ?_, by omega⟩
    change base.toUInt32.toNat < 2 ^ 31
    omega
  · refine iff_of_false ?_ hfour
    rintro ⟨-, text, spec, hsome, -⟩
    have hnone : predefinedPdoCobId p.direction p.number = none := if_neg hfour
    rw [htext, hnone] at hsome
    cases hsome

theorem exportTells_absolute {node : NodeId} (hlow : 1 ≤ p.number) {id : UInt32}
    (hp : p.cobId = some (.absolute id)) : ExportTells p node ↔ id ≠ 0 ∨ 4 < p.number := by
  have htext : pdoCobIdDefault p = some ("0x".toList ++ hex id.toNat) := by rw [pdoCobIdDefault, hp]
  have hfits : ∀ spec, p.cobId = some spec → specOverflows node spec = false := by
    intro spec hspec
    rw [hp] at hspec
    cases hspec
    rfl
  rw [exportTells_iff_denotes htext (parsePdoCobId_absolute id)]
  by_cases hid : id = 0
  · rw [hid] at hp ⊢
    rcases Nat.lt_or_ge 4 p.number.toNat with hfive | hfour
    · -- without a default the device has no identifier either
      refine iff_of_true ⟨hfits, ?_⟩ (.inr (UInt16.lt_iff_toNat_lt.mpr hfive))
      have hdevice : deviceCobId p node = (0, false) := by
        have hnot : ¬p.number ≤ 4 := fun h => Nat.not_le.mpr hfive (UInt16.le_iff_toNat_le.mp h)
        have hcob : p.record.resolvedCob node = 0 := by
          have hrecord : p.record.cobId = 0 := by simp [Derive.PdoDef.record, hp, CobIdSpec.stored]
          rw [PdoRecord.resolvedCob, hrecord, if_pos rfl]
          change p.defaultCob node = _
          rw [Derive.PdoDef.defaultCob, hp]
          exact if_neg hnot
        rw [deviceCobId_eq, PdoRecord.enabled, hcob]
        simp
      rw [hdevice]
      exact ⟨rfl, by simp [specCobId]⟩
    · have hfour' : p.number ≤ 4 := UInt16.le_iff_toNat_le.mpr hfour
      obtain ⟨base, -, -, hcob, -⟩ := device_default node hlow hfour' (.inr hp)
      have hnode := toNat_node node
      refine iff_of_false ?_ ?_
      · rintro ⟨-, hzero, -⟩
        rw [hcob] at hzero
        change base.toNat + node.raw.toNat = 0 at hzero
        omega
      · rintro (h | h)
        · exact h rfl
        · have := UInt16.lt_iff_toNat_lt.mp h
          change 4 < p.number.toNat at this
          omega
  · exact iff_of_true ⟨hfits, device_absolute node hp hid⟩ (.inl hid)

theorem exportTells_nodeRelative {node : NodeId} {base : UInt32}
    (hp : p.cobId = some (.nodeRelative base)) :
    ExportTells p node ↔ WellDeclared node (.nodeRelative base) := by
  have htext : pdoCobIdDefault p = some ("$NODEID+0x".toList ++ hex base.toNat) := by
    rw [pdoCobIdDefault, hp]
  rw [exportTells_iff_denotes htext (parsePdoCobId_nodeRelative base),
    ← deviceUses_nodeRelative_iff hp]
  constructor
  · rintro ⟨hfits, hcob, henabled⟩
    refine ⟨hfits _ hp, hcob, ?_, henabled⟩
    rw [hcob, specCobId]
    omega
  · rintro ⟨hfits, hcob, -, henabled⟩
    refine ⟨?_, hcob, henabled⟩
    intro spec hspec
    rw [hp] at hspec
    cases hspec
    exact hfits

/-- The export tells what the device does exactly for these declarations. -/
theorem export_tells_iff (hlow : 1 ≤ p.number) (node : NodeId) :
    ExportTells p node ↔ ExportsWell p node := by
  unfold ExportsWell
  cases hp : p.cobId with
  | none => exact exportTells_default hlow hp
  | some spec =>
    cases spec with
    | absolute id => exact exportTells_absolute hlow hp
    | nodeRelative base => exact exportTells_nodeRelative hp

theorem export_tells_padding : (1 : UInt16) ≤ (paddingPdo (.absolute 0xC0000000)).number ∧
    ExportTells (paddingPdo (.absolute 0xC0000000)) sampleNode :=
  ⟨by decide, (export_tells_iff (by decide) sampleNode).mpr (.inl (by decide))⟩

/-- A fifth PDO without a COB-ID, as an EDS may have it, cannot be exported. -/
theorem export_fails_fifth :
    ¬ExportTells ⟨.tpdo, 5, none, 255, 0, 0, false, [0x00050008]⟩ sampleNode := by
  rintro ⟨-, text, spec, htext, -⟩
  cases htext

end Canopen.Eds
