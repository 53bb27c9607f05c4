import Mathlib.Data.Nat.Bitwise
import Canopen.Node.Mirror

/-!
# Building a node from a generated dictionary

The node writes the resolved COB-IDs of its PDOs back into the dictionary. With
COB-IDs of 11 bits, what the PDO records then hold is exactly what the engines were
given, so the node starts with a mirrored configuration.
-/

namespace Canopen

open Derive LittleEndian Pdo Sdo

variable {evt dirty : ℕ}

/-! ## Reading the records of a PDO -/

section Reads

variable {od : GeneratedOd} {p : PdoRecord}

theorem readInto_presents (h : od.fields.Presents p) {index : UInt16} {sub : UInt8} {ty : DataType}
    {access : AccessType} {value : List UInt8} (ho : p.object index sub = some (ty, access, value))
    (hro : access ≠ .wo) {n : ℕ} (hn : value.length ≤ n) (buf : FixedBuffer UInt8 n) :
    readInto od index sub buf = (true, buf.write 0 value) := by
  have hobject := h index sub _ ho
  have hread : ObjectDictionary.read od index sub buf = (.ok ⟨value.length, hn⟩, buf.write 0 value) := by
    change od.fields.read index sub buf = _
    unfold OdFields.read
    simp only [hobject, hro, if_false, hn, dif_pos]
  unfold readInto
  rw [hread]
  rfl

theorem word32_write (buf : FixedBuffer UInt8 4) (v : UInt32) :
    word32 (buf.write 0 (leBytes32 v)).cells = v := by
  rw [FixedBuffer.cells_write_full buf (length_leBytes32 v), word32_leBytes32]

theorem word16_write (buf : FixedBuffer UInt8 2) (v : UInt16) :
    word16 (buf.write 0 (leBytes16 v)).cells = v := by
  rw [FixedBuffer.cells_write_full buf rfl, word16_leBytes16]

theorem byte_write (buf : FixedBuffer UInt8 4) (v : UInt8) :
    (buf.write 0 [v]).cells.getD 0 0 = v := by
  rw [FixedBuffer.cells_write_singleton, List.getD_eq_getElem?_getD,
    List.getElem?_set_self (by simp), Option.getD_some]

theorem readMappings_presents (h : od.fields.Presents p) (hne : p.decl.mapIdx ≠ p.decl.commIdx)
    {subs : List UInt8} (hsubs : ∀ sub ∈ subs, sub ≠ 0 ∧ sub ≤ p.maxMapSub)
    (buf : FixedBuffer UInt8 4) :
    (readMappings od p.decl.mapIdx subs buf).1 =
      subs.map fun sub => .fromMappingValue (p.mappings.cells.getD (sub.toNat - 1) 0) := by
  induction subs generalizing buf with
  | nil => rfl
  | cons sub subs ih =>
    have hsub := hsubs sub List.mem_cons_self
    have hobject : p.object p.decl.mapIdx sub =
        some (.u32, p.mapAccess, leBytes32 (p.mappings.cells.getD (sub.toNat - 1) 0)) := by
      simp [PdoRecord.object, hne, hsub.1, hsub.2]
    have haccess : p.mapAccess ≠ .wo := by
      unfold PdoRecord.mapAccess
      split_ifs <;> decide
    have hread := readInto_presents h hobject haccess (n := 4) (by simp) buf
    simp only [readMappings, hread, if_true, word32_write, List.map_cons,
      ih fun s hs => hsubs s (List.mem_cons_of_mem sub hs)]

/-- The mapping list that is read is the list of the active entries. -/
theorem readMappingRecord_presents (h : od.fields.Presents p) (hne : p.decl.mapIdx ≠ p.decl.commIdx)
    (hcount : p.mappingCount.toNat ≤ pdoMaxMappings) (hmax : p.mappingCount ≤ p.maxMapSub)
    (buf : FixedBuffer UInt8 4) :
    (readMappingRecord od p.decl.mapIdx buf).1 = p.activeMappings := by
  have hobject : p.object p.decl.mapIdx 0 = some (.u8, p.mapAccess, [p.mappingCount]) := by
    simp [PdoRecord.object, hne]
  have haccess : p.mapAccess ≠ .wo := by
    unfold PdoRecord.mapAccess
    split_ifs <;> decide
  have hread := readInto_presents h hobject haccess (n := 4) (by simp) buf
  have hmin : min p.mappingCount 64 = p.mappingCount :=
    if_pos (UInt8.le_iff_toNat_le.mpr hcount)
  have hsmall {i : ℕ} (hi : i < p.mappingCount.toNat) : (UInt8.ofNat (i + 1)).toNat = i + 1 := by
    rw [UInt8.toNat_ofNat']
    have := p.mappingCount.toNat_lt
    omega
  unfold readMappingRecord
  simp only [hread, if_true, byte_write, hmin]
  rw [readMappings_presents h hne]
  · unfold subIndices PdoRecord.activeMappings
    rw [List.map_map]
    apply List.ext_getElem
    · simp only [List.length_map, List.length_range, List.length_take, FixedBuffer.length_cells]
      unfold pdoMaxMappings at hcount
      omega
    · intro i h₁ h₂
      simp only [List.length_map, List.length_range] at h₁
      simp only [List.getElem_map, List.getElem_range, Function.comp_apply, List.getElem_take,
        hsmall h₁, Nat.add_sub_cancel]
      rw [List.getD_eq_getElem?_getD, List.getElem?_eq_getElem, Option.getD_some]
  · intro sub hsub
    obtain ⟨i, hi, rfl⟩ := List.mem_map.mp hsub
    rw [List.mem_range] at hi
    constructor
    · rw [Ne, ← UInt8.toNat_inj, hsmall hi]
      simp
    · rw [UInt8.le_iff_toNat_le] at hmax ⊢
      rw [hsmall hi]
      exact Nat.le_trans hi hmax

theorem pdoCobRaw_low (cob : UInt16) (enabled : Bool) :
    (Node.pdoCobRaw cob enabled &&& 0x7FF).toNat = cob.toNat % 2048 := by
  have hlow (b : ℕ) (hb : b % 2 ^ 11 = 0) : (cob.toNat ||| b) &&& (2 ^ 11 - 1) = cob.toNat % 2 ^ 11 := by
    rw [Nat.and_two_pow_sub_one_eq_mod, Nat.or_mod_two_pow, hb, Nat.or_zero]
  unfold Node.pdoCobRaw
  rw [UInt32.toNat_and, UInt32.toNat_or]
  apply hlow
  cases enabled <;> rfl

theorem pdoCob_raw {cob : UInt16} (h : cob ≤ 0x7FF) (enabled : Bool) :
    pdoCob (Node.pdoCobRaw cob enabled) = cob := by
  have hle : cob.toNat ≤ 0x7FF := UInt16.le_iff_toNat_le.mp h
  unfold pdoCob
  rw [← UInt16.toNat_inj, UInt32.toNat_toUInt16, pdoCobRaw_low]
  omega

theorem pdoCobRaw_valid (cob : UInt16) (enabled : Bool) :
    (Node.pdoCobRaw cob enabled &&& 0x80000000 == 0) = enabled := by
  have hand (x : ℕ) : x &&& 2 ^ 31 = 2 ^ 31 * (x.testBit 31).toNat := by
    rw [Nat.and_two_pow, Nat.mul_comm]
  have hlow : cob.toUInt32.toNat.testBit 31 = false := by
    apply Nat.testBit_lt_two_pow
    rw [UInt16.toNat_toUInt32]
    exact cob.toNat_lt.trans (by decide)
  rw [Bool.eq_iff_iff, beq_iff_eq, ← UInt32.toNat_inj, UInt32.toNat_and]
  change _ &&& 2 ^ 31 = 0 ↔ _
  unfold Node.pdoCobRaw
  rw [hand, UInt32.toNat_or, Nat.testBit_or, hlow]
  cases enabled <;> decide

theorem pdoEnabled_raw {cob : UInt16} (h : cob ≤ 0x7FF) {enabled : Bool}
    (hen : enabled = true → cob ≠ 0) : pdoEnabled (Node.pdoCobRaw cob enabled) = enabled := by
  have hle : cob.toNat ≤ 0x7FF := UInt16.le_iff_toNat_le.mp h
  unfold pdoEnabled
  rw [pdoCobRaw_valid]
  cases enabled with
  | false => rfl
  | true =>
    rw [Bool.true_and, bne_iff_ne, Ne, ← UInt32.toNat_inj, pdoCobRaw_low]
    have hne : cob.toNat ≠ 0 := fun h0 => hen rfl (UInt16.toNat_inj.mp h0)
    change cob.toNat % 2048 ≠ 0
    omega

end Reads

/-! ## The write-back -/

def Derive.PdoRecord.writtenBack (p : PdoRecord) (node : NodeId) : PdoRecord :=
  { p with cobId := Node.pdoCobRaw (p.resolvedCob node) (p.enabled node) }

section Configs

variable {od : GeneratedOd} {p : PdoRecord} {node : NodeId}

/-- What reading the configuration of a PDO relies on. -/
structure Readable (od : GeneratedOd) (p : PdoRecord) (node : NodeId) : Prop where
  presents : od.fields.Presents (p.writtenBack node)
  number : NumberInRange p.decl.number
  cob : p.resolvedCob node ≤ 0x7FF
  count : p.mappingCount.toNat ≤ pdoMaxMappings
  max : p.mappingCount ≤ p.maxMapSub

theorem enabled_cob (h : p.enabled node = true) : p.resolvedCob node ≠ 0 := by
  unfold PdoRecord.enabled at h
  simp only [Bool.and_eq_true, bne_iff_ne] at h
  exact h.2

theorem mapIdx_ne_commIdx (h : NumberInRange p.decl.number) : p.decl.mapIdx ≠ p.decl.commIdx := by
  have hc := commIdx_toNat h
  have hm := mapIdx_toNat h
  unfold NumberInRange at h
  rw [Ne, ← UInt16.toNat_inj, hc, hm]
  cases p.decl.direction <;>
    simp only [PdoDirection.commBase, PdoDirection.mapBase, UInt16.reduceToNat] <;> omega

theorem pdoOdOffset_number (h : NumberInRange p.decl.number) (slot : ℕ) :
    pdoOdOffset p.decl.number slot = p.decl.number - 1 := by
  unfold pdoOdOffset
  rw [if_neg]
  intro h0
  rw [NumberInRange, h0] at h
  exact absurd h.1 (by decide)

/-- The common objects of the communication record. -/
theorem Readable.comm (h : Readable od p node) (buf4 : FixedBuffer UInt8 4) (buf2 : FixedBuffer UInt8 2) :
    readInto od p.decl.commIdx 1 buf4 = (true, buf4.write 0
      (leBytes32 (Node.pdoCobRaw (p.resolvedCob node) (p.enabled node)))) ∧
    readInto od p.decl.commIdx 2 buf4 = (true, buf4.write 0 [p.transmissionType]) ∧
    readInto od p.decl.commIdx 5 buf2 = (true, buf2.write 0 (leBytes16 p.eventTimer)) := by
  have h1 : (p.writtenBack node).object p.decl.commIdx 1 = some (.u32, .rw,
      leBytes32 (Node.pdoCobRaw (p.resolvedCob node) (p.enabled node))) := by
    simp [PdoRecord.object, PdoRecord.writtenBack]
  have h2 : (p.writtenBack node).object p.decl.commIdx 2 = some (.u8, .rw, [p.transmissionType]) := by
    simp [PdoRecord.object, PdoRecord.writtenBack]
  have h5 : (p.writtenBack node).object p.decl.commIdx 5 =
      some (.u16, .rw, leBytes16 p.eventTimer) := by
    simp [PdoRecord.object, PdoRecord.writtenBack]
  refine ⟨?_, ?_, ?_⟩
  · exact readInto_presents h.presents h1 (by decide) (by simp) buf4
  · exact readInto_presents h.presents h2 (by decide) (by simp) buf4
  · exact readInto_presents h.presents h5 (by decide) (le_refl 2) buf2

theorem Readable.inhibit (h : Readable od p node) (hdir : p.decl.direction = .tpdo)
    (buf2 : FixedBuffer UInt8 2) :
    readInto od p.decl.commIdx 3 buf2 = (true, buf2.write 0 (leBytes16 p.inhibitTime)) := by
  have h3 : (p.writtenBack node).object p.decl.commIdx 3 =
      some (.u16, .rw, leBytes16 p.inhibitTime) := by
    simp [PdoRecord.object, PdoRecord.writtenBack, hdir]
  exact readInto_presents h.presents h3 (by decide) (le_refl 2) buf2

theorem Readable.mappings (h : Readable od p node) (buf : FixedBuffer UInt8 4) :
    (readMappingRecord od p.decl.mapIdx buf).1 = p.activeMappings :=
  readMappingRecord_presents h.presents (mapIdx_ne_commIdx h.number) h.count h.max buf

theorem syncTpdoConfig_readable (h : Readable od p node) (hdir : p.decl.direction = .tpdo) (slot : ℕ)
    (b : ReadBufs) :
    (syncTpdoConfig od slot (p.tpdoConfig node) b).1 = p.tpdoConfig node := by
  have hcomm : 0x1800 + pdoOdOffset (p.tpdoConfig node).odNumber slot = p.decl.commIdx := by
    rw [PdoRecord.tpdoConfig, pdoOdOffset_number h.number, PdoDef.commIdx, hdir]
    rfl
  have hmap : 0x1A00 + pdoOdOffset (p.tpdoConfig node).odNumber slot = p.decl.mapIdx := by
    rw [PdoRecord.tpdoConfig, pdoOdOffset_number h.number, PdoDef.mapIdx, hdir]
    rfl
  unfold syncTpdoConfig
  simp only [hcomm, hmap, (h.comm _ b.buf2).1, (h.comm _ b.buf2).2.1, h.inhibit hdir,
    (h.comm b.buf4 _).2.2, if_true, word32_write, byte_write, word16_write,
    h.mappings, pdoCob_raw h.cob, pdoEnabled_raw h.cob enabled_cob]
  rfl

theorem syncRpdoConfig_readable (h : Readable od p node) (hdir : p.decl.direction = .rpdo) (slot : ℕ)
    (b : ReadBufs) :
    (syncRpdoConfig od slot (p.rpdoConfig node) b).1 = p.rpdoConfig node := by
  have hcomm : 0x1400 + pdoOdOffset (p.rpdoConfig node).odNumber slot = p.decl.commIdx := by
    rw [PdoRecord.rpdoConfig, pdoOdOffset_number h.number, PdoDef.commIdx, hdir]
    rfl
  have hmap : 0x1600 + pdoOdOffset (p.rpdoConfig node).odNumber slot = p.decl.mapIdx := by
    rw [PdoRecord.rpdoConfig, pdoOdOffset_number h.number, PdoDef.mapIdx, hdir]
    rfl
  unfold syncRpdoConfig
  simp only [hcomm, hmap, (h.comm _ b.buf2).1, (h.comm _ b.buf2).2.1,
    (h.comm b.buf4 _).2.2, if_true, word32_write, byte_write, word16_write,
    h.mappings, pdoCob_raw h.cob, pdoEnabled_raw h.cob enabled_cob]
  rfl

end Configs

section WriteBack

variable {d : OdDefinition} {od : GeneratedOd} {base : UInt16}

theorem writeCobs_wellFormed {cobs : List (UInt16 × UInt16 × Bool)} (k : ℕ)
    (hwf : od.fields.WellFormed d) : (Node.writeCobs od base k cobs).fields.WellFormed d := by
  induction cobs generalizing od k with
  | nil => exact hwf
  | cons e cobs ih => exact ih (k + 1) (hwf.write _ _ _)

theorem writeCobs_object_ne {cobs : List (UInt16 × UInt16 × Bool)} (k : ℕ) {index : UInt16}
    {sub : UInt8} (hnumbers : ∀ e ∈ cobs, e.1 ≠ 0)
    (hne : ∀ e ∈ cobs, (index, sub) ≠ (base + (e.1 - 1), 1)) :
    (Node.writeCobs od base k cobs).fields.object index sub = od.fields.object index sub := by
  induction cobs generalizing od k with
  | nil => rfl
  | cons e cobs ih =>
    have hoffset : pdoOdOffset e.1 k = e.1 - 1 := if_neg (hnumbers e List.mem_cons_self)
    refine Eq.trans (ih (k + 1) (fun e' he' => hnumbers e' (List.mem_cons_of_mem e he'))
      (fun e' he' => hne e' (List.mem_cons_of_mem e he'))) ?_
    apply OdFields.object_write_ne
    rw [hoffset]
    exact hne e List.mem_cons_self

/-- Every COB-ID is read back as it was written. -/
theorem writeCobs_object (hd : d.Valid) {dir : PdoDirection}
    {cobs : List (UInt16 × UInt16 × Bool)} (k : ℕ) (hwf : od.fields.WellFormed d)
    (hpdos : ∀ e ∈ cobs, ∃ p ∈ d.pdos, p.direction = dir ∧ p.number = e.1)
    (hnodup : (cobs.map (·.1)).Nodup) :
    ∀ e ∈ cobs, (Node.writeCobs od dir.commBase k cobs).fields.object (dir.commBase + (e.1 - 1)) 1 =
      some (.rw, leBytes32 (Node.pdoCobRaw e.2.1 e.2.2)) := by
  have hinRange {e : UInt16 × UInt16 × Bool} (he : e ∈ cobs) : 1 ≤ e.1.toNat ∧ e.1.toNat ≤ 512 := by
    obtain ⟨p, hp, -, hn⟩ := hpdos e he
    rw [← hn]
    exact hd.numbers p hp
  have hnumbers : ∀ e ∈ cobs, e.1 ≠ 0 := by
    intro e he h0
    have h1 := (hinRange he).1
    rw [h0] at h1
    exact absurd h1 (by decide)
  induction cobs generalizing od k with
  | nil => simp
  | cons e cobs ih =>
    have hoffset : pdoOdOffset e.1 k = e.1 - 1 := if_neg (hnumbers e List.mem_cons_self)
    rw [List.map_cons, List.nodup_cons] at hnodup
    obtain ⟨hnotin, hnodup'⟩ := hnodup
    intro e' he'
    rcases List.mem_cons.mp he' with rfl | he'
    · -- the later writes are at other indices
      refine (writeCobs_object_ne (k + 1) (fun e'' he'' => hnumbers e'' (List.mem_cons_of_mem _ he''))
        ?_).trans ?_
      · intro e'' he'' heq
        have hnumber : e'.1 = e''.1 := by simpa using (Prod.mk.inj heq).1
        exact hnotin (hnumber ▸ List.mem_map_of_mem he'')
      · rw [hoffset]
        obtain ⟨p, hp, hdir, hn⟩ := hpdos e' List.mem_cons_self
        have hcob := object_write_cob hwf hd hp (Node.pdoCobRaw e'.2.1 e'.2.2)
        unfold PdoDef.commIdx at hcob
        rw [hdir, hn] at hcob
        exact hcob
    · refine ih (k + 1) (hwf.write _ _ _) ?_ hnodup' ?_ ?_ e' he'
      · exact fun e'' he'' => hpdos e'' (List.mem_cons_of_mem e he'')
      · exact fun he'' => hinRange (List.mem_cons_of_mem e he'')
      · exact fun e'' he'' => hnumbers e'' (List.mem_cons_of_mem e he'')

end WriteBack

/-! ## A new node -/

section New

variable {d : OdDefinition} {od : GeneratedOd} {node : NodeId}

def Derive.OdFields.pdosOf (od : OdFields) (dir : PdoDirection) : List PdoRecord :=
  od.pdos.filter (·.decl.direction == dir)

theorem mem_pdosOf {dir : PdoDirection} {p : PdoRecord} :
    p ∈ od.fields.pdosOf dir ↔ p ∈ od.fields.pdos ∧ p.decl.direction = dir := by
  simp [OdFields.pdosOf]

/-- What is written back for the records of one direction. -/
def Derive.OdFields.cobsOf (od : OdFields) (node : NodeId) (dir : PdoDirection) :
    List (UInt16 × UInt16 × Bool) :=
  (od.pdosOf dir).map fun p => (p.decl.number, p.resolvedCob node, p.enabled node)

theorem initial_tpdoCobs : (Node.initial (.fromOd od node) od : Node GeneratedOd evt dirty).tpdoCobs =
    od.fields.cobsOf node .tpdo := by
  simp [Node.tpdoCobs, Node.initial, TpdoEngine.new, NodeConfig.fromOd, OdFields.tpdoConfigs,
    OdFields.cobsOf, OdFields.pdosOf, Function.comp_def, TpdoSlot.new, PdoRecord.tpdoConfig]

theorem initial_rpdoCobs : (Node.initial (.fromOd od node) od : Node GeneratedOd evt dirty).rpdoCobs =
    od.fields.cobsOf node .rpdo := by
  simp [Node.rpdoCobs, Node.initial, RpdoEngine.new, NodeConfig.fromOd, OdFields.rpdoConfigs,
    OdFields.cobsOf, OdFields.pdosOf, Function.comp_def, RpdoSlot.new, PdoRecord.rpdoConfig]

def builtOd (od : GeneratedOd) (node : NodeId) : GeneratedOd :=
  let od' := Node.writeCobs (Node.writeCobs od 0x1800 0 (od.fields.cobsOf node .tpdo)) 0x1400 0
    (od.fields.cobsOf node .rpdo)
  { od' with fields := (od'.fields.storeSdoServerCobIds node).storeErrorRegister 0 }

theorem built_od : ObjectDictionary.storeErrorRegister (ObjectDictionary.storeSdoServerCobIds
    (Node.initial (.fromOd od node) od : Node GeneratedOd evt dirty).writePdoCobIdsToOd.od
      (NodeConfig.fromOd od node).nodeId) 0 = builtOd od node := by
  rw [Node.writePdoCobIdsToOd, initial_tpdoCobs, initial_rpdoCobs]
  rfl

theorem cobsOf_pdos (hwf : od.fields.WellFormed d) (dir : PdoDirection) :
    ∀ e ∈ od.fields.cobsOf node dir, ∃ p ∈ d.pdos, p.direction = dir ∧ p.number = e.1 := by
  intro e he
  obtain ⟨p, hp, rfl⟩ := List.mem_map.mp he
  rw [mem_pdosOf] at hp
  refine ⟨p.decl, ?_, hp.2, rfl⟩
  rw [← hwf.pdos]
  exact List.mem_map_of_mem hp.1

variable (hd : d.Valid) (hwf : od.fields.WellFormed d)
include hd hwf

theorem cobsOf_nodup (dir : PdoDirection) : ((od.fields.cobsOf node dir).map (·.1)).Nodup := by
  have hkeys := hd.pdos
  rw [← hwf.pdos, List.map_map] at hkeys
  unfold OdFields.cobsOf OdFields.pdosOf
  rw [List.map_map]
  refine ((hkeys.of_map _).filter _).map_on ?_
  intro p hp q hq hnumber
  have hp := List.mem_filter.mp hp
  have hq := List.mem_filter.mp hq
  refine List.inj_on_of_nodup_map hkeys hp.1 hq.1 (Prod.ext ?_ hnumber)
  exact (eq_of_beq hp.2).trans (eq_of_beq hq.2).symm

/-- Of the addresses written back, a record serves only its own. -/
theorem cobsOf_address {p : PdoRecord} (hp : p ∈ od.fields.pdos) {index : UInt16} {sub : UInt8}
    (ho : (p.object index sub).isSome = true) {dir : PdoDirection} {e : UInt16 × UInt16 × Bool}
    (he : e ∈ od.fields.cobsOf node dir) (haddr : (index, sub) = (dir.commBase + (e.1 - 1), 1)) :
    (index, sub) = (p.decl.commIdx, 1) ∧ p.decl.direction = dir := by
  obtain ⟨q, hq, hdir, hnumber⟩ := cobsOf_pdos hwf dir e he
  have hpd : p.decl ∈ d.pdos := by
    rw [← hwf.pdos]
    exact List.mem_map_of_mem hp
  have hindex : index = q.commIdx := by
    rw [PdoDef.commIdx, hdir, hnumber]
    exact (Prod.mk.inj haddr).1
  obtain ⟨hpq, -, hcomm⟩ := pdo_owner_unique (hd.numbers _ hpd) (hd.numbers _ hq)
    (object_index ho) (.inl hindex)
  exact ⟨Prod.ext (hcomm.mpr hindex) (Prod.mk.inj haddr).2, hpq.trans hdir⟩

/-- After the write-back every record is served with its resolved COB-ID. -/
theorem writeBack_presents {p : PdoRecord} (hp : p ∈ od.fields.pdos) :
    (Node.writeCobs (Node.writeCobs od 0x1800 0 (od.fields.cobsOf node .tpdo)) 0x1400 0
      (od.fields.cobsOf node .rpdo)).fields.Presents (p.writtenBack node) := by
  have hnumbers (dir : PdoDirection) : ∀ e ∈ od.fields.cobsOf node dir, e.1 ≠ 0 := by
    intro e he h0
    obtain ⟨q, hq, -, hn⟩ := cobsOf_pdos hwf dir e he
    have h1 := (hd.numbers q hq).1
    rw [hn, h0] at h1
    exact absurd h1 (by decide)
  have hwf₁ : (Node.writeCobs od 0x1800 0 (od.fields.cobsOf node .tpdo)).fields.WellFormed d :=
    writeCobs_wellFormed 0 hwf
  have hown : (p.object p.decl.commIdx 1).isSome = true := by simp [PdoRecord.object]
  have hmem : (p.decl.number, p.resolvedCob node, p.enabled node) ∈
      od.fields.cobsOf node p.decl.direction :=
    List.mem_map_of_mem (mem_pdosOf.mpr ⟨hp, rfl⟩)
  refine (presents_of_mem hwf hd hp).with_cob _ ?_ ?_
  · have hcomm : p.decl.commIdx = p.decl.direction.commBase + (p.decl.number - 1) := rfl
    cases hdir : p.decl.direction with
    | tpdo =>
      rw [hdir] at hmem hcomm
      have hwritten := writeCobs_object hd 0 hwf (cobsOf_pdos hwf .tpdo) (cobsOf_nodup hd hwf .tpdo) _ hmem
      rw [← hcomm] at hwritten
      -- the receive PDOs have other indices
      refine (writeCobs_object_ne 0 (hnumbers .rpdo) ?_).trans hwritten
      intro e he haddr
      have hother := (cobsOf_address hd hwf hp hown he haddr).2
      rw [hdir] at hother
      cases hother
    | rpdo =>
      rw [hdir] at hmem hcomm
      have hwritten := writeCobs_object hd 0 hwf₁ (cobsOf_pdos hwf .rpdo) (cobsOf_nodup hd hwf .rpdo) _ hmem
      rw [← hcomm] at hwritten
      exact hwritten
  · intro index sub ho hne
    refine (writeCobs_object_ne 0 (hnumbers .rpdo) ?_).trans
      (writeCobs_object_ne 0 (hnumbers .tpdo) ?_)
    · intro e he haddr
      exact hne (cobsOf_address hd hwf hp ho he haddr).1
    · intro e he haddr
      exact hne (cobsOf_address hd hwf hp ho he haddr).1

theorem presents_stores {od' : GeneratedOd} (hwf' : od'.fields.WellFormed d) {p : PdoRecord}
    (hp : p ∈ od.fields.pdos) (h : od'.fields.Presents (p.writtenBack node)) (value : UInt8) :
    ((od'.fields.storeSdoServerCobIds node).storeErrorRegister value).Presents
      (p.writtenBack node) := by
  have hpd : p.decl ∈ d.pdos := by
    rw [← hwf.pdos]
    exact List.mem_map_of_mem hp
  have hrange := hd.numbers _ hpd
  have hcomm := commIdx_toNat hrange
  have hmap := mapIdx_toNat hrange
  intro index sub o ho
  -- the records of PDOs lie above those of the SDO servers
  have hlow : 0x1400 ≤ index.toNat := by
    have hindex : index = p.decl.commIdx ∨ index = p.decl.mapIdx :=
      object_index (p := p.writtenBack node) (by rw [ho]; rfl)
    rcases hindex with rfl | rfl
    · rw [hcomm]
      cases p.decl.direction <;> simp only [PdoDirection.commBase, UInt16.reduceToNat] <;> omega
    · rw [hmap]
      cases p.decl.direction <;> simp only [PdoDirection.mapBase, UInt16.reduceToNat] <;> omega
  rw [OdFields.object_storeErrorRegister, OdFields.object_storeSdoServerCobIds, h index sub o ho]
  · intro s hs heq
    have hsd : s.decl ∈ d.sdoServers := by
      rw [← hwf'.sdoServers]
      exact List.mem_map_of_mem hs
    have hnumber := hd.serverNumbers s.decl hsd
    have hsub : (s.decl.number - 1).toNat = s.decl.number.toNat - 1 :=
      UInt16.toNat_sub_of_le _ _ (UInt16.le_iff_toNat_le.mpr (le_trans (by decide) hnumber.1))
    rw [heq, SdoServerDef.idx, UInt16.toNat_add, hsub] at hlow
    simp only [UInt16.reduceToNat] at hlow hnumber
    omega
  · intro h0
    rw [h0] at hlow
    exact absurd hlow (by decide)

/-- What a record needs to be read back after construction. -/
theorem new_readable (hcob : ∀ p ∈ od.fields.pdos, p.resolvedCob node ≤ 0x7FF) {p : PdoRecord}
    (hp : p ∈ od.fields.pdos) : Readable (builtOd od node) p node where
  presents := presents_stores hd hwf (writeCobs_wellFormed 0 (writeCobs_wellFormed 0 hwf)) hp
    (writeBack_presents hd hwf hp) 0
  number := by
    apply hd.numbers
    rw [← hwf.pdos]
    exact List.mem_map_of_mem hp
  cob := hcob p hp
  count := (hwf.counts p hp).1
  max := by
    have hcount := hwf.counts p hp
    unfold PdoRecord.maxMapSub
    split_ifs with hmutable
    · exact UInt8.le_iff_toNat_le.mpr hcount.1
    · rw [hcount.2 (by simpa using hmutable)]
      exact UInt8.le_refl _

/-- The engines of a new node are configured as the written-back records say. -/
theorem built_pdos (hcob : ∀ p ∈ od.fields.pdos, p.resolvedCob node ≤ 0x7FF) {c : Running}
    (htpdos : c.tpdos = od.fields.tpdoConfigs node) (hrpdos : c.rpdos = od.fields.rpdoConfigs node) :
    c.rereadPdos (builtOd od node) = c := by
  have ht : (rereadEach (syncTpdoConfig (builtOd od node)) 0 c.tpdos .zero).1 = c.tpdos := by
    rw [htpdos]
    apply rereadEach_fixed
    intro config hconfig n b
    obtain ⟨p, hp, rfl⟩ := List.mem_map.mp hconfig
    have hp := mem_pdosOf.mp hp
    exact syncTpdoConfig_readable (new_readable hd hwf hcob hp.1) hp.2 n b
  have hr (b : ReadBufs) : (rereadEach (syncRpdoConfig (builtOd od node)) 0 c.rpdos b).1 = c.rpdos := by
    rw [hrpdos]
    apply rereadEach_fixed
    intro config hconfig n b
    obtain ⟨p, hp, rfl⟩ := List.mem_map.mp hconfig
    have hp := mem_pdosOf.mp hp
    exact syncRpdoConfig_readable (new_readable hd hwf hcob hp.1) hp.2 n b
  unfold Running.rereadPdos
  simp only [ht, hr]

theorem new_mirrors (hcob : ∀ p ∈ od.fields.pdos, p.resolvedCob node ≤ 0x7FF)
    {n : Node GeneratedOd evt dirty} (h : Node.new (.fromOd od node) od = some n) :
    Mirrors n.od n.running := by
  obtain ⟨hod, -, p, hp, hrun⟩ := new_running h
  have hod : n.od = builtOd od node := hod.trans built_od
  rw [hrun, hod]
  rw [hod] at hp
  have hnumber {q : PdoRecord} (hq : q ∈ od.fields.pdos) : NumberInRange q.decl.number :=
    (new_readable hd hwf hcob hq).number
  have htpdos : ((Node.initial (.fromOd od node) od : Node GeneratedOd evt dirty)).running.tpdos =
      od.fields.tpdoConfigs node := by
    simp [Node.running, Node.initial, TpdoEngine.new, NodeConfig.fromOd, Function.comp_def,
      TpdoSlot.new]
  have hrpdos : ((Node.initial (.fromOd od node) od : Node GeneratedOd evt dirty)).running.rpdos =
      od.fields.rpdoConfigs node := by
    simp [Node.running, Node.initial, RpdoEngine.new, NodeConfig.fromOd, Function.comp_def,
      RpdoSlot.new]
  generalize (Node.initial (.fromOd od node) od : Node GeneratedOd evt dirty).running = c
    at htpdos hrpdos
  constructor
  · exact congrArg (fun c => (c.rereadHeartbeat (builtOd od node)).withSync p)
      (built_pdos hd hwf hcob htpdos hrpdos)
  · exact congrArg (Running.withSync · p) (rereadHeartbeat_idem (builtOd od node) _)
  · exact ⟨p, hp, rfl⟩
  · intro config hconfig
    change config ∈ c.tpdos at hconfig
    rw [htpdos] at hconfig
    obtain ⟨q, hq, rfl⟩ := List.mem_map.mp hconfig
    exact hnumber (mem_pdosOf.mp hq).1
  · intro config hconfig
    change config ∈ c.rpdos at hconfig
    rw [hrpdos] at hconfig
    obtain ⟨q, hq, rfl⟩ := List.mem_map.mp hconfig
    exact hnumber (mem_pdosOf.mp hq).1

end New

/-! ## Every run -/

theorem uncommitted_start {OD : Type} [ObjectDictionary OD] {config : NodeConfig} {od : OD}
    {n : Node OD evt dirty} (h : Node.new config od = some n) : Uncommitted (Machine.start n) := by
  obtain ⟨od', hread⟩ := new_reread h
  intro ch hch
  change ch ∈ n.sdo at hch
  rw [hread.sdo] at hch
  rcases List.mem_cons.mp hch with rfl | hch
  · rfl
  · obtain ⟨s, -, rfl⟩ := List.mem_map.mp hch
    rfl

/-- In every state a node built from a generated dictionary reaches, re-reading the
configuration would change nothing, as long as the objects it is read from are changed
by SDO downloads only. -/
theorem running_config_mirrors_od {d : OdDefinition} (hd : d.validate = true) {od : GeneratedOd}
    (hod : OdFields.Of d od.fields) {node : NodeId}
    (hcob : ∀ cob ∈ (NodeConfig.fromOd od node).tpdo.map (·.cobId) ++
      (NodeConfig.fromOd od node).rpdo.map (·.cobId), cob ≤ 0x7FF)
    {n : Node GeneratedOd evt dirty} (hn : Node.new (.fromOd od node) od = some n)
    {calls : List (Call GeneratedOd)} {m : Machine GeneratedOd evt dirty}
    (hm : (Machine.start n).run calls = some m) (happ : ∀ f, .odMut f ∈ calls → KeepsConfig f)
    (hrpdo : RpdosKeepConfig m.bus.trace) :
    m.node.syncPdoFromOd = m.node ∧ m.node.syncHeartbeatFromOd true = m.node ∧
      m.node.syncConfigFromOd = some m.node := by
  have hcob' : ∀ p ∈ od.fields.pdos, p.resolvedCob node ≤ 0x7FF := by
    intro p hp
    apply hcob
    rw [List.mem_append]
    cases hdir : p.decl.direction with
    | tpdo =>
      left
      refine List.mem_map.mpr ⟨p.tpdoConfig node, ?_, rfl⟩
      exact List.mem_map_of_mem (mem_pdosOf.mpr ⟨hp, hdir⟩)
    | rpdo =>
      right
      refine List.mem_map.mpr ⟨p.rpdoConfig node, ?_, rfl⟩
      exact List.mem_map_of_mem (mem_pdosOf.mpr ⟨hp, hdir⟩)
  have hstore : ∀ v, KeepsConfig (fun od : GeneratedOd => ObjectDictionary.storeErrorRegister od v) := by
    intro v od index hi sub k buf
    apply StoreOd.read_storeErrorRegister
    rintro rfl
    exact absurd hi (by decide)
  have hsteps := run_steps hstore happ hm
  have hmirrors := (mirrors_steps hsteps (uncommitted_start hn)
    (new_mirrors (OdDefinition.valid hd) (hod.wellFormed (OdDefinition.valid hd)) hcob' hn) hrpdo).2
  exact ⟨hmirrors.syncPdoFromOd, hmirrors.syncHeartbeatFromOd, hmirrors.syncConfigFromOd⟩

/-- TPDO 1 is moved to COB-ID 0x190, the node is started, a receive PDO arrives, and the
node is reset. -/
def relocateCalls : List (Call GeneratedOd) :=
  [.process 0 [] [],
    .process 1000 [.literal 0x605 [0x23, 0x00, 0x18, 1, 0x90, 0x01, 0, 0],
      .literal 0x000 [0x01, 5], .literal 0x205 [7, 8]] [.wouldBlock],
    .process 2000 [.literal 0x000 [0x81, 5]] []]

theorem running_config_mirrors_od_relocated :
    ∃ m, sampleRun relocateCalls = some m ∧
      m.node.running.tpdos.map (·.cobId) = [0x190] ∧ m.node.syncPdoFromOd = m.node := by
  have hany : (sampleRun relocateCalls).any (fun m =>
      m.node.running.tpdos.map (·.cobId) == [0x190] &&
      m.bus.trace.all (Obs.spares fun index _ => isConfigIndex index)) = true := by
    decide
  obtain ⟨n, m, hn, hr, hm, hp⟩ := sampleRun_of_any hany
  rw [Bool.and_eq_true, beq_iff_eq] at hp
  have hrpdo : RpdosKeepConfig m.bus.trace := by
    intro w state hw _
    simpa [Obs.spares] using List.all_eq_true.mp hp.2 _ hw
  have hcob : ((NodeConfig.fromOd sampleOd sampleNode).tpdo.map (·.cobId) ++
      (NodeConfig.fromOd sampleOd sampleNode).rpdo.map (·.cobId)).all
        (fun cob => decide (cob ≤ 0x7FF)) = true := by
    decide
  refine ⟨m, hm, hp.1, ?_⟩
  exact (running_config_mirrors_od (d := sampleDefinition) (by decide) .new
    (fun cob h => of_decide_eq_true (List.all_eq_true.mp hcob cob h)) hn hr
    (by simp [relocateCalls]) hrpdo).1

end Canopen
