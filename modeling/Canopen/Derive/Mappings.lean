import Canopen.Derive.Store

/-!
# PDO mapping records

Count and entries of a mapping record are written independently and in any order. The
record stays well-formed because entries can be written only while the count is zero,
and a count is checked against the entries it activates.
-/

namespace Canopen.Derive

open LittleEndian Pdo

/-! ## Eligibility -/

/-- The entries in effect. -/
def PdoRecord.active (p : PdoRecord) : List UInt32 := p.mappings.cells.take p.mappingCount.toNat

/-- An entry is padding, or names an object that may be mapped in the direction. -/
def Eligible (lookup : UInt16 → UInt8 → Option OdEntryMeta) (dir : PdoDirection) (m : UInt32) : Prop :=
  isDummyMappingIndex (m >>> 16).toUInt16 = true ∨
    ∃ info, lookup (m >>> 16).toUInt16 (m >>> 8).toUInt8 = some info ∧ info.pdoMappable = true ∧
      match dir with
      | .tpdo => info.access ≠ .wo
      | .rpdo => info.access = .rw ∨ info.access = .wo

theorem eligible_of_ok {lookup : UInt16 → UInt8 → Option OdEntryMeta} {dir : PdoDirection}
    {m : UInt32} (h : validateMappingTarget lookup m (dir == .rpdo) = .ok ()) :
    Eligible lookup dir m := by
  unfold validateMappingTarget at h
  dsimp only at h
  by_cases hdummy : isDummyMappingIndex (m >>> 16).toUInt16 = true
  · exact .inl hdummy
  rw [if_neg hdummy] at h
  cases hl : lookup (m >>> 16).toUInt16 (m >>> 8).toUInt8 with
  | none => simp [hl] at h
  | some info =>
    refine .inr ⟨info, hl, ?_⟩
    rw [hl, Option.any_some] at h
    have hmap : (info.pdoMappable && if (dir == .rpdo) = true then
        info.access == .wo || info.access == .rw else info.access != .wo) = true := by
      by_contra hne
      rw [if_neg hne] at h
      cases h
    cases dir with
    | tpdo => simpa using hmap
    | rpdo =>
      simp only [Bool.and_eq_true, beq_self_eq_true, ↓reduceIte, Bool.or_eq_true, beq_iff_eq] at hmap
      exact ⟨hmap.1, hmap.2.symm⟩

section Lookup

variable {d : OdDefinition} {od od' : OdFields} {index : UInt16} {sub : UInt8}

theorem OdFields.Typed.cell_info (h : od.Typed d) (index : UInt16) (sub : UInt8) :
    (od.cell index sub).map (·.info) = ((OdFields.new d).cell index sub).map (·.info) := by
  have hinfo : od.cells.map (·.info) = (OdFields.new d).cells.map (·.info) := by
    have hcells := congrArg (List.map Prod.fst) h.cells
    rw [List.map_map, List.map_map] at hcells
    exact hcells
  have hfind (l : List Cell) :
      (l.find? fun c => c.info.index == index && c.info.subindex == sub).map (·.info) =
        (l.map (·.info)).find? fun info => info.index == index && info.subindex == sub := by
    rw [List.find?_map]
    rfl
  unfold OdFields.cell
  rw [hfind, hfind, hinfo]

theorem lookup_mappable {info : OdEntryMeta} (hmap : info.pdoMappable = true) :
    od.lookup index sub = some info ↔ (od.cell index sub).map (·.info) = some info := by
  unfold OdFields.lookup
  cases od.cell index sub with
  | some c => rfl
  | none =>
    simp only [Option.map_none, reduceCtorEq, iff_false, Option.map_eq_some_iff, not_exists, not_and]
    rintro o - rfl
    cases hmap

theorem Eligible.congr (h : od.Typed d) (h' : od'.Typed d) {dir : PdoDirection} {m : UInt32}
    (hm : Eligible od.lookup dir m) : Eligible od'.lookup dir m := by
  rcases hm with hdummy | ⟨info, hl, hmap, haccess⟩
  · exact .inl hdummy
  · refine .inr ⟨info, ?_, hmap, haccess⟩
    rw [lookup_mappable hmap] at hl ⊢
    rw [h'.cell_info, ← h.cell_info, hl]

end Lookup

/-! ## Declared mappings -/

section Declared

variable {d : OdDefinition}

theorem entry_addresses_nodup (hd : d.Valid) {e : OdEntry} (he : e ∈ d.entries) :
    (e.cells.map fun c => (c.info.index, c.info.subindex)).Nodup := by
  unfold OdEntry.cells
  cases hkind : e.kind with
  | var v => simp
  | record subs =>
    obtain ⟨hnodup, hne⟩ := hd.subs e he subs hkind
    simp only [List.map_cons, List.map_map, List.nodup_cons, List.mem_map, Function.comp_apply,
      not_exists, not_and]
    constructor
    · intro s hs heq
      exact hne s hs (Prod.mk.inj heq).2
    · have hmap : subs.map ((fun c : Cell => (c.info.index, c.info.subindex)) ∘
          fun s => s.2.cell e.index s.1) = (subs.map (·.1)).map (e.index, ·) := by
        rw [List.map_map]
        rfl
      have hinj : Function.Injective fun s : UInt8 => (e.index, s) :=
        fun a b hab => (Prod.mk.inj hab).2
      exact hmap ▸ hnodup.map hinj
  | array a =>
    unfold ArrayDef.cells
    have hlt := (UInt8.ofNat a.count).toNat_lt
    simp only [List.map_cons, List.map_map, List.nodup_cons, List.mem_map, Function.comp_apply,
      not_exists, not_and]
    constructor
    · intro i hi heq
      have hi := List.mem_range.mp hi
      have hsub := congrArg UInt8.toNat (Prod.mk.inj heq).2
      rw [UInt8.toNat_ofNat', Nat.mod_eq_of_lt (by omega)] at hsub
      simp [countCell] at hsub
    · refine (List.nodup_range).map_on ?_
      intro i hi j hj heq
      have hi := List.mem_range.mp hi
      have hj := List.mem_range.mp hj
      have hsub := congrArg UInt8.toNat (Prod.mk.inj heq).2
      simp only [UInt8.toNat_ofNat'] at hsub
      omega

theorem addresses_nodup (hd : d.Valid) :
    ((OdFields.new d).cells.map fun c => (c.info.index, c.info.subindex)).Nodup := by
  change ((d.entries.flatMap OdEntry.cells).map _).Nodup
  rw [List.map_flatMap, List.nodup_flatMap]
  refine ⟨fun e he => entry_addresses_nodup hd he, ?_⟩
  refine (List.pairwise_map.mp hd.entries).imp ?_
  intro e e' hne
  refine List.disjoint_left.mpr ?_
  intro addr ha ha'
  obtain ⟨c, hc, rfl⟩ := List.mem_map.mp ha
  obtain ⟨c', hc', heq⟩ := List.mem_map.mp ha'
  apply hne
  rw [← entry_cells_index hc, ← entry_cells_index hc', (Prod.mk.inj heq).1]

theorem cell_of_mem (hd : d.Valid) {c : Cell} (hc : c ∈ (OdFields.new d).cells) :
    (OdFields.new d).cell c.info.index c.info.subindex = some c := by
  unfold OdFields.cell
  cases hf : (OdFields.new d).cells.find? fun c' =>
      c'.info.index == c.info.index && c'.info.subindex == c.info.subindex with
  | none =>
    have := List.find?_eq_none.mp hf c hc
    simp at this
  | some c' =>
    have haddr := List.find?_some hf
    simp only [Bool.and_eq_true, beq_iff_eq] at haddr
    rw [List.inj_on_of_nodup_map (addresses_nodup hd) (List.mem_of_find?_eq_some hf) hc
      (Prod.ext haddr.1 haddr.2)]

/-- A declared mapping names padding or a fixed-size object that may be mapped. -/
theorem resolves_cell {dir : PdoDirection} {m : UInt32} (h : d.resolves dir m = true) :
    isDummyMappingIndex (m >>> 16).toUInt16 = true ∨
      ∃ v : VarDef, v.mappable dir = true ∧
        v.cell (m >>> 16).toUInt16 (m >>> 8).toUInt8 ∈ (OdFields.new d).cells := by
  unfold OdDefinition.resolves at h
  simp only [Bool.or_eq_true, List.any_eq_true, Bool.and_eq_true, beq_iff_eq] at h
  rcases h with hdummy | ⟨e, he, hindex, hkind⟩
  · exact .inl hdummy
  right
  rw [← hindex]
  cases hk : e.kind with
  | var v =>
    simp only [hk, Bool.and_eq_true, beq_iff_eq] at hkind
    refine ⟨v, hkind.2, List.mem_flatMap.mpr ⟨e, he, ?_⟩⟩
    simp [OdEntry.cells, hk, hkind.1]
  | record subs =>
    simp only [hk, List.any_eq_true, Bool.and_eq_true, beq_iff_eq] at hkind
    obtain ⟨⟨sub, v⟩, hs, hsub, hv⟩ := hkind
    refine ⟨v, hv, List.mem_flatMap.mpr ⟨e, he, ?_⟩⟩
    simp only [OdEntry.cells, hk]
    refine List.mem_cons_of_mem _ (List.mem_map.mpr ⟨(sub, v), hs, ?_⟩)
    rw [← hsub]
  | array a => simp [hk] at hkind

/-- Declared mappings are eligible. -/
theorem eligible_of_resolves (hd : d.Valid) {dir : PdoDirection} {m : UInt32}
    (h : d.resolves dir m = true) : Eligible (OdFields.new d).lookup dir m := by
  rcases resolves_cell h with hdummy | ⟨v, hv, hc⟩
  · exact .inl hdummy
  right
  have hcell : (OdFields.new d).cell (m >>> 16).toUInt16 (m >>> 8).toUInt8 =
      some (v.cell (m >>> 16).toUInt16 (m >>> 8).toUInt8) := cell_of_mem hd hc
  unfold VarDef.mappable at hv
  simp only [Bool.and_eq_true] at hv
  refine ⟨(v.cell (m >>> 16).toUInt16 (m >>> 8).toUInt8).info, ?_, hv.1.1, ?_⟩
  · rw [OdFields.lookup, hcell]
  · cases dir with
    | tpdo => simpa [VarDef.cell] using hv.2
    | rpdo => simpa [VarDef.cell] using hv.2

end Declared

/-! ## Runs of writes -/

/-- A mapping record in order. An immutable record is as declared. -/
structure PdoRecord.WellMapped (lookup : UInt16 → UInt8 → Option OdEntryMeta) (p : PdoRecord) :
    Prop where
  count : p.mappingCount.toNat ≤ pdoMaxMappings
  bits : mappedBits p.active ≤ pdoMaxPayloadBits
  eligible : ∀ m ∈ p.active, Eligible lookup p.decl.direction m
  immutable : p.decl.isMutable = false →
    p.mappings = p.decl.record.mappings ∧ p.mappingCount = p.decl.record.mappingCount

section Runs

variable {d : OdDefinition} {od : OdFields} {index : UInt16} {sub : UInt8} {data : List UInt8}

theorem record_active {p : PdoDef} (h : p.mappings.length ≤ pdoMaxMappings) :
    p.record.active = p.mappings := by
  unfold pdoMaxMappings at h
  have hfront := FixedBuffer.front_write (FixedBuffer.filled 64 (0 : UInt32)) 0 p.mappings
    (by rw [Nat.zero_add]; exact h)
  rw [Nat.zero_add, FixedBuffer.front_zero, List.nil_append] at hfront
  unfold PdoRecord.active PdoDef.record
  rw [UInt8.toNat_ofNat', Nat.mod_eq_of_lt (by omega)]
  exact hfront

theorem wellMapped_new (hd : d.Valid) {p : PdoRecord} (hp : p ∈ (OdFields.new d).pdos) :
    p.WellMapped (OdFields.new d).lookup := by
  obtain ⟨q, hq, rfl⟩ := List.mem_map.mp hp
  have hlength := hd.lengths q hq
  refine ⟨?_, ?_, ?_, fun _ => ⟨rfl, rfl⟩⟩
  · exact (UInt8.toNat_ofNat' ▸ Nat.mod_le _ _).trans hlength
  · rw [record_active hlength]
    exact hd.bits q hq
  · intro m hm
    rw [record_active hlength] at hm
    exact eligible_of_resolves hd (hd.resolved q hq m hm)

theorem active_of_zero {p : PdoRecord} (h : p.mappingCount = 0) : p.active = [] := by
  simp [PdoRecord.active, h]

/-- A write leaves a PDO record as it is, or writes to it at one of its addresses. -/
theorem pdos_write {k : ℕ} {p' : PdoRecord}
    (h : (od.write index sub data).2.pdos[k]? = some p') :
    ∃ p, od.pdos[k]? = some p ∧
      (p' = p ∨ (p.object index sub).isSome = true ∧ p.Written od.lookup index sub data p') := by
  rcases OdFields.write_cases od index sub data with ⟨e, heq⟩ | ⟨cells, -, heq⟩ |
    ⟨pdos, -, hpdos, heq⟩
  · rw [heq] at h
    exact ⟨p', h, .inl rfl⟩
  · rw [heq] at h
    exact ⟨p', h, .inl rfl⟩
  · rw [heq] at h
    obtain ⟨l₁, q, q', l₂, hl, rfl, -, howns, hw⟩ := updateFirst_ok hpdos
    rcases Nat.lt_trichotomy k l₁.length with hk | hk | hk
    · refine ⟨p', ?_, .inl rfl⟩
      rw [List.getElem?_append_left hk] at h
      rw [hl, List.getElem?_append_left hk, h]
    · subst hk
      rw [List.getElem?_append_right (le_refl _), Nat.sub_self, List.getElem?_cons_zero] at h
      cases h
      refine ⟨q, ?_, .inr ⟨howns, pdoRecord_written hw⟩⟩
      rw [hl, List.getElem?_append_right (le_refl _), Nat.sub_self, List.getElem?_cons_zero]
    · refine ⟨p', ?_, .inl rfl⟩
      obtain ⟨j, hj⟩ : ∃ j, k - l₁.length = j + 1 := ⟨k - l₁.length - 1, by omega⟩
      rw [List.getElem?_append_right (by omega), hj, List.getElem?_cons_succ] at h
      rw [hl, List.getElem?_append_right (by omega), hj, List.getElem?_cons_succ, h]

/-- A write to a record leaves it in order: entries are written while none is active, and
a count is checked. -/
theorem PdoRecord.WellMapped.written {lookup : UInt16 → UInt8 → Option OdEntryMeta}
    {p p' : PdoRecord} (h : p.WellMapped lookup) (hw : p.Written lookup index sub data p') :
    p'.WellMapped lookup := by
  cases hw with
  | cobId => exact ⟨h.count, h.bits, h.eligible, h.immutable⟩
  | transmissionType => exact ⟨h.count, h.bits, h.eligible, h.immutable⟩
  | inhibitTime => exact ⟨h.count, h.bits, h.eligible, h.immutable⟩
  | eventTimer => exact ⟨h.count, h.bits, h.eligible, h.immutable⟩
  | count hi hmutable hsub hlen hmax heligible hbits =>
    refine ⟨hmax, hbits, fun m hm => eligible_of_ok (heligible m hm), ?_⟩
    exact fun himmutable => absurd (hmutable.symm.trans himmutable) (by decide)
  | entry hi hmutable hsub hlen hcount =>
    refine ⟨h.count, ?_, ?_, ?_⟩
    · rw [active_of_zero (by exact hcount)]
      exact Nat.zero_le _
    · intro m hm
      rw [active_of_zero (by exact hcount)] at hm
      cases hm
    · exact fun himmutable => absurd (hmutable.symm.trans himmutable) (by decide)

theorem wellMapped_write (htyped : od.Typed d) (h : ∀ p ∈ od.pdos, p.WellMapped od.lookup) :
    ∀ p ∈ (od.write index sub data).2.pdos, p.WellMapped (od.write index sub data).2.lookup := by
  intro p' hp'
  obtain ⟨k, hk⟩ := List.mem_iff_getElem?.mp hp'
  obtain ⟨p, hp, hcases⟩ := pdos_write hk
  have hwell : p'.WellMapped od.lookup := by
    have hold := h p (List.mem_of_getElem? hp)
    rcases hcases with rfl | ⟨-, hw⟩
    · exact hold
    · exact hold.written hw
  have hsame : ∀ m ∈ p'.active, Eligible (od.write index sub data).2.lookup p'.decl.direction m :=
    fun m hm => (hwell.eligible m hm).congr htyped (htyped.write index sub data)
  exact ⟨hwell.count, hwell.bits, hsame, hwell.immutable⟩

theorem OdFields.Of.typed (hd : d.Valid) (h : OdFields.Of d od) : od.Typed d := by
  induction h with
  | new => exact typed_new hd
  | write _ index sub data ih => exact ih.write index sub data

theorem OdFields.Of.wellMapped (hd : d.Valid) (h : OdFields.Of d od) :
    ∀ p ∈ od.pdos, p.WellMapped od.lookup := by
  induction h with
  | new => exact fun p hp => wellMapped_new hd hp
  | write hod index sub data ih => exact wellMapped_write (hod.typed hd) ih

end Runs

/-- Mapping records stay in order under every sequence of writes, entries change only while
the count is zero, and immutable records never change. -/
theorem mapping_records_stay_well_formed {d : OdDefinition} (hd : d.validate = true) {od : OdFields}
    (h : OdFields.Of d od) :
    (∀ p ∈ od.pdos, p.mappingCount.toNat ≤ 64 ∧ mappedBits p.active ≤ 64 ∧
      (∀ m ∈ p.active, Eligible od.lookup p.decl.direction m) ∧
      (p.decl.isMutable = false → p.mappings = p.decl.record.mappings ∧
        p.mappingCount = p.decl.record.mappingCount)) ∧
    ∀ index sub data (k : ℕ) (p p' : PdoRecord), od.pdos[k]? = some p →
      (od.write index sub data).2.pdos[k]? = some p' →
      p'.decl = p.decl ∧
      (p'.mappings ≠ p.mappings → p.decl.isMutable = true ∧ p.mappingCount = 0) ∧
      (p'.mappingCount ≠ p.mappingCount → p.decl.isMutable = true) := by
  have hvalid := OdDefinition.valid hd
  constructor
  · intro p hp
    have hwell := h.wellMapped hvalid p hp
    exact ⟨hwell.count, hwell.bits, hwell.eligible, hwell.immutable⟩
  · intro index sub data k p p' hp hp'
    obtain ⟨q, hq, hcases⟩ := pdos_write hp'
    cases hp.symm.trans hq
    rcases hcases with rfl | ⟨-, hw⟩
    · exact ⟨rfl, fun hne => absurd rfl hne, fun hne => absurd rfl hne⟩
    · cases hw with
      | cobId => exact ⟨rfl, fun hne => absurd rfl hne, fun hne => absurd rfl hne⟩
      | transmissionType => exact ⟨rfl, fun hne => absurd rfl hne, fun hne => absurd rfl hne⟩
      | inhibitTime => exact ⟨rfl, fun hne => absurd rfl hne, fun hne => absurd rfl hne⟩
      | eventTimer => exact ⟨rfl, fun hne => absurd rfl hne, fun hne => absurd rfl hne⟩
      | count hi hmutable => exact ⟨rfl, fun hne => absurd rfl hne, fun _ => hmutable⟩
      | entry hi hmutable hsub hlen hcount =>
        exact ⟨rfl, fun _ => ⟨hmutable, hcount⟩, fun hne => absurd rfl hne⟩

/-- A device whose TPDO 1 and RPDO 1 may be remapped between a byte and a word. -/
def remappableDefinition : OdDefinition where
  entries := [
    ⟨0x2000, .var ⟨.u8, .rw, true, none, [0]⟩⟩,
    ⟨0x2001, .var ⟨.u16, .rw, true, none, [0, 0]⟩⟩]
  pdos := [
    ⟨.tpdo, 1, none, 255, 0, 0, true, [0x20000008]⟩,
    ⟨.rpdo, 1, none, 255, 0, 0, true, [0x20000008]⟩]
  sdoServers := []
  edsCompressed := []

/-- The device after a master has unlocked TPDO 1, mapped an entry and activated it. -/
def remappedOd (entry : UInt32) : OdFields :=
  let unlocked := ((OdFields.new remappableDefinition).write 0x1A00 0 [0]).2
  let mapped := (unlocked.write 0x1A00 1 (leBytes32 entry)).2
  (mapped.write 0x1A00 0 [1]).2

theorem remappedOd_of (entry : UInt32) : OdFields.Of remappableDefinition (remappedOd entry) :=
  .write (.write (.write .new 0x1A00 0 [0]) 0x1A00 1 (leBytes32 entry)) 0x1A00 0 [1]

/-- The word is mapped into TPDO 1 of the device. -/
theorem mapping_records_stay_well_formed_remapped :
    (remappedOd 0x20010010).pdos.map (·.active) = [[0x20010010], [0x20000008]] ∧
      ∀ p ∈ (remappedOd 0x20010010).pdos,
        ∀ m ∈ p.active, Eligible (remappedOd 0x20010010).lookup p.decl.direction m := by
  refine ⟨by decide, fun p hp => ?_⟩
  exact ((mapping_records_stay_well_formed (by decide) (remappedOd_of 0x20010010)).1 p hp).2.2.1

end Canopen.Derive
