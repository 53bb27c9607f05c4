import Canopen.Derive.Codecs

/-!
# Usable mappings

A mapping is accepted entry by entry and count by count, and used later by the engines. The
checks made on acceptance do not compare an entry's bits with the width of its object, so an
accepted mapping may be one that can never be transmitted. Where every entry that is declared
or activated fits its object, every active mapping can be used.
-/

namespace Canopen.Derive

open LittleEndian Pdo ByteBits

/-- An entry is padding, or at most as wide as the fixed-size object it names. -/
def Fits (lookup : UInt16 → UInt8 → Option OdEntryMeta) (m : UInt32) : Prop :=
  isDummyMappingIndex (m >>> 16).toUInt16 = true ∨
    ∃ info size, lookup (m >>> 16).toUInt16 (m >>> 8).toUInt8 = some info ∧
      info.dataType.size = some size ∧ (m &&& 0xFF).toNat ≤ 8 * size

/-- A write that would activate eligible entries activates entries that fit. -/
def ActivatesFitting (od : OdFields) (index : UInt16) (sub : UInt8) (data : List UInt8) : Prop :=
  ∀ p ∈ od.pdos, index = p.decl.mapIdx → sub = 0 → p.decl.isMutable = true → data.length = 1 →
    (data.getD 0 0).toNat ≤ pdoMaxMappings →
    let activated := p.mappings.cells.take (data.getD 0 0).toNat
    (∀ m ∈ activated, Eligible od.lookup p.decl.direction m) →
    mappedBits activated ≤ pdoMaxPayloadBits →
    ∀ m ∈ activated, Fits od.lookup m

/-- The dictionaries reached when every entry declared or activated fits. -/
inductive FittingRun (d : OdDefinition) : OdFields → Prop
  | new (h : ∀ p ∈ d.pdos, ∀ m ∈ p.mappings, Fits (OdFields.new d).lookup m) :
    FittingRun d (OdFields.new d)
  | write {od : OdFields} (h : FittingRun d od) (index : UInt16) (sub : UInt8) (data : List UInt8)
    (hfit : ActivatesFitting od index sub data) : FittingRun d (od.write index sub data).2

theorem FittingRun.of {d : OdDefinition} {od : OdFields} (h : FittingRun d od) : OdFields.Of d od := by
  induction h with
  | new => exact .new
  | write _ index sub data _ ih => exact .write ih index sub data

/-! ## Active entries fit -/

section Runs

variable {d : OdDefinition} {od od' : OdFields} {index : UInt16} {sub : UInt8} {data : List UInt8}

theorem Fits.congr (h : od.Typed d) (h' : od'.Typed d) {dir : PdoDirection} {m : UInt32}
    (helig : Eligible od.lookup dir m) (hm : Fits od.lookup m) : Fits od'.lookup m := by
  rcases hm with hdummy | ⟨info, size, hl, hs, hle⟩
  · exact .inl hdummy
  rcases helig with hdummy | ⟨info', hl', hmap, -⟩
  · exact .inl hdummy
  cases hl.symm.trans hl'
  refine .inr ⟨info, size, ?_, hs, hle⟩
  rw [lookup_mappable hmap] at hl ⊢
  rw [h'.cell_info, ← h.cell_info, hl]

/-- A write activates what the guard has looked at, or nothing new. -/
theorem active_written {p p' : PdoRecord} (hp : p ∈ od.pdos) (howns : (p.object index sub).isSome = true)
    (hw : p.Written od.lookup index sub data p') (hfit : ActivatesFitting od index sub data)
    (hold : ∀ m ∈ p.active, Fits od.lookup m) : ∀ m ∈ p'.active, Fits od.lookup m := by
  cases hw with
  | cobId => exact hold
  | transmissionType => exact hold
  | inhibitTime => exact hold
  | eventTimer => exact hold
  | count hi hmutable hsub hlen hmax heligible hbits =>
    have hindex : index = p.decl.mapIdx := (object_index howns).resolve_left hi
    exact hfit p hp hindex hsub hmutable hlen hmax (fun m hm => eligible_of_ok (heligible m hm)) hbits
  | entry hi hmutable hsub hlen hcount =>
    intro m hm
    rw [active_of_zero (by exact hcount)] at hm
    cases hm

theorem FittingRun.fits (hd : d.Valid) (h : FittingRun d od) :
    ∀ p ∈ od.pdos, ∀ m ∈ p.active, Fits od.lookup m := by
  induction h with
  | new hdeclared =>
    intro p hp m hm
    obtain ⟨q, hq, rfl⟩ := List.mem_map.mp hp
    rw [record_active (hd.lengths q hq)] at hm
    exact hdeclared q hq m hm
  | @write od hrun index sub data hfit ih =>
    intro p' hp' m hm
    obtain ⟨k, hk⟩ := List.mem_iff_getElem?.mp hp'
    obtain ⟨p, hp, hcases⟩ := pdos_write hk
    have hmem := List.mem_of_getElem? hp
    have htyped := hrun.of.typed hd
    have hwell := hrun.of.wellMapped hd p hmem
    have hboth : Fits od.lookup m ∧ Eligible od.lookup p'.decl.direction m := by
      rcases hcases with rfl | ⟨howns, hw⟩
      · exact ⟨ih p' hmem m hm, hwell.eligible m hm⟩
      · exact ⟨active_written hmem howns hw hfit (ih p hmem) m hm, (hwell.written hw).eligible m hm⟩
    exact hboth.1.congr htyped (htyped.write index sub data) hboth.2

end Runs

/-! ## Transmitting -/

theorem bitLength_fromMappingValue (m : UInt32) :
    (PdoMapping.fromMappingValue m).bitLength.toNat = (m &&& 0xFF).toNat := by
  have hmask : m.toNat &&& (2 ^ 8 - 1) = m.toNat % 2 ^ 8 := Nat.and_two_pow_sub_one_eq_mod m.toNat 8
  rw [UInt32.toNat_and]
  exact (UInt32.toNat_toUInt8 m).trans hmask.symm

theorem sum_activeMappings (ms : List UInt32) :
    ((ms.map PdoMapping.fromMappingValue).map (·.bitLength.toNat)).sum = mappedBits ms := by
  unfold mappedBits
  rw [List.map_map]
  congr 1
  exact List.map_congr_left fun m _ => bitLength_fromMappingValue m

section Engines

variable {d : OdDefinition} {od : OdFields} {m : UInt32}

/-- An entry that is eligible and fits supplies its bits. -/
theorem exists_supplies (h : od.Typed d) (helig : Eligible od.lookup .tpdo m) (hm : Fits od.lookup m)
    (f : Option (OdFields → UInt16 → UInt8 → List UInt8 → Except OdError Unit)) :
    ∃ item, Supplies (⟨od, f⟩ : GeneratedOd) item (PdoMapping.fromMappingValue m) := by
  by_cases hdummy : isDummyMappingIndex (m >>> 16).toUInt16 = true
  · exact ⟨⟨(PdoMapping.fromMappingValue m).bitLength.toNat, none⟩, rfl, hdummy⟩
  obtain ⟨info, hl, hmap, haccess⟩ := helig.resolve_left hdummy
  obtain ⟨info', size, hl', hs, hle⟩ := hm.resolve_left hdummy
  cases hl.symm.trans hl'
  obtain ⟨value, hobject, hlen, -⟩ := h.mapped_value hl hmap hs
  have hsize : value.length ≤ 8 := hlen.trans_le (DataType.size_le hs)
  have hread : od.read (m >>> 16).toUInt16 (m >>> 8).toUInt8 (FixedBuffer.filled 8 0) =
      (.ok ⟨value.length, hsize⟩, (FixedBuffer.filled 8 0).write 0 value) := by
    rw [read_eq hobject haccess, dif_pos hsize]
  refine ⟨⟨(PdoMapping.fromMappingValue m).bitLength.toNat,
    some (info.dataType, leNat ((FixedBuffer.filled 8 0).write 0 value).cells)⟩, rfl,
    Bool.eq_false_iff.mpr hdummy, _, _, hread, ?_, field_zero _ _⟩
  rw [bitLength_fromMappingValue]
  exact hle.trans_eq (congrArg (8 * ·) hlen.symm)

theorem exists_forall₂ {α β : Type} {R : α → β → Prop} {bs : List β} (h : ∀ b ∈ bs, ∃ a, R a b) :
    ∃ as, List.Forall₂ R as bs := by
  induction bs with
  | nil => exact ⟨[], .nil⟩
  | cons b bs ih =>
    obtain ⟨a, ha⟩ := h b List.mem_cons_self
    obtain ⟨as, has⟩ := ih fun b hb => h b (List.mem_cons_of_mem _ hb)
    exact ⟨a :: as, .cons ha has⟩

theorem itemBits_supplies {OD : Type} [ObjectDictionary OD] {od : OD} {items : List PdoItem}
    {ms : List PdoMapping} (h : List.Forall₂ (Supplies od) items ms) :
    itemBits items = (ms.map (·.bitLength.toNat)).sum := by
  induction h with
  | nil => rfl
  | cons hm _ ih => rw [itemBits_cons, List.map_cons, List.sum_cons, ih, hm.1]

/-- A transmit PDO whose entries are eligible and fit builds its frame. -/
theorem buildPdoFrame_isSome (h : od.Typed d) {ms : List UInt32}
    (helig : ∀ m ∈ ms, Eligible od.lookup .tpdo m) (hfits : ∀ m ∈ ms, Fits od.lookup m)
    (hbits : mappedBits ms ≤ 64) {slot : TpdoSlot}
    (hslot : slot.config.mappings = ms.map PdoMapping.fromMappingValue)
    (hcob : slot.config.cobId ≤ 0x7FF)
    (f : Option (OdFields → UInt16 → UInt8 → List UInt8 → Except OdError Unit)) :
    (slot.buildPdoFrame (⟨od, f⟩ : GeneratedOd)).isSome = true := by
  obtain ⟨items, hitems⟩ : ∃ items, List.Forall₂ (Supplies (⟨od, f⟩ : GeneratedOd)) items
      slot.config.mappings := by
    apply exists_forall₂
    rw [hslot]
    intro b hb
    obtain ⟨m, hm, rfl⟩ := List.mem_map.mp hb
    exact exists_supplies h (helig m hm) (hfits m hm) f
  have hfit : itemBits items ≤ 64 := by
    rw [itemBits_supplies hitems, hslot, sum_activeMappings]
    exact hbits
  obtain ⟨frame, hframe, -⟩ := buildPdoFrame_spec hitems hfit hcob
  rw [hframe]
  rfl

/-! ## Receiving -/

variable {cap : ℕ}

theorem writeObject_writes (s : RpdoState GeneratedOd cap) (m : PdoMapping) (data : List UInt8) :
    (s.writeObject m data).writes = s.writes ++
      [⟨m.index, m.subindex, data, (s.od.fields.write m.index m.subindex data).1.isOk⟩] := by
  unfold RpdoState.writeObject
  dsimp only
  split_ifs <;> rfl

/-- The write of a mapped object was accepted with the object's width. -/
def WrittenWhole (od : OdFields) (w : OdWrite) : Prop :=
  w.accepted = true ∧ ∃ info, od.lookup w.index w.subindex = some info ∧
    info.pdoMappable = true ∧ info.dataType.size = some w.data.length

theorem WrittenWhole.congr {od' : OdFields} (h : od.Typed d) (h' : od'.Typed d) {w : OdWrite}
    (hw : WrittenWhole od w) : WrittenWhole od' w := by
  obtain ⟨haccepted, info, hl, hmap, hs⟩ := hw
  refine ⟨haccepted, info, ?_, hmap, hs⟩
  rw [lookup_mappable hmap] at hl ⊢
  rw [h'.cell_info, ← h.cell_info, hl]

/-- A receive PDO whose entries are eligible and fit writes each object as a whole. -/
theorem applyMapped_writes {ms : List UInt32} {data : List UInt8} {off : ℕ}
    {s : RpdoState GeneratedOd cap} (h : s.od.fields.Typed d)
    (helig : ∀ m ∈ ms, Eligible s.od.fields.lookup .rpdo m)
    (hfits : ∀ m ∈ ms, Fits s.od.fields.lookup m)
    (hlen : off + mappedBits ms ≤ 8 * data.length) (hdata : data.length ≤ 8) :
    ∃ ws, (applyMapped data (ms.map PdoMapping.fromMappingValue) off s).writes = s.writes ++ ws ∧
      ws.map (fun w => (w.index, w.subindex)) =
        mappedAddresses (ms.map PdoMapping.fromMappingValue) ∧
      ∀ w ∈ ws, WrittenWhole s.od.fields w := by
  induction ms generalizing off s with
  | nil => exact ⟨[], (List.append_nil _).symm, rfl, by simp⟩
  | cons m ms ih =>
    have hbits : mappedBits (m :: ms) = (PdoMapping.fromMappingValue m).bitLength.toNat + mappedBits ms := by
      rw [bitLength_fromMappingValue]
      simp [mappedBits]
    have hsmall : bytesForBits (PdoMapping.fromMappingValue m).bitLength.toNat ≤ 8 :=
      bytesForBits_le (by omega)
    have hrest : ∀ m ∈ ms, Eligible s.od.fields.lookup .rpdo m ∧ Fits s.od.fields.lookup m :=
      fun m hm => ⟨helig m (List.mem_cons_of_mem _ hm), hfits m (List.mem_cons_of_mem _ hm)⟩
    have htail : off + (PdoMapping.fromMappingValue m).bitLength.toNat + mappedBits ms ≤
        8 * data.length := by omega
    rw [List.map_cons]
    unfold applyMapped
    dsimp only
    rw [if_neg (by omega)]
    by_cases hdummy : isDummyMappingIndex (PdoMapping.fromMappingValue m).index = true
    · obtain ⟨ws, hws, haddrs, hwritten⟩ :=
        ih h (fun m hm => (hrest m hm).1) (fun m hm => (hrest m hm).2) htail
      refine ⟨ws, by rw [if_pos hdummy, hws], ?_, hwritten⟩
      rw [haddrs]
      simp [mappedAddresses, hdummy]
    · obtain ⟨info, hl, hmap, haccess⟩ := (helig m List.mem_cons_self).resolve_left hdummy
      obtain ⟨info', size, hl', hs, hle⟩ := (hfits m List.mem_cons_self).resolve_left hdummy
      cases hl.symm.trans hl'
      rw [← bitLength_fromMappingValue] at hle
      have hlookup : ObjectDictionary.lookup s.od (PdoMapping.fromMappingValue m).index
          (PdoMapping.fromMappingValue m).subindex = some info := hl
      obtain ⟨hwidth, -⟩ := rpdoObjectData_spec hlookup hs (DataType.size_le hs) hle
        (by omega : off + _ ≤ 8 * data.length)
      have hok : (s.od.fields.write (PdoMapping.fromMappingValue m).index
          (PdoMapping.fromMappingValue m).subindex
          (rpdoObjectData s.od (PdoMapping.fromMappingValue m) data off)).1 = .ok () :=
        write_mapped_ok hl hmap haccess hs hwidth
      have htyped : (s.writeObject (PdoMapping.fromMappingValue m) (rpdoObjectData s.od
          (PdoMapping.fromMappingValue m) data off)).od.fields.Typed d := by
        rw [writeObject_fields]
        exact h.write _ _ _
      obtain ⟨ws, hws, haddrs, hwritten⟩ := ih htyped
        (fun m hm => (hrest m hm).1.congr h htyped)
        (fun m hm => (hrest m hm).2.congr h htyped (hrest m hm).1) htail
      refine ⟨⟨(PdoMapping.fromMappingValue m).index, (PdoMapping.fromMappingValue m).subindex,
        rpdoObjectData s.od (PdoMapping.fromMappingValue m) data off, true⟩ :: ws, ?_, ?_, ?_⟩
      · rw [if_neg hdummy, hws, writeObject_writes, hok, List.append_assoc, List.singleton_append]
        rfl
      · rw [List.map_cons, haddrs]
        simp [mappedAddresses, hdummy]
      · intro w hw
        rcases List.mem_cons.mp hw with rfl | hw
        · exact ⟨rfl, info, hl, hmap, by rw [hs, hwidth]⟩
        · exact (hwritten w hw).congr htyped h

end Engines

/-- Where every entry declared or activated fits its object, every active mapping can be used:
a transmit PDO builds its frame, and a receive PDO writes every object it maps as a whole. -/
theorem accepted_mappings_are_usable {d : OdDefinition} (hd : d.validate = true) {od : OdFields}
    (h : FittingRun d od) {p : PdoRecord} (hp : p ∈ od.pdos) :
    (∀ m ∈ p.active, Fits od.lookup m) ∧
    (p.decl.direction = .tpdo → ∀ (slot : TpdoSlot) f, slot.config.mappings = p.activeMappings →
      slot.config.cobId ≤ 0x7FF → (slot.buildPdoFrame (⟨od, f⟩ : GeneratedOd)).isSome = true) ∧
    (p.decl.direction = .rpdo → ∀ (cap : ℕ) (s : RpdoState GeneratedOd cap) (data : List UInt8),
      s.od.fields = od → mappedBits p.active ≤ 8 * data.length → data.length ≤ 8 →
      ∃ ws, (applyMapped data p.activeMappings 0 s).writes = s.writes ++ ws ∧
        ws.map (fun w => (w.index, w.subindex)) = mappedAddresses p.activeMappings ∧
        ∀ w ∈ ws, WrittenWhole od w) := by
  have hvalid := OdDefinition.valid hd
  have htyped := h.of.typed hvalid
  have hwell := h.of.wellMapped hvalid p hp
  have hfits := h.fits hvalid p hp
  refine ⟨hfits, ?_, ?_⟩
  · intro hdir slot f hslot hcob
    have helig := hwell.eligible
    rw [hdir] at helig
    exact buildPdoFrame_isSome htyped helig hfits hwell.bits hslot hcob f
  · rintro hdir cap s data rfl hlen hdata
    have helig := hwell.eligible
    rw [hdir] at helig
    exact applyMapped_writes htyped helig hfits ((Nat.zero_add _).trans_le hlen) hdata

/-- Mapping the word into TPDO 1 is such a run. -/
theorem accepted_mappings_are_usable_remapped :
    FittingRun remappableDefinition (remappedOd 0x20010010) ∧
      ∀ p ∈ (remappedOd 0x20010010).pdos, ∀ m ∈ p.active, Fits (remappedOd 0x20010010).lookup m := by
  have hbyte : Fits (OdFields.new remappableDefinition).lookup 0x20000008 :=
    .inr ⟨⟨0x2000, 0, .u8, .rw, true⟩, 1, by decide, rfl, by decide⟩
  have hrun : FittingRun remappableDefinition (remappedOd 0x20010010) := by
    refine .write (.write (.write (.new ?_) 0x1A00 0 [0] ?_) 0x1A00 1 (leBytes32 0x20010010) ?_)
      0x1A00 0 [1] ?_
    · have hdeclared : remappableDefinition.pdos.all (·.mappings.all (· == 0x20000008)) = true := by
        decide
      intro p hp m hm
      have hm := List.all_eq_true.mp (List.all_eq_true.mp hdeclared p hp) m hm
      rw [beq_iff_eq.mp hm]
      exact hbyte
    · intro p _ _ _ _ _ _ activated _ _ m hm
      simp [activated] at hm
    · intro p _ _ hsub
      cases hsub
    · have hactivated : ∀ p ∈ ((((OdFields.new remappableDefinition).write 0x1A00 0 [0]).2.write
          0x1A00 1 (leBytes32 0x20010010)).2).pdos, 0x1A00 = p.decl.mapIdx →
          p.mappings.cells.take 1 = [0x20010010] := by decide
      intro p hp hindex _ _ _ _ activated _ _ m hm
      have hlist : activated = [0x20010010] := hactivated p hp hindex
      rw [hlist, List.mem_singleton] at hm
      subst hm
      exact .inr ⟨⟨0x2001, 0, .u16, .rw, true⟩, 2, by decide, rfl, by decide⟩
  exact ⟨hrun, fun p hp => (accepted_mappings_are_usable (by decide) hrun hp).1⟩

/-- A device accepts a mapping of sixteen bits of its byte into TPDO 1, and from then on TPDO 1
cannot be transmitted. -/
theorem over_wide_mapping_accepted :
    remappableDefinition.validate = true ∧
      OdFields.Of remappableDefinition (remappedOd 0x20000010) ∧
      ∃ p ∈ (remappedOd 0x20000010).pdos, p.decl.direction = .tpdo ∧ p.mappingCount = 1 ∧
        p.active = [0x20000010] ∧
        (TpdoSlot.new (p.tpdoConfig sampleNode)).buildPdoFrame
          (⟨remappedOd 0x20000010, none⟩ : GeneratedOd) = none := by
  exact ⟨by decide, remappedOd_of 0x20000010, by decide⟩

end Canopen.Derive
