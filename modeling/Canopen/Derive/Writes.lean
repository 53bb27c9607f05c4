import Canopen.Derive.GeneratedOd

/-!
# Writes to a generated dictionary

A write changes the object at its own address and no other, and an accepted write
of a COB-ID can be read back. The declarations never change.
-/

namespace Canopen.Derive

open LittleEndian Pdo

/-! ## Updating the first owner -/

section UpdateFirst

variable {α β : Type} {owns : α → Bool} {f : α → Except OdError α} {l l' : List α}

/-- An update splits the list at the first owner. -/
theorem updateFirst_ok (h : updateFirst owns f l = some (.ok l')) :
    ∃ l₁ a a' l₂, l = l₁ ++ a :: l₂ ∧ l' = l₁ ++ a' :: l₂ ∧ (∀ b ∈ l₁, owns b = false) ∧
      owns a = true ∧ f a = .ok a' := by
  induction l generalizing l' with
  | nil => cases h
  | cons a l ih =>
    unfold updateFirst at h
    split_ifs at h with ha
    · cases hf : f a with
      | error e => simp [hf, Except.map] at h
      | ok a' =>
        simp only [hf, Except.map, Option.some.injEq, Except.ok.injEq] at h
        exact ⟨[], a, a', l, rfl, h.symm, by simp, ha, hf⟩
    · obtain ⟨r, hr, hmap⟩ := Option.map_eq_some_iff.mp h
      cases r with
      | error e => simp [Except.map] at hmap
      | ok l₀ =>
        simp only [Except.map, Except.ok.injEq] at hmap
        obtain ⟨l₁, b, b', l₂, rfl, rfl, hfree, hb, hfb⟩ := ih hr
        refine ⟨a :: l₁, b, b', l₂, rfl, hmap.symm, ?_, hb, hfb⟩
        intro c hc
        rcases List.mem_cons.mp hc with rfl | hc
        · simpa using ha
        · exact hfree c hc

theorem updateFirst_findSome? (g : α → Option β)
    (hg : ∀ a a', owns a = true → f a = .ok a' → g a' = g a)
    (h : updateFirst owns f l = some (.ok l')) : l'.findSome? g = l.findSome? g := by
  obtain ⟨l₁, a, a', l₂, rfl, rfl, -, ha, hf⟩ := updateFirst_ok h
  simp [List.findSome?_cons, hg a a' ha hf]

theorem updateFirst_map (g : α → β) (hg : ∀ a a', f a = .ok a' → g a' = g a)
    (h : updateFirst owns f l = some (.ok l')) : l'.map g = l.map g := by
  obtain ⟨l₁, a, a', l₂, rfl, rfl, -, -, hf⟩ := updateFirst_ok h
  simp [hg a a' hf]

theorem updateFirst_none (h : ∀ a ∈ l, owns a = false) : updateFirst owns f l = none := by
  induction l with
  | nil => rfl
  | cons a l ih =>
    unfold updateFirst
    rw [h a List.mem_cons_self, ih fun b hb => h b (List.mem_cons_of_mem a hb)]
    rfl

theorem updateFirst_eq_none (h : updateFirst owns f l = none) : ∀ a ∈ l, owns a = false := by
  induction l with
  | nil => simp
  | cons a l ih =>
    unfold updateFirst at h
    split_ifs at h with ha
    intro b hb
    rcases List.mem_cons.mp hb with rfl | hb
    · simpa using ha
    · exact ih (Option.map_eq_none_iff.mp h) b hb

/-- A refusal is an owner's. -/
theorem updateFirst_error {e : OdError} (h : updateFirst owns f l = some (.error e)) :
    ∃ a ∈ l, owns a = true ∧ f a = .error e := by
  induction l with
  | nil => cases h
  | cons a l ih =>
    unfold updateFirst at h
    split_ifs at h with ha
    · cases hf : f a with
      | error e' =>
        simp only [hf, Except.map, Option.some.injEq, Except.error.injEq] at h
        exact ⟨a, List.mem_cons_self, ha, by rw [hf, h]⟩
      | ok a' => simp [hf, Except.map] at h
    · obtain ⟨r, hr, hmap⟩ := Option.map_eq_some_iff.mp h
      cases r with
      | error e' =>
        simp only [Except.map, Except.error.injEq] at hmap
        obtain ⟨b, hb, howns, hfb⟩ := ih (by rw [hr, hmap])
        exact ⟨b, List.mem_cons_of_mem a hb, howns, hfb⟩
      | ok l₀ => simp [Except.map] at hmap

/-- An update that every owner takes succeeds. -/
theorem updateFirst_isOk (hf : ∀ a ∈ l, owns a = true → ∃ a', f a = .ok a')
    (h : ∃ a ∈ l, owns a = true) : ∃ l', updateFirst owns f l = some (.ok l') := by
  induction l with
  | nil => simp at h
  | cons a l ih =>
    unfold updateFirst
    by_cases ha : owns a = true
    · obtain ⟨a', ha'⟩ := hf a List.mem_cons_self ha
      exact ⟨a' :: l, by simp [ha, ha', Except.map]⟩
    · obtain ⟨b, hb, hob⟩ := h
      have hmem : b ∈ l := by
        rcases List.mem_cons.mp hb with rfl | hb
        · exact absurd hob ha
        · exact hb
      obtain ⟨l', hl'⟩ := ih (fun c hc => hf c (List.mem_cons_of_mem a hc)) ⟨b, hmem, hob⟩
      exact ⟨a :: l', by simp [ha, hl', Except.map]⟩

end UpdateFirst

/-! ## Records and cells -/

/-- The value has the type of its object: the width of a fixed-size type, 0 or 1 for a
boolean, at most the capacity otherwise. -/
def Cell.Typed (c : Cell) : Prop :=
  match c.info.dataType.size with
  | some size =>
    c.value.length = size ∧ (c.info.dataType = .boolean → c.value = [0] ∨ c.value = [1])
  | none => ∀ cap, c.capacity = some cap → c.value.length ≤ cap

/-- What a cell keeps of written data: every byte, but only the truth of a boolean. -/
def storedValue (dataType : DataType) (data : List UInt8) : List UInt8 :=
  if dataType = .boolean then [if data.getD 0 0 != 0 then 1 else 0] else data

/-- An accepted write to a declared object. -/
structure Cell.Written (c : Cell) (data : List UInt8) (c' : Cell) : Prop where
  writable : c.info.access ≠ .ro ∧ c.info.access ≠ .const
  width : ∀ size, c.info.dataType.size = some size → data.length = size
  info : c'.info = c.info
  capacity : c'.capacity = c.capacity
  value : c'.value = storedValue c.info.dataType data
  typed : c'.Typed

theorem cell_written {c c' : Cell} {data : List UInt8} (h : c.write data = .ok c') :
    c.Written data c' := by
  unfold Cell.write at h
  split at h
  · cases h
  rename_i haccess
  cases hs : c.info.dataType.size with
  | some size =>
    simp only [hs] at h
    split at h
    · cases h
    rename_i hlen
    split at h
    · rename_i hbool
      cases h
      have hsize : size = 1 := by
        rw [hbool] at hs
        exact (Option.some.inj hs).symm
      refine ⟨not_or.mp haccess, ?_, rfl, rfl, (if_pos hbool).symm, ?_⟩
      · intro size' hsize'
        cases hs.symm.trans hsize'
        exact not_not.mp hlen
      · simp only [Cell.Typed, hs, hsize, List.length_singleton, true_and]
        intro _
        cases data.getD 0 0 != 0 <;> simp
    · rename_i hbool
      cases h
      refine ⟨not_or.mp haccess, ?_, rfl, rfl, (if_neg hbool).symm, ?_⟩
      · intro size' hsize'
        cases hs.symm.trans hsize'
        exact not_not.mp hlen
      · simp only [Cell.Typed, hs]
        exact ⟨not_not.mp hlen, fun h => absurd h hbool⟩
  | none =>
    simp only [hs] at h
    split_ifs at h with hutf hcapacity
    cases h
    have hbool : c.info.dataType ≠ .boolean := by
      intro hbool
      rw [hbool] at hs
      cases hs
    refine ⟨not_or.mp haccess, ?_, rfl, rfl, (if_neg hbool).symm, ?_⟩
    · intro size hsize
      cases hs.symm.trans hsize
    · simp only [Cell.Typed, hs]
      intro cap hcap
      rw [hcap] at hcapacity
      simpa using hcapacity

section Record

variable {lookup : UInt16 → UInt8 → Option OdEntryMeta} {p p' : PdoRecord} {index : UInt16}
  {sub : UInt8} {data : List UInt8}

/-- Everything an accepted write to the records of a PDO can do. -/
inductive PdoRecord.Written (lookup : UInt16 → UInt8 → Option OdEntryMeta) (p : PdoRecord)
    (index : UInt16) (sub : UInt8) (data : List UInt8) : PdoRecord → Prop
  | cobId (hi : index = p.decl.commIdx) (hsub : sub = 1) (hlen : data.length = 4) :
    Written lookup p index sub data { p with cobId := word32 data }
  | transmissionType (hi : index = p.decl.commIdx) (hsub : sub = 2) (hlen : data.length = 1) :
    Written lookup p index sub data { p with transmissionType := data.getD 0 0 }
  | inhibitTime (hi : index = p.decl.commIdx) (hsub : sub = 3) (hlen : data.length = 2) :
    Written lookup p index sub data { p with inhibitTime := word16 data }
  | eventTimer (hi : index = p.decl.commIdx) (hsub : sub ≠ 0 ∧ sub ≠ 1 ∧ sub ≠ 2 ∧ sub ≠ 3)
    (hlen : data.length = 2) : Written lookup p index sub data { p with eventTimer := word16 data }
  | count (hi : index ≠ p.decl.commIdx) (hmutable : p.decl.isMutable = true) (hsub : sub = 0)
    (hlen : data.length = 1) (hmax : (data.getD 0 0).toNat ≤ pdoMaxMappings)
    (heligible : ∀ m ∈ p.mappings.cells.take (data.getD 0 0).toNat,
      validateMappingTarget lookup m (p.decl.direction == .rpdo) = .ok ())
    (hbits : mappedBits (p.mappings.cells.take (data.getD 0 0).toNat) ≤ pdoMaxPayloadBits) :
    Written lookup p index sub data { p with mappingCount := data.getD 0 0 }
  | entry (hi : index ≠ p.decl.commIdx) (hmutable : p.decl.isMutable = true) (hsub : sub ≠ 0)
    (hlen : data.length = 4) (hcount : p.mappingCount = 0) :
    Written lookup p index sub data
      { p with mappings := p.mappings.write (sub.toNat - 1) [word32 data] }

theorem forM_ok {α : Type} {f : α → Except OdError Unit} {l : List α} (h : l.forM f = .ok ()) :
    ∀ a ∈ l, f a = .ok () := by
  induction l with
  | nil => simp
  | cons b l ih =>
    cases hb : f b with
    | error e => simp [List.forM, hb, bind, Except.bind] at h
    | ok u =>
      simp only [List.forM, hb, bind, Except.bind] at h
      intro a ha
      rcases List.mem_cons.mp ha with rfl | ha
      · exact hb
      · exact ih h a ha

theorem writeCount_written (hi : index ≠ p.decl.commIdx) (h : p.writeCount lookup data = .ok p') :
    p.Written lookup index 0 data p' := by
  unfold PdoRecord.writeCount at h
  dsimp only at h
  split at h
  · cases h
  rename_i hmutable
  split at h
  · cases h
  rename_i hlen
  split at h
  · cases h
  rename_i hmax
  simp only [bind, Except.bind] at h
  split at h
  · cases h
  rename_i u hforM
  split at h
  · cases h
  rename_i hbits
  cases h
  exact .count hi (by simpa using hmutable) rfl (by simpa using hlen) (Nat.le_of_not_lt hmax)
    (forM_ok hforM) (Nat.le_of_not_lt hbits)

theorem pdoRecord_written (h : p.write lookup index sub data = .ok p') :
    p.Written lookup index sub data p' := by
  unfold PdoRecord.write at h
  split_ifs at h with hc h0 h1 hl h2 hl hu hl h3 h0
  · cases h
    exact .cobId hc h1 (by simpa using hl)
  · cases h
    exact .transmissionType hc h2 (by simpa using hl)
  · cases h
    exact .inhibitTime hc h3 (by simpa using hl)
  · cases h
    exact .eventTimer hc ⟨h0, h1, h2, h3⟩ (by simpa using hl)
  · rw [h0]
    exact writeCount_written hc h
  · unfold PdoRecord.writeMapping at h
    split_ifs at h with hm hcount hl hb
    cases h
    exact .entry hc (by simpa using hm) h0 (by simpa using hl) (by simpa using hcount)

theorem pdoRecord_write_decl (h : p.write lookup index sub data = .ok p') : p'.decl = p.decl := by
  cases pdoRecord_written h <;> rfl

theorem pdoRecord_object_write_ne (howns : (p.object index sub).isSome = true)
    (h : p.write lookup index sub data = .ok p') {index' : UInt16} {sub' : UInt8}
    (hne : (index', sub') ≠ (index, sub)) : p'.object index' sub' = p.object index' sub' := by
  cases pdoRecord_written h with
  | cobId hi hsub hlen =>
    simp only [PdoRecord.object, PdoRecord.mapAccess, PdoRecord.maxMapSub]
    grind
  | transmissionType hi hsub hlen =>
    simp only [PdoRecord.object, PdoRecord.mapAccess, PdoRecord.maxMapSub]
    grind
  | inhibitTime hi hsub hlen =>
    simp only [PdoRecord.object, PdoRecord.mapAccess, PdoRecord.maxMapSub]
    grind
  | eventTimer hi hsub hlen =>
    -- only sub-index 5 is left on this side
    obtain ⟨h0, h1, h2, h3⟩ := hsub
    have h5 : sub = 5 := by
      by_contra h5
      simp [PdoRecord.object, hi, h0, h1, h2, h3, h5] at howns
    simp only [PdoRecord.object, PdoRecord.mapAccess, PdoRecord.maxMapSub]
    grind
  | count hi hmutable hsub =>
    have hmap : index = p.decl.mapIdx := by
      by_contra hmap
      simp [PdoRecord.object, hi, hmap] at howns
    simp only [PdoRecord.object, PdoRecord.mapAccess, PdoRecord.maxMapSub]
    grind
  | entry hi hmutable h0 =>
    have hmap : index = p.decl.mapIdx := by
      by_contra hmap
      simp [PdoRecord.object, hi, hmap] at howns
    have hmappings (hi' : index' = p.decl.mapIdx) (h0' : sub' ≠ 0) :
        (p.mappings.write (sub.toNat - 1) [word32 data]).cells.getD (sub'.toNat - 1) 0 =
          p.mappings.cells.getD (sub'.toNat - 1) 0 := by
      have hsub : sub'.toNat ≠ sub.toNat := by
        rw [Ne, UInt8.toNat_inj]
        rintro rfl
        exact hne (by rw [hi', hmap])
      have hpos : sub.toNat ≠ 0 ∧ sub'.toNat ≠ 0 := by
        constructor
        · exact fun h => h0 (UInt8.toNat_inj.mp h)
        · exact fun h => h0' (UInt8.toNat_inj.mp h)
      rw [FixedBuffer.cells_write_singleton, List.getD_eq_getElem?_getD,
        List.getElem?_set_ne (by omega), List.getD_eq_getElem?_getD]
    simp only [PdoRecord.object, PdoRecord.mapAccess, PdoRecord.maxMapSub]
    by_cases hentry : index' = p.decl.mapIdx ∧ sub' ≠ 0
    · rw [hmappings hentry.1 hentry.2]
      rfl
    · grind

end Record

/-! ## The dictionary -/

namespace OdFields

variable {od : OdFields} {index : UInt16} {sub : UInt8} {data : List UInt8}

/-- A write is refused, or updates one cell or one PDO record. -/
theorem write_cases (od : OdFields) (index : UInt16) (sub : UInt8) (data : List UInt8) :
    (∃ e, od.write index sub data = (.error e, od)) ∨
    (∃ cells, updateFirst (fun c => c.info.index == index && c.info.subindex == sub) (·.write data)
        od.cells = some (.ok cells) ∧
      od.write index sub data = (.ok (), { od with cells := cells })) ∨
    ∃ pdos, updateFirst (fun c => c.info.index == index && c.info.subindex == sub) (·.write data)
        od.cells = none ∧
      updateFirst (fun p => (p.object index sub).isSome) (·.write od.lookup index sub data)
        od.pdos = some (.ok pdos) ∧
      od.write index sub data = (.ok (), { od with pdos := pdos }) := by
  unfold write
  split
  · rename_i cells hcells
    exact .inr (.inl ⟨cells, hcells, rfl⟩)
  · exact .inl ⟨_, rfl⟩
  · rename_i hnone
    split
    · rename_i pdos hpdos
      exact .inr (.inr ⟨pdos, hnone, hpdos, rfl⟩)
    · exact .inl ⟨_, rfl⟩
    · left
      split_ifs
      · exact ⟨_, rfl⟩
      · exact ⟨_, rfl⟩

/-- A write leaves the objects at all other addresses as they are. -/
theorem object_write_ne {index' : UInt16} {sub' : UInt8} (hne : (index', sub') ≠ (index, sub)) :
    (od.write index sub data).2.object index' sub' = od.object index' sub' := by
  rcases write_cases od index sub data with ⟨e, h⟩ | ⟨cells, hcells, h⟩ | ⟨pdos, -, hpdos, h⟩
  · rw [h]
  · have hcell : cells.find? (fun c => c.info.index == index' && c.info.subindex == sub') =
        od.cells.find? (fun c => c.info.index == index' && c.info.subindex == sub') := by
      rw [List.find?_eq_findSome?_guard, List.find?_eq_findSome?_guard]
      refine updateFirst_findSome? _ ?_ hcells
      intro c c' howns hw
      have hother : (c.info.index == index' && c.info.subindex == sub') = false := by
        simp only [Bool.and_eq_true, beq_iff_eq] at howns
        rw [Bool.eq_false_iff]
        intro heq
        simp only [Bool.and_eq_true, beq_iff_eq] at heq
        exact hne (by rw [← heq.1, ← heq.2, howns.1, howns.2])
      simp [Option.guard, (cell_written hw).info, hother]
    simp only [h, object, cell, generatedObject, hcell]
  · have hobject : pdos.findSome? (·.object index' sub') = od.pdos.findSome? (·.object index' sub') :=
      updateFirst_findSome? _ (fun p p' howns hw => pdoRecord_object_write_ne howns hw hne) hpdos
    simp only [h, object, cell, generatedObject, hobject]

/-- Mirroring the COB-IDs of the SDO servers concerns their records only. -/
theorem object_storeSdoServerCobIds (node : NodeId)
    (hne : ∀ s ∈ od.sdoServers, index ≠ s.decl.idx) :
    (od.storeSdoServerCobIds node).object index sub = od.object index sub := by
  have hfree (f : SdoServerRecord → SdoServerRecord) (hf : ∀ s, (f s).decl = s.decl) :
      (od.sdoServers.map f).findSome? (·.object index sub) = none := by
    rw [List.findSome?_eq_none_iff]
    intro s hs
    obtain ⟨s', hs', rfl⟩ := List.mem_map.mp hs
    simp [SdoServerRecord.object, hf, hne s' hs']
  have hsame := hfree id fun _ => rfl
  rw [List.map_id] at hsame
  simp only [object, cell, generatedObject, storeSdoServerCobIds, hsame]
  rw [hfree]
  intro s
  rfl

/-- Mirroring the error register concerns 0x1001 only. -/
theorem object_storeErrorRegister (value : UInt8) (hne : index ≠ 0x1001) :
    (od.storeErrorRegister value).object index sub = od.object index sub := by
  have hcell : (od.storeErrorRegister value).cell index sub = od.cell index sub := by
    unfold cell storeErrorRegister
    dsimp only
    induction od.cells with
    | nil => rfl
    | cons c cells ih =>
      rw [List.map_cons, List.find?_cons, List.find?_cons, ih]
      split_ifs with hc
      · have hother : (c.info.index == index && c.info.subindex == sub) = false := by
          simp [hc.1, hne.symm]
        simp only [hother]
      · rfl
  unfold object
  rw [hcell]
  rfl

theorem read_congr {od' : OdFields} (h : od'.object index sub = od.object index sub) {n : ℕ}
    (buf : FixedBuffer UInt8 n) : od'.read index sub buf = od.read index sub buf := by
  simp only [read, h]

end OdFields

/-! ## Dictionaries of a definition -/

/-- What the checks of the macro guarantee. -/
structure OdDefinition.Valid (d : OdDefinition) : Prop where
  entries : (d.entries.map (·.index)).Nodup
  fresh : ∀ e ∈ d.entries, e.index ∉ d.generatedIndices
  typed : ∀ e ∈ d.entries, e.kind.wellTyped = true
  subs : ∀ e ∈ d.entries, ∀ subs, e.kind = .record subs → (subs.map (·.1)).Nodup ∧ ∀ s ∈ subs, s.1 ≠ 0
  pdos : (d.pdos.map fun p => (p.direction, p.number)).Nodup
  numbers : ∀ p ∈ d.pdos, 1 ≤ p.number.toNat ∧ p.number.toNat ≤ 512
  lengths : ∀ p ∈ d.pdos, p.mappings.length ≤ pdoMaxMappings
  resolved : ∀ p ∈ d.pdos, ∀ m ∈ p.mappings, d.resolves p.direction m = true
  bits : ∀ p ∈ d.pdos, mappedBits p.mappings ≤ pdoMaxPayloadBits
  servers : (d.sdoServers.map (·.number)).Nodup
  serverNumbers : ∀ s ∈ d.sdoServers, 2 ≤ s.number.toNat ∧ s.number.toNat ≤ 128

theorem OdDefinition.valid {d : OdDefinition} (hd : d.validate = true) : d.Valid := by
  simp only [OdDefinition.validate, Bool.and_eq_true, List.all_eq_true, decide_eq_true_eq,
    UInt16.le_iff_toNat_le, Bool.not_eq_true', ← Bool.not_eq_true, List.contains_iff_mem] at hd
  obtain ⟨⟨⟨⟨⟨hindices, hentries⟩, hpdos⟩, hpdo⟩, hservers⟩, hserver⟩ := hd
  refine ⟨hindices, fun e he => (hentries e he).1.1, fun e he => (hentries e he).1.2, ?_, hpdos,
    fun p hp => (hpdo p hp).1.1.1, fun p hp => (hpdo p hp).1.1.2, fun p hp => (hpdo p hp).1.2,
    fun p hp => (hpdo p hp).2, hservers, hserver⟩
  intro e he subs hkind
  have hsubs := (hentries e he).2
  simp only [hkind, Bool.and_eq_true, decide_eq_true_eq, List.all_eq_true, bne_iff_ne] at hsubs
  exact hsubs

/-- The dictionaries of a definition: as generated, and after any writes. -/
inductive OdFields.Of (d : OdDefinition) : OdFields → Prop
  | new : OdFields.Of d (OdFields.new d)
  | write {od : OdFields} (h : OdFields.Of d od) (index : UInt16) (sub : UInt8) (data : List UInt8) :
    OdFields.Of d (od.write index sub data).2

/-- The values of the generated struct: its fields as declared, each with a value of its type. -/
structure OdFields.Typed (d : OdDefinition) (od : OdFields) : Prop where
  cells : od.cells.map (fun c => (c.info, c.capacity)) =
    (OdFields.new d).cells.map fun c => (c.info, c.capacity)
  values : ∀ c ∈ od.cells, c.Typed
  pdos : od.pdos.map (·.decl) = d.pdos
  sdoServers : od.sdoServers.map (·.decl) = d.sdoServers

/-- What stays true of a dictionary whatever is written to it. -/
structure OdFields.WellFormed (d : OdDefinition) (od : OdFields) : Prop extends od.Typed d where
  counts : ∀ p ∈ od.pdos, p.mappingCount.toNat ≤ pdoMaxMappings ∧
    (p.decl.isMutable = false → p.mappingCount = UInt8.ofNat p.decl.mappings.length)

section WellFormed

variable {d : OdDefinition} {od : OdFields}

theorem entry_cells_index {e : OdEntry} {c : Cell} (h : c ∈ e.cells) : c.info.index = e.index := by
  unfold OdEntry.cells at h
  split at h
  · rw [List.mem_singleton] at h
    rw [h]
    rfl
  · rcases List.mem_cons.mp h with rfl | h
    · rfl
    · obtain ⟨⟨sub, v⟩, -, rfl⟩ := List.mem_map.mp h
      rfl
  · rcases List.mem_cons.mp h with rfl | h
    · rfl
    · obtain ⟨i, -, rfl⟩ := List.mem_map.mp h
      rfl

theorem OdFields.Typed.cell_index (h : od.Typed d) {c : Cell} (hc : c ∈ od.cells) :
    c.info.index ∈ d.entries.map (·.index) := by
  have hkey : (c.info, c.capacity) ∈ (OdFields.new d).cells.map fun c => (c.info, c.capacity) := by
    rw [← h.cells]
    exact List.mem_map_of_mem hc
  obtain ⟨c', hc', heq⟩ := List.mem_map.mp hkey
  obtain ⟨e, he, hce⟩ := List.mem_flatMap.mp hc'
  rw [← (Prod.mk.inj heq).1, entry_cells_index hce]
  exact List.mem_map_of_mem he

theorem countCell_typed (index : UInt16) (count : UInt8) : (countCell index count).Typed :=
  ⟨rfl, fun h => by cases h⟩

theorem varCell_typed {v : VarDef} (h : v.wellTyped = true) (index : UInt16) (sub : UInt8) :
    (v.cell index sub).Typed := by
  unfold VarDef.wellTyped at h
  unfold Cell.Typed VarDef.cell
  cases hs : v.dataType.size with
  | some size =>
    simp only [hs, Bool.and_eq_true, beq_iff_eq, Bool.or_eq_true, bne_iff_ne] at h ⊢
    refine ⟨h.1, ?_⟩
    intro hbool
    rcases h.2 with (hne | h0) | h1
    · exact absurd hbool hne
    · exact .inl h0
    · exact .inr h1
  | none =>
    simp only [hs, Option.all_eq_true, decide_eq_true_eq] at h ⊢
    exact h

theorem entry_cells_typed {e : OdEntry} (h : e.kind.wellTyped = true) {c : Cell} (hc : c ∈ e.cells) :
    c.Typed := by
  unfold OdEntry.cells at hc
  cases hkind : e.kind with
  | var v =>
    rw [hkind] at h hc
    rw [List.mem_singleton] at hc
    rw [hc]
    exact varCell_typed h e.index 0
  | record subs =>
    rw [hkind] at h hc
    rcases List.mem_cons.mp hc with rfl | hc
    · exact countCell_typed _ _
    · obtain ⟨⟨sub, v⟩, hv, rfl⟩ := List.mem_map.mp hc
      exact varCell_typed (List.all_eq_true.mp h (sub, v) hv) e.index sub
  | array a =>
    rw [hkind] at h hc
    rcases List.mem_cons.mp hc with rfl | hc
    · exact countCell_typed _ _
    · obtain ⟨i, -, rfl⟩ := List.mem_map.mp hc
      obtain ⟨size, hs⟩ := Option.isSome_iff_exists.mp h
      simp only [Cell.Typed, hs, Option.getD_some, List.length_replicate, true_and]
      intro hbool
      rw [hbool] at hs
      cases hs
      exact .inl rfl

theorem typed_new (hd : d.Valid) : (OdFields.new d).Typed d where
  cells := rfl
  values := by
    intro c hc
    obtain ⟨e, he, hc⟩ := List.mem_flatMap.mp hc
    exact entry_cells_typed (hd.typed e he) hc
  pdos := by simp [OdFields.new, Function.comp_def, PdoDef.record]
  sdoServers := by simp [OdFields.new, Function.comp_def]

theorem OdFields.Typed.write (h : od.Typed d) (index : UInt16) (sub : UInt8) (data : List UInt8) :
    (od.write index sub data).2.Typed d := by
  rcases OdFields.write_cases od index sub data with ⟨e, heq⟩ | ⟨cells, hcells, heq⟩ | ⟨pdos, -, hpdos, heq⟩
  · rw [heq]
    exact h
  · rw [heq]
    refine { h with cells := ?_, values := ?_ }
    · rw [← h.cells]
      apply updateFirst_map _ _ hcells
      intro c c' hw
      rw [(cell_written hw).info, (cell_written hw).capacity]
    · obtain ⟨l₁, c, c', l₂, hl, rfl, -, -, hw⟩ := updateFirst_ok hcells
      intro b hb
      rcases List.mem_append.mp hb with hb | hb
      · exact h.values b (by rw [hl]; exact List.mem_append_left _ hb)
      · rcases List.mem_cons.mp hb with rfl | hb
        · exact (cell_written hw).typed
        · exact h.values b (by rw [hl]; exact List.mem_append_right _ (List.mem_cons_of_mem c hb))
  · rw [heq]
    refine { h with pdos := ?_ }
    rw [← h.pdos]
    exact updateFirst_map _ (fun p p' hw => pdoRecord_write_decl hw) hpdos

theorem OdFields.Typed.storeErrorRegister (h : od.Typed d) (value : UInt8) :
    (od.storeErrorRegister value).Typed d := by
  refine { h with cells := ?_, values := ?_ }
  · rw [← h.cells, OdFields.storeErrorRegister, List.map_map]
    apply List.map_congr_left
    intro c _
    simp only [Function.comp_apply]
    split_ifs <;> rfl
  · intro c hc
    obtain ⟨c₀, hc₀, rfl⟩ := List.mem_map.mp hc
    split_ifs with hregister
    · simp [Cell.Typed, hregister.2.2, DataType.size]
    · exact h.values c₀ hc₀

theorem OdFields.Typed.storeSdoServerCobIds (h : od.Typed d) (node : NodeId) :
    (od.storeSdoServerCobIds node).Typed d := by
  refine { h with sdoServers := ?_ }
  rw [← h.sdoServers, OdFields.storeSdoServerCobIds, List.map_map]
  rfl

theorem wellFormed_new (hd : d.Valid) : (OdFields.new d).WellFormed d where
  toTyped := typed_new hd
  counts := by
    intro p hp
    obtain ⟨q, hq, rfl⟩ := List.mem_map.mp hp
    refine ⟨?_, fun _ => rfl⟩
    exact (UInt8.toNat_ofNat' ▸ Nat.mod_le _ _).trans (hd.lengths q hq)

theorem OdFields.WellFormed.write (h : od.WellFormed d) (index : UInt16) (sub : UInt8)
    (data : List UInt8) : (od.write index sub data).2.WellFormed d where
  toTyped := h.toTyped.write index sub data
  counts := by
    rcases OdFields.write_cases od index sub data with ⟨e, heq⟩ | ⟨cells, -, heq⟩ | ⟨pdos, -, hpdos, heq⟩
    · rw [heq]
      exact h.counts
    · rw [heq]
      exact h.counts
    · rw [heq]
      obtain ⟨l₁, p, p', l₂, hl, hl', -, -, hw⟩ := updateFirst_ok hpdos
      intro q hq
      rw [hl'] at hq
      have hold : ∀ r ∈ l₁ ++ p :: l₂, r.mappingCount.toNat ≤ pdoMaxMappings ∧
          (r.decl.isMutable = false → r.mappingCount = UInt8.ofNat r.decl.mappings.length) := by
        rw [← hl]
        exact h.counts
      rcases List.mem_append.mp hq with hq | hq
      · exact hold q (List.mem_append_left _ hq)
      · rcases List.mem_cons.mp hq with rfl | hq
        · have hp := hold p (by simp)
          cases pdoRecord_written hw with
          | count _ hmutable _ _ hmax =>
            exact ⟨hmax, fun hm => absurd (hmutable.symm.trans hm) (by decide)⟩
          | cobId => exact hp
          | transmissionType => exact hp
          | inhibitTime => exact hp
          | eventTimer => exact hp
          | entry => exact hp
        · exact hold q (by simp [hq])

theorem OdFields.Of.wellFormed (hd : d.Valid) (h : OdFields.Of d od) :
    od.WellFormed d := by
  induction h with
  | new => exact wellFormed_new hd
  | write _ index sub data ih => exact ih.write index sub data

/-! ## The records of a PDO -/

theorem commIdx_toNat {p : PdoDef} (h : 1 ≤ p.number.toNat ∧ p.number.toNat ≤ 512) :
    p.commIdx.toNat = p.direction.commBase.toNat + (p.number.toNat - 1) := by
  have hone : (1 : UInt16) ≤ p.number := UInt16.le_iff_toNat_le.mpr h.1
  have hsub : (p.number - 1).toNat = p.number.toNat - 1 := UInt16.toNat_sub_of_le _ _ hone
  unfold PdoDef.commIdx
  rw [UInt16.toNat_add, hsub]
  cases p.direction <;> simp only [PdoDirection.commBase, UInt16.reduceToNat] <;> omega

theorem mapIdx_toNat {p : PdoDef} (h : 1 ≤ p.number.toNat ∧ p.number.toNat ≤ 512) :
    p.mapIdx.toNat = p.direction.mapBase.toNat + (p.number.toNat - 1) := by
  have hone : (1 : UInt16) ≤ p.number := UInt16.le_iff_toNat_le.mpr h.1
  have hsub : (p.number - 1).toNat = p.number.toNat - 1 := UInt16.toNat_sub_of_le _ _ hone
  unfold PdoDef.mapIdx
  rw [UInt16.toNat_add, hsub]
  cases p.direction <;> simp only [PdoDirection.mapBase, UInt16.reduceToNat] <;> omega

/-- An index belongs to the records of one PDO only. -/
theorem pdo_owner_unique {p q : PdoDef} (hp : 1 ≤ p.number.toNat ∧ p.number.toNat ≤ 512)
    (hq : 1 ≤ q.number.toNat ∧ q.number.toNat ≤ 512) {index : UInt16}
    (hpi : index = p.commIdx ∨ index = p.mapIdx) (hqi : index = q.commIdx ∨ index = q.mapIdx) :
    p.direction = q.direction ∧ p.number = q.number ∧
      (index = p.commIdx ↔ index = q.commIdx) := by
  have hpc := commIdx_toNat hp
  have hpm := mapIdx_toNat hp
  have hqc := commIdx_toNat hq
  have hqm := mapIdx_toNat hq
  simp only [← UInt16.toNat_inj] at hpi hqi ⊢
  cases hdp : p.direction <;> cases hdq : q.direction <;>
    simp only [hdp, hdq, PdoDirection.commBase, PdoDirection.mapBase, UInt16.reduceToNat]
      at hpc hpm hqc hqm <;>
    refine ⟨?_, ?_, ?_⟩ <;> first | rfl | omega

theorem object_index {p : PdoRecord} {index : UInt16} {sub : UInt8}
    (h : (p.object index sub).isSome = true) : index = p.decl.commIdx ∨ index = p.decl.mapIdx := by
  by_contra hne
  rw [not_or] at hne
  simp [PdoRecord.object, hne.1, hne.2] at h

theorem cell_none (hwf : od.Typed d) (hd : d.Valid) {p : PdoDef} (hp : p ∈ d.pdos)
    {index : UInt16} (hi : index = p.commIdx ∨ index = p.mapIdx) (sub : UInt8) :
    od.cell index sub = none := by
  unfold OdFields.cell
  rw [List.find?_eq_none]
  intro c hc hmatch
  simp only [Bool.and_eq_true, beq_iff_eq] at hmatch
  obtain ⟨e, he, hindex⟩ := List.mem_map.mp (hwf.cell_index hc)
  apply hd.fresh e he
  rw [hindex, hmatch.1]
  refine List.mem_append_left _ (List.mem_append_right _ (List.mem_flatMap.mpr ⟨p, hp, ?_⟩))
  simpa using hi

/-- The dictionary serves the objects of a PDO record as the record has them. -/
def OdFields.Presents (od : OdFields) (p : PdoRecord) : Prop :=
  ∀ index sub o, p.object index sub = some o → od.object index sub = some o.2

theorem presents_of_mem (hwf : od.WellFormed d) (hd : d.Valid) {p : PdoRecord}
    (hp : p ∈ od.pdos) : od.Presents p := by
  intro index sub o ho
  have hdecl {q : PdoRecord} (hq : q ∈ od.pdos) : q.decl ∈ d.pdos := by
    rw [← hwf.pdos]
    exact List.mem_map_of_mem hq
  have hindex := object_index (by rw [ho]; rfl)
  have hnodup : (od.pdos.map fun q => (q.decl.direction, q.decl.number)).Nodup := by
    have hkeys := hd.pdos
    rw [← hwf.pdos, List.map_map] at hkeys
    exact hkeys
  have hfound : od.pdos.findSome? (·.object index sub) = some o := by
    cases hf : od.pdos.findSome? (·.object index sub) with
    | none =>
      have := List.findSome?_eq_none_iff.mp hf p hp
      rw [ho] at this
      cases this
    | some o' =>
      obtain ⟨q, hq, hqo⟩ := List.exists_of_findSome?_eq_some hf
      obtain ⟨hdir, hnumber, -⟩ := pdo_owner_unique (hd.numbers _ (hdecl hp))
        (hd.numbers _ (hdecl hq)) hindex (object_index (by rw [hqo]; rfl))
      have heq : p = q := List.inj_on_of_nodup_map hnodup hp hq (by rw [hdir, hnumber])
      rw [← hqo, ← heq, ho]
  simp only [OdFields.object, cell_none hwf.toTyped hd (hdecl hp) hindex sub, OdFields.generatedObject, hfound,
    Option.orElse_eq_orElse, Option.orElse_some, Option.map_some]

/-- The COB-ID of a PDO can be written, and is read back as written. -/
theorem object_write_cob (hwf : od.WellFormed d) (hd : d.Valid) {p : PdoDef}
    (hp : p ∈ d.pdos) (raw : UInt32) :
    (od.write p.commIdx 1 (leBytes32 raw)).2.object p.commIdx 1 = some (.rw, leBytes32 raw) := by
  have hcell := cell_none hwf.toTyped hd hp (.inl rfl) 1
  have hcells : updateFirst (fun c => c.info.index == p.commIdx && c.info.subindex == 1)
      (·.write (leBytes32 raw)) od.cells = none := by
    apply updateFirst_none
    intro c hc
    simpa using List.find?_eq_none.mp hcell c hc
  have howner {q : PdoRecord} (hq : q ∈ od.pdos) (ho : (q.object p.commIdx 1).isSome = true) :
      p.commIdx = q.decl.commIdx := by
    have hqd : q.decl ∈ d.pdos := by
      rw [← hwf.pdos]
      exact List.mem_map_of_mem hq
    exact (pdo_owner_unique (hd.numbers _ hp) (hd.numbers _ hqd) (.inl rfl)
      (object_index ho)).2.2.mp rfl
  obtain ⟨pdos, hpdos⟩ : ∃ pdos, updateFirst (fun q : PdoRecord => (q.object p.commIdx 1).isSome)
      (·.write od.lookup p.commIdx 1 (leBytes32 raw)) od.pdos = some (.ok pdos) := by
    apply updateFirst_isOk
    · intro q hq ho
      exact ⟨{ q with cobId := raw }, by simp [PdoRecord.write, howner hq ho]⟩
    · rw [← hwf.pdos] at hp
      obtain ⟨q, hq, rfl⟩ := List.mem_map.mp hp
      exact ⟨q, hq, by simp [PdoRecord.object]⟩
  obtain ⟨l₁, q, q', l₂, hl, rfl, hfree, ho, hw⟩ := updateFirst_ok hpdos
  have hq : p.commIdx = q.decl.commIdx := howner (by rw [hl]; simp) ho
  have hq' : q' = { q with cobId := raw } := by
    simpa [PdoRecord.write, hq, eq_comm] using hw
  have hnone : l₁.findSome? (·.object p.commIdx 1) = none := by
    rw [List.findSome?_eq_none_iff]
    intro r hr
    simpa using hfree r hr
  have hobject : q'.object p.commIdx 1 = some (.u32, .rw, leBytes32 raw) := by
    simp [PdoRecord.object, hq', hq]
  simp only [OdFields.write, hcells, hpdos, OdFields.object, OdFields.generatedObject,
    List.findSome?_append, hnone, List.findSome?_cons, hobject]
  unfold OdFields.cell at hcell ⊢
  rw [hcell]
  rfl

/-- A record whose COB-ID is rewritten is served with the new COB-ID. -/
theorem OdFields.Presents.with_cob {od' : OdFields} {p : PdoRecord} (h : od.Presents p) (raw : UInt32)
    (hcob : od'.object p.decl.commIdx 1 = some (.rw, leBytes32 raw))
    (hsame : ∀ index sub, (p.object index sub).isSome = true → (index, sub) ≠ (p.decl.commIdx, 1) →
      od'.object index sub = od.object index sub) : od'.Presents { p with cobId := raw } := by
  intro index sub o ho
  by_cases haddr : (index, sub) = (p.decl.commIdx, 1)
  · obtain ⟨rfl, rfl⟩ := Prod.mk.inj haddr
    have hval : o = (.u32, .rw, leBytes32 raw) := by simpa [PdoRecord.object, eq_comm] using ho
    rw [hcob, hval]
  · have hold : p.object index sub = some o := by
      rw [← ho]
      simp only [PdoRecord.object, PdoRecord.mapAccess, PdoRecord.maxMapSub]
      grind
    rw [hsame index sub (by rw [hold]; rfl) haddr, h index sub o hold]

end WellFormed
end Canopen.Derive
