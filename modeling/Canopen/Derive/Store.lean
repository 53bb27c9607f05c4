import Canopen.Derive.Writes

/-!
# Generated dictionaries as stores

An accepted write is read back, every other address reads as before, and a refused
write changes nothing. The generated `read` copies fixed-size values without looking
at the buffer; its first lines keep a short buffer away from them.
-/

namespace Canopen.Derive

open LittleEndian Pdo

/-! ## Reading as generated -/

/-- The arm for an address, `none` where the generated code would index past the buffer. -/
def OdFields.readArm (od : OdFields) (index : UInt16) (sub : UInt8) {n : ℕ}
    (buf : FixedBuffer UInt8 n) : Option (Except OdError ℕ × FixedBuffer UInt8 n) :=
  match od.lookup index sub, od.object index sub with
  | some info, some (_, value) =>
    if info.access = .wo then some (.error .writeOnly, buf)
    else
      match info.dataType.size with
      | some size => if size ≤ n then some (.ok size, buf.write 0 value) else none
      | none =>
        if n < value.length then some (.error .valueTooLong, buf)
        else some (.ok value.length, buf.write 0 value)
  | _, _ => some (.error .notFound, buf)

/-- The generated `read`. Buffers of eight bytes and more skip the lookup. -/
def OdFields.readGenerated (od : OdFields) (index : UInt16) (sub : UInt8) {n : ℕ}
    (buf : FixedBuffer UInt8 n) : Option (Except OdError ℕ × FixedBuffer UInt8 n) :=
  if n < 8 ∧ (od.lookup index sub).any (fun info =>
      info.access != .wo && info.dataType.size.any (n < ·)) = true then
    some (.error .valueTooLong, buf)
  else od.readArm index sub buf

theorem DataType.size_le {t : DataType} {size : ℕ} (h : t.size = some size) : size ≤ 8 := by
  cases t <;> cases h <;> decide

/-! ## Objects and their types -/

section Objects

variable {d : OdDefinition} {od : OdFields} {index : UInt16} {sub : UInt8}

theorem lookup_isSome (od : OdFields) (index : UInt16) (sub : UInt8) :
    (od.lookup index sub).isSome = (od.object index sub).isSome := by
  unfold OdFields.lookup OdFields.object
  cases od.cell index sub with
  | some c => rfl
  | none => simp

theorem pdoRecord_object_width {p : PdoRecord} {t : DataType} {access : AccessType}
    {value : List UInt8} (h : p.object index sub = some (t, access, value)) :
    t.size = some value.length := by
  unfold PdoRecord.object at h
  split_ifs at h <;> cases h <;> rfl

theorem sdoServer_object_width {s : SdoServerRecord} {t : DataType} {access : AccessType}
    {value : List UInt8} (h : s.object index sub = some (t, access, value)) :
    t.size = some value.length := by
  unfold SdoServerRecord.object at h
  split_ifs at h <;> cases h <;> rfl

theorem edsObject_width {eds : List UInt8} {t : DataType} {access : AccessType}
    {value : List UInt8} (h : edsObject eds index sub = some (t, access, value)) {size : ℕ}
    (hs : t.size = some size) : value.length = size := by
  unfold edsObject at h
  split_ifs at h <;> cases h <;> cases hs
  rfl

theorem generatedObject_width {t : DataType} {access : AccessType} {value : List UInt8}
    (h : od.generatedObject index sub = some (t, access, value)) {size : ℕ}
    (hs : t.size = some size) : value.length = size := by
  simp only [OdFields.generatedObject, Option.orElse_eq_orElse, Option.orElse_eq_or,
    Option.or_eq_some_iff] at h
  rcases h with h | ⟨-, h | ⟨-, h⟩⟩
  · obtain ⟨p, -, hp⟩ := List.exists_of_findSome?_eq_some h
    exact Option.some.inj ((pdoRecord_object_width hp).symm.trans hs)
  · obtain ⟨s, -, hs'⟩ := List.exists_of_findSome?_eq_some h
    exact Option.some.inj ((sdoServer_object_width hs').symm.trans hs)
  · exact edsObject_width h hs

/-- The object at an address is the one its metadata describes. -/
theorem OdFields.Typed.object_of_lookup (h : od.Typed d) {info : OdEntryMeta}
    (hl : od.lookup index sub = some info) :
    ∃ value, od.object index sub = some (info.access, value) ∧
      ∀ size, info.dataType.size = some size → value.length = size := by
  unfold OdFields.lookup at hl
  unfold OdFields.object
  cases hc : od.cell index sub with
  | some c =>
    rw [hc] at hl
    cases hl
    refine ⟨c.value, rfl, ?_⟩
    intro size hs
    have htyped := h.values c (List.mem_of_find?_eq_some hc)
    simp only [Cell.Typed, hs] at htyped
    exact htyped.1
  | none =>
    rw [hc] at hl
    obtain ⟨⟨t, access, value⟩, ho, rfl⟩ := Option.map_eq_some_iff.mp hl
    exact ⟨value, by rw [ho]; rfl, fun size hs => generatedObject_width ho hs⟩

/-- The generated `read` indexes no buffer out of bounds and agrees with `read`. -/
theorem OdFields.Typed.readGenerated_eq (h : od.Typed d) {n : ℕ} (buf : FixedBuffer UInt8 n) :
    od.readGenerated index sub buf =
      some ((od.read index sub buf).1.map Subtype.val, (od.read index sub buf).2) := by
  unfold OdFields.readGenerated OdFields.readArm OdFields.read
  cases hl : od.lookup index sub with
  | none =>
    have ho : od.object index sub = none := by
      rw [← Option.not_isSome_iff_eq_none, ← lookup_isSome, hl]
      simp
    simp [ho, Except.map]
  | some info =>
    obtain ⟨value, ho, hwidth⟩ := h.object_of_lookup hl
    simp only [ho, Option.any_some, Bool.and_eq_true, bne_iff_ne]
    by_cases hwo : info.access = .wo
    · simp [hwo, Except.map]
    · cases hs : info.dataType.size with
      | none =>
        simp only [hwo, Option.any_none, Bool.false_eq_true, and_false, ↓reduceIte]
        by_cases hlen : value.length ≤ n
        · rw [if_neg (Nat.not_lt.mpr hlen), dif_pos hlen]
          rfl
        · rw [if_pos (Nat.lt_of_not_le hlen), dif_neg hlen]
          rfl
      | some size =>
        have hvalue := hwidth size hs
        have hsize := DataType.size_le hs
        simp only [hwo, Option.any_some, decide_eq_true_eq, ↓reduceIte, not_false_eq_true, ne_eq,
          true_and]
        by_cases hlen : size ≤ n
        · rw [if_neg (by omega), if_pos hlen, dif_pos (hvalue ▸ hlen)]
          simp [Except.map, hvalue]
        · -- the guard has caught every short buffer
          rw [if_pos ⟨by omega, Nat.lt_of_not_le hlen⟩, dif_neg (hvalue ▸ hlen)]
          rfl

end Objects

/-! ## Writing -/

section Write

variable {od : OdFields} {index : UInt16} {sub : UInt8} {data : List UInt8}

theorem leBytes16_word16 (h : data.length = 2) : leBytes16 (word16 data) = data := by
  match data, h with
  | [a, b], _ => simp [word16, leBytes16_ofLe16]

theorem leBytes32_word32 (h : data.length = 4) : leBytes32 (word32 data) = data := by
  match data, h with
  | [a, b, c, e], _ => simp [word32, leBytes32_ofLe32]

theorem singleton_getD (h : data.length = 1) : [data.getD 0 0] = data := by
  match data, h with
  | [a], _ => rfl

/-- A write to a PDO record is served back at its address. -/
theorem pdoRecord_object_write_self {lookup : UInt16 → UInt8 → Option OdEntryMeta}
    {p p' : PdoRecord} {o : DataType × AccessType × List UInt8} (ho : p.object index sub = some o)
    (h : p.write lookup index sub data = .ok p') :
    o.1.size = some data.length ∧ o.1 ≠ .boolean ∧ o.2.1 = .rw ∧
      p'.object index sub = some (o.1, o.2.1, data) := by
  unfold PdoRecord.object at ho ⊢
  cases pdoRecord_written h with
  | cobId hi hsub hlen =>
    subst hsub
    simp only [hi, ↓reduceIte] at ho ⊢
    cases ho
    simp [DataType.size, hlen, leBytes32_word32 hlen]
  | transmissionType hi hsub hlen =>
    subst hsub
    simp only [hi, ↓reduceIte] at ho ⊢
    cases ho
    simpa [DataType.size, hlen] using singleton_getD hlen
  | inhibitTime hi hsub hlen =>
    subst hsub
    simp only [hi, ↓reduceIte] at ho ⊢
    by_cases hdir : p.decl.direction = .tpdo
    · simp [hdir] at ho
      cases ho
      simp [DataType.size, hlen, leBytes16_word16 hlen, hdir]
    · simp [hdir] at ho
  | eventTimer hi hsub hlen =>
    obtain ⟨h0, h1, h2, h3⟩ := hsub
    simp only [hi, h0, h1, h2, h3, false_and, ↓reduceIte] at ho ⊢
    split_ifs at ho with h5
    cases ho
    simp [DataType.size, hlen, leBytes16_word16 hlen, h5]
  | count hi hmutable hsub hlen =>
    subst hsub
    simp only [hi, ↓reduceIte, PdoRecord.mapAccess, hmutable] at ho ⊢
    split_ifs at ho with hmap
    cases ho
    simpa [DataType.size, hlen, hmap] using singleton_getD hlen
  | entry hi hmutable hsub hlen hcount =>
    simp only [hi, hsub, ↓reduceIte, PdoRecord.mapAccess, PdoRecord.maxMapSub, hmutable] at ho ⊢
    split_ifs at ho with hmap hmax
    cases ho
    have hlt : sub.toNat - 1 < p.mappings.cells.length := by
      have hle := UInt8.le_iff_toNat_le.mp hmax
      rw [FixedBuffer.length_cells]
      simp only [UInt8.reduceToNat] at hle
      omega
    have hread : (p.mappings.write (sub.toNat - 1) [word32 data]).cells.getD (sub.toNat - 1) 0 =
        word32 data := by
      rw [FixedBuffer.cells_write_singleton, List.getD_eq_getElem?_getD, List.getElem?_set_self hlt]
      rfl
    rw [hread, leBytes32_word32 hlen]
    simp [DataType.size, hlen, hmap, hmax]

/-- An accepted write, and what is found at its address afterwards. -/
theorem object_write_self (h : (od.write index sub data).1 = .ok ()) :
    ∃ info, od.lookup index sub = some info ∧ (info.access = .rw ∨ info.access = .wo) ∧
      (∀ size, info.dataType.size = some size → data.length = size) ∧
      (od.write index sub data).2.object index sub =
        some (info.access, storedValue info.dataType data) := by
  rcases OdFields.write_cases od index sub data with ⟨e, heq⟩ | ⟨cells, hcells, heq⟩ |
    ⟨pdos, hnone, hpdos, heq⟩
  · rw [heq] at h
    cases h
  · obtain ⟨l₁, c, c', l₂, hl, rfl, hfree, howns, hw⟩ := updateFirst_ok hcells
    have hwritten := cell_written hw
    have hcell : od.cell index sub = some c := by
      rw [OdFields.cell, hl, List.find?_append, List.find?_eq_none.mpr (by simpa using hfree),
        Option.none_or, List.find?_cons]
      simp only [howns]
    have hcell' : (od.write index sub data).2.cell index sub = some c' := by
      rw [heq, OdFields.cell, List.find?_append, List.find?_eq_none.mpr (by simpa using hfree),
        Option.none_or, List.find?_cons]
      simp only [hwritten.info, howns]
    refine ⟨c.info, by rw [OdFields.lookup, hcell], ?_, hwritten.width, ?_⟩
    · obtain ⟨hro, hconst⟩ := hwritten.writable
      cases haccess : c.info.access <;> simp_all
    · rw [OdFields.object, hcell']
      simp only [hwritten.info, hwritten.value]
  · obtain ⟨l₁, p, p', l₂, hl, rfl, hfree, howns, hw⟩ := updateFirst_ok hpdos
    obtain ⟨o, ho⟩ := Option.isSome_iff_exists.mp howns
    obtain ⟨hsize, hbool, haccess, ho'⟩ := pdoRecord_object_write_self ho hw
    have hcell : od.cell index sub = none := by
      rw [OdFields.cell, List.find?_eq_none]
      intro c hc
      simpa using updateFirst_eq_none hnone c hc
    have hbefore : l₁.findSome? (·.object index sub) = none := by
      rw [List.findSome?_eq_none_iff]
      intro q hq
      simpa using hfree q hq
    have hobject : od.generatedObject index sub = some o := by
      simp [OdFields.generatedObject, hl, hbefore, ho]
    have hobject' : (od.write index sub data).2.generatedObject index sub =
        some (o.1, o.2.1, data) := by
      rw [heq]
      simp [OdFields.generatedObject, hbefore, ho']
    refine ⟨⟨index, sub, o.1, o.2.1, false⟩, ?_, .inl haccess, ?_, ?_⟩
    · rw [OdFields.lookup, hcell, hobject]
      rfl
    · intro size hs
      exact Option.some.inj (hsize.symm.trans hs)
    · have hcell' : (od.write index sub data).2.cell index sub = none := by
        rw [heq]
        exact hcell
      rw [OdFields.object, hcell', hobject', storedValue, if_neg hbool]
      rfl

theorem cell_write_ne_notFound (c : Cell) (data : List UInt8) : c.write data ≠ .error .notFound := by
  unfold Cell.write
  intro h
  split at h
  · cases h
  · split at h
    · split at h
      · cases h
      · split at h <;> cases h
    · split at h
      · cases h
      · split at h <;> cases h

theorem forM_error {α : Type} {f : α → Except OdError Unit} {l : List α} {e : OdError}
    (h : l.forM f = .error e) : ∃ a ∈ l, f a = .error e := by
  induction l with
  | nil => cases h
  | cons b l ih =>
    cases hb : f b with
    | error e' =>
      simp only [List.forM, hb, bind, Except.bind, Except.error.injEq] at h
      exact ⟨b, List.mem_cons_self, by rw [hb, h]⟩
    | ok u =>
      simp only [List.forM, hb, bind, Except.bind] at h
      obtain ⟨a, ha, hf⟩ := ih h
      exact ⟨a, List.mem_cons_of_mem b ha, hf⟩

theorem validateMappingTarget_ne_notFound (lookup : UInt16 → UInt8 → Option OdEntryMeta)
    (m : UInt32) (receive : Bool) : validateMappingTarget lookup m receive ≠ .error .notFound := by
  unfold validateMappingTarget
  dsimp only
  generalize (lookup _ _).any _ = eligible
  split
  · simp
  · cases eligible <;> simp

theorem writeCount_ne_notFound (lookup : UInt16 → UInt8 → Option OdEntryMeta) (p : PdoRecord)
    (data : List UInt8) : p.writeCount lookup data ≠ .error .notFound := by
  unfold PdoRecord.writeCount
  dsimp only
  intro h
  split at h
  · cases h
  split at h
  · cases h
  split at h
  · cases h
  simp only [bind, Except.bind] at h
  split at h
  · rename_i hforM
    cases h
    obtain ⟨m, -, hm⟩ := forM_error hforM
    exact validateMappingTarget_ne_notFound _ _ _ hm
  · generalize mappedBits _ = bits at h
    by_cases hbits : pdoMaxPayloadBits < bits
    · rw [if_pos hbits] at h
      cases h
    · rw [if_neg hbits] at h
      cases h

theorem pdoRecord_write_ne_notFound (lookup : UInt16 → UInt8 → Option OdEntryMeta) (p : PdoRecord)
    (index : UInt16) (sub : UInt8) (data : List UInt8) :
    p.write lookup index sub data ≠ .error .notFound := by
  unfold PdoRecord.write PdoRecord.writeMapping
  intro h
  split_ifs at h
  all_goals first | exact writeCount_ne_notFound lookup p data h | cases h

/-- Only an address without an object is not found. -/
theorem write_notFound_iff : (od.write index sub data).1 = .error .notFound ↔
    od.lookup index sub = none := by
  constructor
  · intro h
    unfold OdFields.write at h
    split at h
    · cases h
    · rename_i e he
      obtain ⟨c, -, -, hc⟩ := updateFirst_error he
      cases h
      exact absurd hc (cell_write_ne_notFound c data)
    · rename_i hnone
      have hcell : od.cell index sub = none := by
        rw [OdFields.cell, List.find?_eq_none]
        intro c hc
        simpa using updateFirst_eq_none hnone c hc
      split at h
      · cases h
      · rename_i e he
        obtain ⟨p, -, -, hp⟩ := updateFirst_error he
        cases h
        exact absurd hp (pdoRecord_write_ne_notFound _ p index sub data)
      · split_ifs at h with hobject
        · cases h
        · rw [OdFields.lookup, hcell]
          simpa using hobject
  · intro h
    have hcell : od.cell index sub = none := by
      unfold OdFields.lookup at h
      cases hc : od.cell index sub with
      | some c => rw [hc] at h; cases h
      | none => rfl
    have hobject : od.generatedObject index sub = none := by
      rw [OdFields.lookup, hcell] at h
      exact Option.map_eq_none_iff.mp h
    have hcells : ∀ c ∈ od.cells, (c.info.index == index && c.info.subindex == sub) = false := by
      intro c hc
      simpa using List.find?_eq_none.mp hcell c hc
    have hpdos : ∀ p ∈ od.pdos, (p.object index sub).isSome = false := by
      simp only [OdFields.generatedObject, Option.orElse_eq_orElse, Option.orElse_eq_or,
        Option.or_eq_none_iff] at hobject
      intro p hp
      rw [List.findSome?_eq_none_iff.mp hobject.1 p hp]
      rfl
    unfold OdFields.write
    rw [updateFirst_none hcells, updateFirst_none hpdos]
    simp [hobject]

end Write

/-! ## The store -/

theorem read_eq {od : OdFields} {index : UInt16} {sub : UInt8} {access : AccessType}
    {value : List UInt8} (ho : od.object index sub = some (access, value)) (haccess : access ≠ .wo)
    {n : ℕ} (buf : FixedBuffer UInt8 n) :
    od.read index sub buf =
      if h : value.length ≤ n then (.ok ⟨value.length, h⟩, buf.write 0 value)
      else (.error .valueTooLong, buf) := by
  simp only [OdFields.read, ho, haccess, ↓reduceIte]

theorem read_notFound_iff {od : OdFields} {index : UInt16} {sub : UInt8} {n : ℕ}
    (buf : FixedBuffer UInt8 n) :
    (od.read index sub buf).1 = .error .notFound ↔ od.lookup index sub = none := by
  rw [← Option.not_isSome_iff_eq_none, lookup_isSome, Option.not_isSome_iff_eq_none]
  unfold OdFields.read
  cases od.object index sub with
  | none => simp
  | some o =>
    simp only [reduceCtorEq, iff_false]
    split_ifs <;> simp

/-- A generated dictionary is a faithful store. -/
theorem generated_od_is_faithful_store {d : OdDefinition} {od : OdFields} (h : od.Typed d)
    (index : UInt16) (sub : UInt8) (data : List UInt8) :
    -- metadata exists exactly where reads and writes find an object
    ((∀ {n : ℕ} (buf : FixedBuffer UInt8 n),
        (od.lookup index sub).isSome = true ↔ (od.read index sub buf).1 ≠ .error .notFound) ∧
      ((od.lookup index sub).isSome = true ↔ (od.write index sub data).1 ≠ .error .notFound)) ∧
    -- an accepted write is read back, and every other address reads as before
    ((od.write index sub data).1 = .ok () →
      (od.write index sub data).2.Typed d ∧
      (∃ info, od.lookup index sub = some info ∧
        (info.access ≠ .wo → ∀ {n : ℕ} (buf : FixedBuffer UInt8 n)
          (hfits : (storedValue info.dataType data).length ≤ n),
          (od.write index sub data).2.read index sub buf =
            (.ok ⟨_, hfits⟩, buf.write 0 (storedValue info.dataType data)))) ∧
      ∀ index' sub' {n : ℕ} (buf : FixedBuffer UInt8 n), (index', sub') ≠ (index, sub) →
        (od.write index sub data).2.read index' sub' buf = od.read index' sub' buf) ∧
    -- a refused write leaves everything as it was
    (∀ e, (od.write index sub data).1 = .error e → (od.write index sub data).2 = od) ∧
    -- a fixed-size object takes its own width only
    (∀ info size, od.lookup index sub = some info → info.dataType.size = some size →
      data.length ≠ size → (od.write index sub data).1 ≠ .ok ()) ∧
    -- the generated `read` never leaves the buffer, and never cuts a value short
    ∀ {n : ℕ} (buf : FixedBuffer UInt8 n),
      od.readGenerated index sub buf =
        some ((od.read index sub buf).1.map Subtype.val, (od.read index sub buf).2) ∧
      ∀ access value, od.object index sub = some (access, value) → access ≠ .wo →
        od.read index sub buf =
          if hfits : value.length ≤ n then (.ok ⟨value.length, hfits⟩, buf.write 0 value)
          else (.error .valueTooLong, buf) := by
  refine ⟨⟨?_, ?_⟩, ?_, ?_, ?_, ?_⟩
  · intro n buf
    rw [Ne, read_notFound_iff, ← Option.not_isSome_iff_eq_none, not_not]
  · rw [Ne, write_notFound_iff, ← Option.not_isSome_iff_eq_none, not_not]
  · intro hok
    obtain ⟨info, hl, -, -, hobject⟩ := object_write_self hok
    refine ⟨h.write index sub data, ⟨info, hl, ?_⟩, ?_⟩
    · intro haccess n buf hfits
      rw [read_eq hobject haccess, dif_pos hfits]
    · intro index' sub' n buf hne
      exact OdFields.read_congr (OdFields.object_write_ne hne) buf
  · exact fun e he => OdFields.write_refused he
  · intro info size hl hs hlen hok
    obtain ⟨info', hl', -, hwidth, -⟩ := object_write_self hok
    cases hl.symm.trans hl'
    exact hlen (hwidth size hs)
  · intro n buf
    exact ⟨h.readGenerated_eq buf, fun access value ho haccess => read_eq ho haccess buf⟩

/-- The control word of the sample drive is written, and its status word reads as before. -/
theorem generated_od_is_faithful_store_control_word :
    (sampleOd.fields.write 0x6040 0 [0x0F, 0x00]).1 = .ok () ∧
      (sampleOd.fields.write 0x6040 0 [0x0F, 0x00]).2.read 0x6041 0 (FixedBuffer.filled 8 0) =
        sampleOd.fields.read 0x6041 0 (FixedBuffer.filled 8 0) := by
  have hok : (sampleOd.fields.write 0x6040 0 [0x0F, 0x00]).1 = .ok () := by decide
  have htyped : sampleOd.fields.Typed sampleDefinition :=
    typed_new (OdDefinition.valid (by decide))
  refine ⟨hok, ?_⟩
  have hstore := (generated_od_is_faithful_store htyped 0x6040 0 [0x0F, 0x00]).2.1 hok
  exact hstore.2.2 0x6041 0 _ (by decide)

end Canopen.Derive
