import Canopen.Derive.Mappings
import Canopen.Derive.PdoClient

/-!
# Agreement of the PDO codecs

A device packs a transmit PDO from its dictionary and unpacks a receive PDO into it; the
generated remote codec decodes and encodes the same frames on the other side. All of them
move the low bits of the mapped objects, widened by the object's type.
-/

namespace Canopen.Derive

open Pdo ByteBits

/-! ## Objects as numbers -/

/-- The number stored in the object an entry maps. -/
def OdFields.number (od : OdFields) (t : DataType) (m : PdoMapping) : Option ℤ :=
  (od.object m.index m.subindex).map fun o => intValue t o.2

/-- An entry of a layout is padding, or the type of an integer or boolean object, with its
bits. The mapping entry fits it when its object can be mapped in the direction and has the
type. -/
def OdFields.Maps (od : OdFields) (dir : PdoDirection) (entry : Option DataType × ℕ)
    (m : PdoMapping) : Prop :=
  m.bitLength.toNat = entry.2 ∧
    match entry.1 with
    | none => isDummyMappingIndex m.index = true
    | some t => isDummyMappingIndex m.index = false ∧ isIntegral t = true ∧ 1 ≤ entry.2 ∧
        (∃ size, t.size = some size ∧ entry.2 ≤ 8 * size) ∧
        ∃ info, od.lookup m.index m.subindex = some info ∧ info.dataType = t ∧
          info.pdoMappable = true ∧
          match dir with
          | .tpdo => info.access ≠ .wo
          | .rpdo => info.access = .rw ∨ info.access = .wo

def mappedAddresses (ms : List PdoMapping) : List (UInt16 × UInt8) :=
  (ms.filter fun m => !isDummyMappingIndex m.index).map fun m => (m.index, m.subindex)

def layoutBits (layout : List (Option DataType × ℕ)) : ℕ := (layout.map (·.2)).sum

section Objects

variable {d : OdDefinition} {od : OdFields} {index : UInt16} {sub : UInt8} {info : OdEntryMeta}
  {size : ℕ}

theorem OdFields.Typed.mapped_value (h : od.Typed d) (hl : od.lookup index sub = some info)
    (hmap : info.pdoMappable = true) (hs : info.dataType.size = some size) :
    ∃ value, od.object index sub = some (info.access, value) ∧ value.length = size ∧
      (info.dataType = .boolean → leNat value ≤ 1) := by
  have hcell := (lookup_mappable hmap).mp hl
  obtain ⟨c, hc, rfl⟩ := Option.map_eq_some_iff.mp hcell
  have htyped := h.values c (List.mem_of_find?_eq_some hc)
  simp only [Cell.Typed, hs] at htyped
  refine ⟨c.value, by rw [OdFields.object, hc], htyped.1, fun hbool => ?_⟩
  rcases htyped.2 hbool with hv | hv
  · rw [hv]
    decide
  · rw [hv]
    decide

theorem updateFirst_of_find {α : Type} {owns : α → Bool} {f : α → Except OdError α} {l : List α}
    {a a' : α} (h : l.find? owns = some a) (hf : f a = .ok a') :
    ∃ l', updateFirst owns f l = some (.ok l') := by
  induction l with
  | nil => cases h
  | cons b l ih =>
    unfold updateFirst
    by_cases hb : owns b = true
    · rw [List.find?_cons, hb] at h
      cases h
      exact ⟨a' :: l, by rw [if_pos hb, hf]; rfl⟩
    · rw [List.find?_cons, Bool.eq_false_iff.mpr hb] at h
      obtain ⟨l', hl'⟩ := ih h
      exact ⟨b :: l', by rw [if_neg hb, hl']; rfl⟩

/-- Data of its width is accepted by every writable object that can be mapped. -/
theorem write_mapped_ok {data : List UInt8} (hl : od.lookup index sub = some info)
    (hmap : info.pdoMappable = true) (haccess : info.access = .rw ∨ info.access = .wo)
    (hs : info.dataType.size = some size) (hlen : data.length = size) :
    (od.write index sub data).1 = .ok () := by
  have hcell := (lookup_mappable hmap).mp hl
  obtain ⟨c, hc, rfl⟩ := Option.map_eq_some_iff.mp hcell
  have hw : ∃ c', c.write data = .ok c' := by
    unfold Cell.write
    rw [if_neg (by rcases haccess with h | h <;> simp [h])]
    simp only [hs]
    rw [if_neg (not_not.mpr hlen)]
    by_cases hbool : c.info.dataType = .boolean
    · exact ⟨_, if_pos hbool⟩
    · exact ⟨_, if_neg hbool⟩
  obtain ⟨c', hc'⟩ := hw
  obtain ⟨cells, hcells⟩ := @updateFirst_of_find _ _ (·.write data) _ c c' hc hc'
  rw [OdFields.write, hcells]

/-- What an accepted write of a number leaves in the object. -/
theorem intValue_storedValue {t : DataType} {data : List UInt8} (hs : t.size = some size)
    (hlen : data.length = size) (hbool : t = .boolean → intValue t data ≤ 1) :
    intValue t (storedValue t data) = intValue t data := by
  unfold storedValue
  by_cases ht : t = .boolean
  · subst ht
    cases hs
    obtain ⟨b, rfl⟩ := List.length_eq_one_iff.mp hlen
    have hone := hbool rfl
    have hcases : b = 0 ∨ b = 1 := by
      simp only [intValue, isSignedInteger, leNat, Bool.false_eq_true, if_false] at hone
      rw [← UInt8.toNat_inj, ← UInt8.toNat_inj]
      simp only [UInt8.toNat_zero, UInt8.toNat_one]
      omega
    rcases hcases with rfl | rfl <;> rfl
  · rw [if_neg ht]

end Objects

/-! ## Sending -/

def OdFields.item (od : OdFields) (entry : Option DataType × ℕ) (m : PdoMapping) : PdoItem where
  bits := entry.2
  value := entry.1.map fun t => (t, leNat (((od.object m.index m.subindex).map (·.2)).getD []))

theorem itemBits_zipWith {layout : List (Option DataType × ℕ)} {ms : List PdoMapping} {od : OdFields}
    (h : layout.length = ms.length) :
    itemBits (List.zipWith od.item layout ms) = layoutBits layout := by
  induction layout generalizing ms with
  | nil => simp [layoutBits]
  | cons entry layout ih =>
    cases ms with
    | nil => cases h
    | cons m ms =>
      rw [List.zipWith_cons_cons, itemBits_cons, ih (Nat.succ.inj h)]
      simp [layoutBits, OdFields.item]

theorem supplies_item {d : OdDefinition} {od : OdFields} (h : od.Typed d)
    {f : Option (OdFields → UInt16 → UInt8 → List UInt8 → Except OdError Unit)}
    {entry : Option DataType × ℕ} {m : PdoMapping} (hm : od.Maps .tpdo entry m) :
    Supplies (⟨od, f⟩ : GeneratedOd) (od.item entry m) m := by
  obtain ⟨hn, hm⟩ := hm
  refine ⟨hn.symm, ?_⟩
  obtain ⟨t, n⟩ := entry
  cases t with
  | none => exact hm
  | some t =>
    obtain ⟨hdummy, -, -, ⟨size, hs, hle⟩, info, hl, rfl, hmap, haccess⟩ := hm
    obtain ⟨value, hobject, hlen, -⟩ := h.mapped_value hl hmap hs
    have hsize := DataType.size_le hs
    have hread : od.read m.index m.subindex (FixedBuffer.filled 8 0) =
        (.ok ⟨value.length, hlen.trans_le hsize⟩, (FixedBuffer.filled 8 0).write 0 value) := by
      rw [read_eq hobject haccess, dif_pos (hlen.trans_le hsize)]
    refine ⟨hdummy, _, _, hread, ?_, ?_⟩
    · exact hle.trans_eq (congrArg (8 * ·) hlen.symm)
    · -- only the bytes read supply bits
      simp only [OdFields.item, hobject, Option.map_some, Option.getD_some]
      rw [← field_zero]
      refine field_congr fun i hi => ?_
      have hlt : i < 8 * value.length := by
        rw [hlen]
        exact Nat.lt_of_lt_of_le hi hle
      rw [FixedBuffer.cells_write_filled 0 (hlen.trans_le hsize), bitAt_append, Nat.zero_add, if_pos hlt]

theorem forall₂_zipWith {α β γ : Type} {R : α → β → Prop} {S : γ → β → Prop} {g : α → β → γ}
    (hg : ∀ a b, R a b → S (g a b) b) {as : List α} {bs : List β} (h : List.Forall₂ R as bs) :
    List.Forall₂ S (List.zipWith g as bs) bs := by
  induction h with
  | nil => exact .nil
  | cons hab _ ih => exact .cons (hg _ _ hab) ih

/-! ## Receiving -/

/-- The entry is padding, or names a writable object of the item's type. -/
def OdFields.Receives (od : OdFields) (item : PdoItem) (m : PdoMapping) : Prop :=
  item.bits = m.bitLength.toNat ∧
    match item.value with
    | none => isDummyMappingIndex m.index = true
    | some (t, x) => isDummyMappingIndex m.index = false ∧ 1 ≤ item.bits ∧ (t = .boolean → x ≤ 1) ∧
        (∃ size, t.size = some size ∧ item.bits ≤ 8 * size) ∧
        ∃ info, od.lookup m.index m.subindex = some info ∧ info.dataType = t ∧
          info.pdoMappable = true ∧ (info.access = .rw ∨ info.access = .wo)

/-- Writes do not change what an entry names. -/
theorem OdFields.Receives.congr {d : OdDefinition} {od od' : OdFields} (h : od.Typed d)
    (h' : od'.Typed d) {item : PdoItem} {m : PdoMapping} (hm : od.Receives item m) :
    od'.Receives item m := by
  refine ⟨hm.1, ?_⟩
  have hvalue := hm.2
  cases hv : item.value with
  | none =>
    rw [hv] at hvalue
    exact hvalue
  | some value =>
    rw [hv] at hvalue
    obtain ⟨hdummy, hpos, hbool, hsize, info, hl, ht, hmap, haccess⟩ := hvalue
    refine ⟨hdummy, hpos, hbool, hsize, info, ?_, ht, hmap, haccess⟩
    rw [lookup_mappable hmap] at hl ⊢
    rw [h'.cell_info, ← h.cell_info, hl]

section Apply

variable {cap : ℕ} {d : OdDefinition}

@[simp] theorem writeObject_fields (s : RpdoState GeneratedOd cap) (m : PdoMapping) (data : List UInt8) :
    (s.writeObject m data).od.fields = (s.od.fields.write m.index m.subindex data).2 := by
  unfold RpdoState.writeObject
  dsimp only
  split_ifs <;> rfl

theorem write_received {s : RpdoState GeneratedOd cap}
    {item : PdoItem} {m : PdoMapping} {t : DataType} {x : ℕ} (hvalue : item.value = some (t, x))
    (hm : s.od.fields.Receives item m) {data : List UInt8} {off : ℕ}
    (hfit : off + item.bits ≤ 8 * data.length)
    (hfield : field data off item.bits = x % 2 ^ item.bits) :
    (s.writeObject m (rpdoObjectData s.od m data off)).od.fields.number t m =
      some (narrow t item.bits (x % 2 ^ item.bits : ℕ)) := by
  obtain ⟨hn, hm⟩ := hm
  rw [hvalue] at hm
  obtain ⟨-, hpos, hbool, ⟨size, hs, hle⟩, info, hl, rfl, hmap, haccess⟩ := hm
  rw [hn] at hfit hfield hpos hle ⊢
  have hlookup : ObjectDictionary.lookup s.od m.index m.subindex = some info := hl
  obtain ⟨hlen, hnumber⟩ := rpdoObjectData_spec hlookup hs (DataType.size_le hs) hle hfit
  have hint := hnumber hpos
  rw [hfield] at hint
  have hok := write_mapped_ok hl hmap haccess hs hlen
  obtain ⟨info', hl', -, -, hobject⟩ := object_write_self hok
  cases hl.symm.trans hl'
  rw [OdFields.number, writeObject_fields, hobject, Option.map_some]
  congr 1
  refine (intValue_storedValue hs hlen fun ht => ?_).trans hint
  rw [hint, ht]
  have hone := (Nat.mod_le x (2 ^ m.bitLength.toNat)).trans (hbool ht)
  have hmod := (Nat.mod_le (x % 2 ^ m.bitLength.toNat) (2 ^ m.bitLength.toNat)).trans hone
  simp only [narrow, isSignedInteger, Bool.false_eq_true, if_false]
  exact_mod_cast hmod

/-- A received frame writes every number it carries and no other object. -/
theorem applyMapped_spec {items : List PdoItem} {ms : List PdoMapping} {data : List UInt8} {off : ℕ}
    {s : RpdoState GeneratedOd cap} (htyped : s.od.fields.Typed d)
    (h : List.Forall₂ s.od.fields.Receives items ms) (hcarries : Carries data items off)
    (hfit : off + itemBits items ≤ 8 * data.length) (hdata : data.length ≤ 8)
    (hnodup : (mappedAddresses ms).Nodup) :
    List.Forall₂ (fun item m => ∀ t x, item.value = some (t, x) →
        (applyMapped data ms off s).od.fields.number t m =
          some (narrow t item.bits (x % 2 ^ item.bits : ℕ))) items ms ∧
      ∀ index sub, (index, sub) ∉ mappedAddresses ms →
        (applyMapped data ms off s).od.fields.object index sub = s.od.fields.object index sub := by
  induction items generalizing ms off s with
  | nil =>
    cases h
    exact ⟨.nil, fun _ _ _ => rfl⟩
  | cons item items ih =>
    cases h with
    | @cons _ m _ ms hm hms =>
    obtain ⟨hfields, htail⟩ := hcarries
    rw [itemBits_cons] at hfit
    have hn := hm.1
    have hsmall : bytesForBits m.bitLength.toNat ≤ 8 := bytesForBits_le (by omega)
    unfold applyMapped
    dsimp only
    rw [if_neg (by omega), ← hn]
    cases hvalue : item.value with
    | none =>
      have hdummy : isDummyMappingIndex m.index = true := by
        have hm := hm.2
        rw [hvalue] at hm
        exact hm
      have hsame : mappedAddresses (m :: ms) = mappedAddresses ms := by
        simp [mappedAddresses, hdummy]
      rw [if_pos hdummy, hsame]
      rw [hsame] at hnodup
      obtain ⟨hwritten, hframe⟩ := ih htyped hms htail (by omega) hnodup
      refine ⟨.cons ?_ hwritten, hframe⟩
      intro t x hx
      cases hvalue.symm.trans hx
    | some value =>
      obtain ⟨t, x⟩ := value
      have hdummy : isDummyMappingIndex m.index = false := by
        have hm := hm.2
        rw [hvalue] at hm
        exact hm.1
      have hcons : mappedAddresses (m :: ms) = (m.index, m.subindex) :: mappedAddresses ms := by
        simp [mappedAddresses, hdummy]
      rw [hdummy, if_neg (by decide), hcons]
      rw [hcons, List.nodup_cons] at hnodup
      have hnumber := write_received hvalue hm (by omega) (hfields t x hvalue)
      have htyped' : (s.writeObject m (rpdoObjectData s.od m data off)).od.fields.Typed d := by
        rw [writeObject_fields]
        exact htyped.write _ _ _
      obtain ⟨hwritten, hframe⟩ := ih htyped' (hms.imp fun _ _ hm => hm.congr htyped htyped') htail
        (by omega) hnodup.2
      refine ⟨.cons ?_ hwritten, fun index sub hne => ?_⟩
      · -- the entries behind this one write other objects
        intro t' x' hx
        cases hvalue.symm.trans hx
        rw [OdFields.number, hframe _ _ hnodup.1]
        exact hnumber
      · rw [List.mem_cons, not_or] at hne
        rw [hframe index sub hne.2, writeObject_fields, OdFields.object_write_ne hne.1]

end Apply

/-! ## Agreement -/

/-- The entry of a declared mapping list has the type and bits of the layout's entry. -/
def OdDefinition.Lists (d : OdDefinition) (entry : Option DataType × ℕ) (m : PdoMapping) : Prop :=
  m.bitLength.toNat = entry.2 ∧
    match entry.1 with
    | none => isDummyMappingIndex m.index = true
    | some t => isDummyMappingIndex m.index = false ∧
        ∃ e, d.flatten.find? (fun e => e.index == m.index && e.subindex == m.subindex) = some e ∧
          e.var.dataType = t

/-- Entry by entry, what the second list names holds the low bits of what the first names. -/
def CarriedOver (layout : List (Option DataType × ℕ)) (ms ms' : List PdoMapping)
    (number number' : DataType → PdoMapping → Option ℤ) : Prop :=
  ∀ (k : ℕ) (t : DataType) (n : ℕ) (m m' : PdoMapping), layout[k]? = some (some t, n) →
    ms[k]? = some m → ms'[k]? = some m' →
    ∃ v, number t m = some v ∧ number' t m' = some (narrow t n v)

/-- Every receive PDO of the layout, mapped to distinct objects, expects the frame's length
and takes the numbers over into its objects, and no other object changes. -/
def TakenOver (dst : GeneratedOd) (layout : List (Option DataType × ℕ)) (frame : CanFrame)
    (ms : List PdoMapping) (number : DataType → PdoMapping → Option ℤ) : Prop :=
  ∀ config : RpdoConfig, List.Forall₂ (dst.fields.Maps .rpdo) layout config.mappings →
    (mappedAddresses config.mappings).Nodup →
    mappedPayloadLen config = some frame.data.length ∧
    ∀ (cap : ℕ) (s : RpdoState GeneratedOd cap), s.od = dst →
      CarriedOver layout ms config.mappings number
        (applyMapped frame.data config.mappings 0 s).od.fields.number ∧
      ∀ index sub, (index, sub) ∉ mappedAddresses config.mappings →
        (applyMapped frame.data config.mappings 0 s).od.fields.object index sub =
          dst.fields.object index sub

/-- Items that stand for the numbers of a mapping list. -/
def StandsFor (number : DataType → PdoMapping → Option ℤ) (entry : Option DataType × ℕ)
    (item : PdoItem) (m : PdoMapping) : Prop :=
  item.bits = entry.2 ∧
    match entry.1 with
    | none => item.value = none
    | some t => ∃ x, item.value = some (t, x) ∧ (t = .boolean → x ≤ 1) ∧
        ∃ v, number t m = some v ∧ narrow t entry.2 v = narrow t entry.2 (x % 2 ^ entry.2 : ℕ)

section Agreement

variable {layout : List (Option DataType × ℕ)} {items : List PdoItem} {ms : List PdoMapping}
  {number : DataType → PdoMapping → Option ℤ}

theorem forall₂_getElem? {α β : Type} {R : α → β → Prop} {as : List α} {bs : List β}
    (h : List.Forall₂ R as bs) {k : ℕ} {a : α} {b : β} (ha : as[k]? = some a) (hb : bs[k]? = some b) :
    R a b := by
  obtain ⟨hk, rfl⟩ := List.getElem?_eq_some_iff.mp ha
  obtain ⟨hk', rfl⟩ := List.getElem?_eq_some_iff.mp hb
  exact (List.forall₂_iff_get.mp h).2 k hk hk'

/-- The numbers of `ms` in their places of a frame. -/
structure Numbers (layout : List (Option DataType × ℕ)) (items : List PdoItem) (ms : List PdoMapping)
    (number : DataType → PdoMapping → Option ℤ) : Prop where
  length : items.length = layout.length
  standsFor : ∀ (k : ℕ) entry item m, layout[k]? = some entry → items[k]? = some item →
    ms[k]? = some m → StandsFor number entry item m

theorem Numbers.carriedOver (h : Numbers layout items ms number) {ms' : List PdoMapping}
    {number' : DataType → PdoMapping → Option ℤ}
    (h' : List.Forall₂ (fun item m => ∀ t x, item.value = some (t, x) →
      number' t m = some (narrow t item.bits (x % 2 ^ item.bits : ℕ))) items ms') :
    CarriedOver layout ms ms' number number' := by
  intro k t n m m' hentry hm hm'
  obtain ⟨hk, -⟩ := List.getElem?_eq_some_iff.mp hentry
  have hitem : items[k]? = some (items.get ⟨k, by rw [h.length]; exact hk⟩) :=
    List.getElem?_eq_getElem _
  obtain ⟨hbits, x, hx, -, v, hv, hnarrow⟩ := h.standsFor k _ _ _ hentry hitem hm
  refine ⟨v, hv, ?_⟩
  dsimp only at hbits hnarrow
  rw [forall₂_getElem? h' hitem hm' t x hx, hbits, hnarrow]

theorem Numbers.forall₂ (h : Numbers layout items ms number) (hms : ms.length = layout.length)
    {Q : Option DataType × ℕ → PdoMapping → Prop} {S : PdoItem → PdoMapping → Prop}
    {ms' : List PdoMapping} (hq : List.Forall₂ Q layout ms')
    (hs : ∀ entry item m m', StandsFor number entry item m → Q entry m' → S item m') :
    List.Forall₂ S items ms' := by
  rw [List.forall₂_iff_get]
  refine ⟨h.length.trans hq.length_eq, fun k hk hk' => ?_⟩
  have hkl : k < layout.length := by
    rw [← h.length]
    exact hk
  have hentry : layout[k]? = some (layout.get ⟨k, hkl⟩) := List.getElem?_eq_getElem _
  have hm : ms[k]? = some (ms.get ⟨k, by rw [hms]; exact hkl⟩) := List.getElem?_eq_getElem _
  exact hs _ _ _ _ (h.standsFor k _ _ _ hentry (List.getElem?_eq_getElem hk) hm)
    (forall₂_getElem? hq hentry (List.getElem?_eq_getElem hk'))

theorem receives_of_standsFor {dst : OdFields} {entry : Option DataType × ℕ} {item : PdoItem}
    {m m' : PdoMapping} (h : StandsFor number entry item m) (hm : dst.Maps .rpdo entry m') :
    dst.Receives item m' := by
  obtain ⟨hn, hvalue⟩ := h
  obtain ⟨hn', hmap⟩ := hm
  refine ⟨hn.trans hn'.symm, ?_⟩
  cases ht : entry.1 with
  | none =>
    rw [ht] at hvalue hmap
    rw [hvalue]
    exact hmap
  | some t =>
    rw [ht] at hvalue hmap
    obtain ⟨x, hx, hbool, -⟩ := hvalue
    obtain ⟨hdummy, -, hpos, hsize, hinfo⟩ := hmap
    rw [hx, hn]
    exact ⟨hdummy, hpos, hbool, hsize, hinfo⟩

theorem takenOver_of_carries {d : OdDefinition} {dst : GeneratedOd} (hd : dst.fields.Typed d)
    {frame : CanFrame} (hnumbers : Numbers layout items ms number) (hms : ms.length = layout.length)
    (hbits : itemBits items = layoutBits layout) (htotal : layoutBits layout ≤ 64)
    (hlen : frame.data.length = bytesForBits (layoutBits layout))
    (hcarries : Carries frame.data items 0) : TakenOver dst layout frame ms number := by
  intro config hmaps hnodup
  have hsum : (config.mappings.map (·.bitLength.toNat)).sum = layoutBits layout := by
    clear hnodup hnumbers hms hbits htotal hlen hcarries
    unfold layoutBits
    generalize config.mappings = rms at hmaps
    induction hmaps with
    | nil => rfl
    | cons hm _ ih => rw [List.map_cons, List.map_cons, List.sum_cons, List.sum_cons, ih, hm.1]
  have hreceives : List.Forall₂ dst.fields.Receives items config.mappings :=
    hnumbers.forall₂ hms hmaps fun _ _ _ _ => receives_of_standsFor
  refine ⟨?_, ?_⟩
  · unfold mappedPayloadLen pdoMaxPayloadBits
    dsimp only
    rw [hsum, if_pos htotal, hlen]
  · rintro cap s rfl
    have hfit : 0 + itemBits items ≤ 8 * frame.data.length := by
      rw [hbits, hlen]
      unfold bytesForBits
      omega
    obtain ⟨hwritten, hframe⟩ :=
      applyMapped_spec hd hreceives hcarries hfit frame.length_le hnodup
    exact ⟨hnumbers.carriedOver hwritten, hframe⟩

/-- The objects of a dictionary are the numbers of the frame built from it. -/
theorem numbers_of_maps {d : OdDefinition} {src : OdFields} (hs : src.Typed d)
    (h : List.Forall₂ (src.Maps .tpdo) layout ms) :
    Numbers layout (List.zipWith src.item layout ms) ms src.number := by
  refine ⟨by rw [List.length_zipWith, ← h.length_eq, Nat.min_self], ?_⟩
  intro k entry item m hentry hitem hm
  rw [List.getElem?_zipWith, hentry, hm] at hitem
  cases hitem
  obtain ⟨hn, hmap⟩ := forall₂_getElem? h hentry hm
  refine ⟨rfl, ?_⟩
  obtain ⟨t, n⟩ := entry
  cases t with
  | none => rfl
  | some t =>
    obtain ⟨-, -, -, ⟨size, hsize, hle⟩, info, hl, rfl, hmap, -⟩ := hmap
    obtain ⟨value, hobject, hlen, hbool⟩ := hs.mapped_value hl hmap hsize
    refine ⟨leNat value, by simp [OdFields.item, hobject], hbool, intValue info.dataType value, ?_, ?_⟩
    · simp [OdFields.number, hobject]
    · exact narrow_intValue _ (by rw [hlen]; exact hle)

theorem declared_of_standsFor {d : OdDefinition} {entry : Option DataType × ℕ} {item : PdoItem}
    {m m' : PdoMapping} (h : StandsFor number entry item m)
    (hm : d.Lists entry m' ∧ (entry.1.isSome = true → 1 ≤ entry.2)) : Declared d.flatten item m' := by
  obtain ⟨hn, hvalue⟩ := h
  obtain ⟨⟨hn', hlist⟩, hpos⟩ := hm
  refine ⟨hn.trans hn'.symm, ?_⟩
  cases ht : entry.1 with
  | none =>
    rw [ht] at hvalue hlist
    rw [hvalue]
    exact hlist
  | some t =>
    rw [ht] at hvalue hlist
    obtain ⟨x, hx, hbool, -⟩ := hvalue
    rw [hx, hn]
    exact ⟨hlist.1, hpos (by rw [ht]; rfl), hbool, hlist.2⟩

/-- The payload fields are the numbers of the frame encoded from them. -/
theorem numbers_of_filled {d : OdDefinition} {c : PdoCodec} {payload : Payload}
    (hnodup : (c.fields.map fun f => (f.index, f.subindex)).Nodup)
    (hholds : ∀ f ∈ c.fields, f.Holds (payload f)) (hlist : List.Forall₂ d.Lists layout ms)
    (h : List.Forall₂ (Filled d.flatten c.fields payload) items ms) :
    Numbers layout items ms fun _ m => c.number payload m := by
  refine ⟨h.length_eq.trans hlist.length_eq.symm, ?_⟩
  intro k entry item m hentry hitem hm
  obtain ⟨hn, hfilled⟩ := forall₂_getElem? h hitem hm
  obtain ⟨hn', hl⟩ := forall₂_getElem? hlist hentry hm
  refine ⟨hn.trans hn', ?_⟩
  cases ht : entry.1 with
  | none =>
    rw [ht] at hl
    cases hvalue : item.value with
    | none => rfl
    | some value =>
      rw [hvalue] at hfilled
      cases hfilled.1.symm.trans hl
  | some t =>
    rw [ht] at hl
    obtain ⟨hdummy, e, he, rfl⟩ := hl
    cases hvalue : item.value with
    | none =>
      rw [hvalue] at hfilled
      cases hdummy.symm.trans hfilled
    | some value =>
      obtain ⟨t, x⟩ := value
      rw [hvalue] at hfilled
      obtain ⟨-, ⟨e', he', rfl⟩, f, hf, htype, hle, rfl⟩ := hfilled
      cases he.symm.trans he'
      obtain ⟨hlen, hbool⟩ := hholds f hf.1
      rw [htype] at hlen hbool
      refine ⟨leNat (payload f), rfl, ?_, intValue f.dataType (payload f), ?_, ?_⟩
      · intro hb
        rcases hbool hb with hv | hv
        · rw [hv]
          decide
        · rw [hv]
          decide
      · exact number_of_named hnodup hf
      · rw [htype]
        refine narrow_intValue _ ?_
        rw [hlen, ← hn', ← hn]
        exact hle

theorem sum_of_lists {d : OdDefinition} (h : List.Forall₂ d.Lists layout ms) :
    (ms.map (·.bitLength.toNat)).sum = layoutBits layout := by
  unfold layoutBits
  induction h with
  | nil => rfl
  | cons hm _ ih => rw [List.map_cons, List.map_cons, List.sum_cons, List.sum_cons, ih, hm.1]

theorem forall₂_and {α β : Type} {R S : α → β → Prop} {as : List α} {bs cs : List β}
    {P : α → Prop} (h : List.Forall₂ R as bs) (hp : ∀ a b, R a b → P a) (h' : List.Forall₂ S as cs) :
    List.Forall₂ (fun a c => S a c ∧ P a) as cs := by
  induction h generalizing cs with
  | nil =>
    cases h'
    exact .nil
  | cons hab _ ih =>
    cases h' with
    | cons hac h' => exact .cons ⟨hac, hp _ _ hab⟩ (ih h')

end Agreement

/-- The codecs agree on every layout of at most 64 bits. A transmit PDO builds a frame of the
layout's length from its dictionary; every receiver takes the numbers over, and so does the
generated decoder. A frame of the generated encoder is taken over in the same way. -/
theorem pdo_codecs_agree {dS dD : OdDefinition} {src dst : GeneratedOd} (hs : src.fields.Typed dS)
    (hd : dst.fields.Typed dD) {layout : List (Option DataType × ℕ)} (htotal : layoutBits layout ≤ 64) :
    (∀ slot : TpdoSlot, List.Forall₂ (src.fields.Maps .tpdo) layout slot.config.mappings →
      slot.config.cobId ≤ 0x7FF →
      ∃ frame, slot.buildPdoFrame src = some frame ∧
        frame.data.length = bytesForBits (layoutBits layout) ∧
        TakenOver dst layout frame slot.config.mappings src.fields.number ∧
        ∀ d p node c, generatePdo d p node = .ok c → c.cobId = slot.config.cobId →
          List.Forall₂ d.Lists layout (p.mappings.map PdoMapping.fromMappingValue) →
          c.payloadBytes = frame.data.length ∧
          ∃ payload, c.decodeTpdo frame = .ok payload ∧ (∀ f ∈ c.fields, f.Holds (payload f)) ∧
            CarriedOver layout slot.config.mappings (p.mappings.map PdoMapping.fromMappingValue)
              src.fields.number fun _ m => c.number payload m) ∧
    ∀ d p node c, generatePdo d p node = .ok c →
      List.Forall₂ d.Lists layout (p.mappings.map PdoMapping.fromMappingValue) →
      ∀ payload : Payload, (∀ f ∈ c.fields, f.Holds (payload f)) →
      ∃ frame, c.encodeRpdo payload = some frame ∧
        frame.data.length = bytesForBits (layoutBits layout) ∧
        TakenOver dst layout frame (p.mappings.map PdoMapping.fromMappingValue)
          fun _ m => c.number payload m := by
  constructor
  · intro slot hmaps hcob
    have hnumbers := numbers_of_maps hs hmaps
    have hbits := @itemBits_zipWith layout _ src.fields hmaps.length_eq
    have hsupplies : List.Forall₂ (Supplies src) (List.zipWith src.fields.item layout slot.config.mappings)
        slot.config.mappings := forall₂_zipWith (fun _ _ => supplies_item hs) hmaps
    obtain ⟨frame, hframe, hid, hlen, hcarries⟩ :=
      buildPdoFrame_spec hsupplies (hbits.trans_le htotal) hcob
    rw [hbits] at hlen
    refine ⟨frame, hframe, hlen, takenOver_of_carries hd hnumbers hmaps.length_eq.symm hbits htotal hlen
      hcarries, ?_⟩
    intro d p node c hc hcobId hlist
    obtain ⟨hplaced, hnodup, -, hbytes⟩ := generatePdo_ok hc
    rw [sum_of_lists hlist, ← hlen] at hbytes
    have hdeclared : List.Forall₂ (Declared d.flatten)
        (List.zipWith src.fields.item layout slot.config.mappings)
        (p.mappings.map PdoMapping.fromMappingValue) := by
      refine hnumbers.forall₂ hmaps.length_eq.symm (forall₂_and hmaps ?_ hlist)
        fun _ _ _ _ => declared_of_standsFor
      rintro ⟨t, n⟩ m ⟨-, hm⟩ hsome
      cases t with
      | none => cases hsome
      | some t => exact hm.2.2.1
    have hfit : 0 + itemBits (List.zipWith src.fields.item layout slot.config.mappings) ≤
        8 * frame.data.length := by
      rw [hbits, hlen]
      unfold bytesForBits
      omega
    obtain ⟨hholds, hdecoded⟩ := decode_spec hplaced hdeclared hcarries hfit
    refine ⟨hbytes, decodeField frame.data, ?_, hholds, hnumbers.carriedOver (hdecoded.imp ?_)⟩
    · unfold PdoCodec.decodeTpdo
      rw [if_neg (not_not.mpr (hid.trans hcobId.symm)), if_neg (by omega)]
    · intro item m hm t x hx
      obtain ⟨f, hf, hvalue⟩ := hm t x hx
      rw [number_of_named hnodup hf, hvalue]
  · intro d p node c hc hlist payload hholds
    obtain ⟨hplaced, hnodup, hcob, hbytes⟩ := generatePdo_ok hc
    rw [sum_of_lists hlist] at hbytes
    obtain ⟨items, hitems, hbits, hlen, hcarries, -⟩ := encode_spec hplaced hholds
      (List.length_replicate : (List.replicate 8 (0 : UInt8)).length = 8)
      (by rw [sum_of_lists hlist]; omega)
    rw [sum_of_lists hlist] at hbits
    obtain ⟨frame, hnew, -, hlen', hcarries'⟩ :=
      new_carries (cobIdExpr_le hcob) hlen (hbits.trans_le htotal) hcarries
    rw [hbits] at hnew hlen'
    refine ⟨frame, ?_, hlen', takenOver_of_carries hd (numbers_of_filled hnodup hholds hlist hitems)
      hlist.length_eq.symm hbits htotal hlen' hcarries'⟩
    unfold PdoCodec.encodeRpdo
    dsimp only
    rw [hbytes, hnew]

def packedMappings : List UInt32 := [0x20000004, 0x00050003, 0x2001000C]

def packedTpdo : PdoDef := ⟨.tpdo, 1, none, 255, 0, 0, false, packedMappings⟩

def packedRpdo : PdoDef := ⟨.rpdo, 1, none, 255, 0, 0, false, packedMappings⟩

/-- A device that maps four bits of a signed byte, three bits of padding and twelve bits of a
word, in both directions. -/
def packedDefinition : OdDefinition where
  entries := [
    ⟨0x2000, .var ⟨.i8, .rw, true, none, [0xFB]⟩⟩,
    ⟨0x2001, .var ⟨.u16, .rw, true, none, [0x34, 0x12]⟩⟩]
  pdos := [packedTpdo, packedRpdo]
  sdoServers := []
  edsCompressed := []

def packedOd : GeneratedOd := ⟨OdFields.new packedDefinition, none⟩

def packedLayout : List (Option DataType × ℕ) := [(some .i8, 4), (none, 3), (some .u16, 12)]

def packedSlot : TpdoSlot := TpdoSlot.new (packedTpdo.record.tpdoConfig sampleNode)

def packedReceiver : RpdoConfig := packedRpdo.record.rpdoConfig sampleNode

/-- The device's own receive PDO and the remote decoder take the frame over: -5 fits four bits,
and 0x1234 is cut to twelve. -/
theorem pdo_codecs_agree_packed :
    ∃ frame, packedSlot.buildPdoFrame packedOd = some frame ∧ frame.data.length = 3 ∧
      (∀ s : RpdoState GeneratedOd 4, s.od = packedOd →
        (applyMapped frame.data packedReceiver.mappings 0 s).od.fields.number .i8 ⟨0x2000, 0, 4⟩ =
          some (-5) ∧
        (applyMapped frame.data packedReceiver.mappings 0 s).od.fields.number .u16 ⟨0x2001, 0, 12⟩ =
          some 0x234) ∧
      ∃ c payload, generatePdo packedDefinition packedTpdo sampleNode = .ok c ∧
        c.decodeTpdo frame = .ok payload ∧ c.number payload ⟨0x2000, 0, 4⟩ = some (-5) := by
  have htyped : packedOd.fields.Typed packedDefinition :=
    typed_new (OdDefinition.valid (by decide))
  have hmaps (dir : PdoDirection) : List.Forall₂ (packedOd.fields.Maps dir) packedLayout
      (packedMappings.map PdoMapping.fromMappingValue) := by
    refine .cons ⟨rfl, rfl, rfl, by decide, ⟨1, rfl, by decide⟩, ⟨0x2000, 0, .i8, .rw, true⟩, rfl, rfl, rfl, ?_⟩
      (.cons ⟨rfl, rfl⟩ (.cons ⟨rfl, rfl, rfl, by decide, ⟨2, rfl, by decide⟩,
        ⟨0x2001, 0, .u16, .rw, true⟩, rfl, rfl, rfl, ?_⟩ .nil))
    all_goals
      cases dir with
      | tpdo => decide
      | rpdo => exact .inl rfl
  have hlists : List.Forall₂ packedDefinition.Lists packedLayout
      (packedMappings.map PdoMapping.fromMappingValue) :=
    .cons ⟨rfl, rfl, _, rfl, rfl⟩ (.cons ⟨rfl, rfl⟩ (.cons ⟨rfl, rfl, _, rfl, rfl⟩ .nil))
  obtain ⟨frame, hframe, hlen, htaken, hdecode⟩ :=
    (pdo_codecs_agree htyped htyped (by decide : layoutBits packedLayout ≤ 64)).1 packedSlot
      (hmaps .tpdo) (by decide)
  have hsource : packedOd.fields.number .i8 ⟨0x2000, 0, 4⟩ = some (-5) := by decide
  have hsource' : packedOd.fields.number .u16 ⟨0x2001, 0, 12⟩ = some 0x1234 := by decide
  refine ⟨frame, hframe, hlen, fun s hs => ?_, ?_⟩
  · obtain ⟨-, hwritten⟩ := htaken packedReceiver (hmaps .rpdo) (by decide)
    obtain ⟨hcarried, -⟩ := hwritten 4 s hs
    obtain ⟨v, hv, hbyte⟩ := hcarried 0 .i8 4 ⟨0x2000, 0, 4⟩ ⟨0x2000, 0, 4⟩ rfl rfl rfl
    obtain ⟨w, hw, hword⟩ := hcarried 2 .u16 12 ⟨0x2001, 0, 12⟩ ⟨0x2001, 0, 12⟩ rfl rfl rfl
    cases hv.symm.trans hsource
    cases hw.symm.trans hsource'
    exact ⟨hbyte, hword⟩
  · have hcodec : generatePdo packedDefinition packedTpdo sampleNode =
        .ok ⟨0x185, [⟨0x2000, 0, .i8, 0, 4⟩, ⟨0x2001, 0, .u16, 7, 12⟩], 3⟩ := by decide
    obtain ⟨-, payload, hpayload, -, hcarried⟩ :=
      hdecode packedDefinition packedTpdo sampleNode _ hcodec rfl hlists
    obtain ⟨v, hv, hbyte⟩ := hcarried 0 .i8 4 ⟨0x2000, 0, 4⟩ ⟨0x2000, 0, 4⟩ rfl rfl rfl
    cases hv.symm.trans hsource
    exact ⟨_, payload, hcodec, hpayload, hbyte⟩

end Canopen.Derive
