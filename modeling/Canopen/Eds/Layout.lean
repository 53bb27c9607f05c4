import Canopen.Eds.Preservation

/-!
# The layout of imported PDOs

The importer turns the mapping entries of a PDO into field names. An entry that names an
array element or an object it does not support is passed over, and so is one whose section
is not spelled the way the importer looks it up; the entries behind it move forward. A PDO whose
main section is not spelled that way is not imported.
-/

namespace Canopen.Eds

open Pdo Text

/-! ## Resolution -/

def OdEntry.nameAt (index : UInt16) (sub : UInt8) (e : OdEntry) : Option (List Char) :=
  match e.kind with
  | .var _ => if e.index = index ∧ sub = 0 then some e.name else none
  | .record subs =>
    if e.index = index then (subs.find? (·.subindex == sub)).map (·.name) else none
  | .array _ => none

def fieldName (entries : List OdEntry) (index : UInt16) (sub : UInt8) : Option (List Char) :=
  entries.findSome? (OdEntry.nameAt index sub)

def mappingFor (entries : List OdEntry) (v : UInt32) : Option PdoMappingDef :=
  if isDummyMappingIndex (v >>> 16).toUInt16 then
    some ⟨"__dummy_mapping".toList, some v.toUInt8, some v⟩
  else (fieldName entries (v >>> 16).toUInt16 (v >>> 8).toUInt8).map fun name =>
    ⟨name, some v.toUInt8, none⟩

theorem markSub_name (sub : UInt8) (subs : List SubEntry) :
    (markSub sub subs).map Prod.fst = (subs.find? (·.subindex == sub)).map (·.name) := by
  induction subs with
  | nil => rfl
  | cons s subs ih =>
    unfold markSub
    by_cases hs : s.subindex = sub
    · have hfind : (s.subindex == sub) = true := beq_iff_eq.mpr hs
      rw [if_pos hs, List.find?_cons, hfind]
      rfl
    · have hfind : (s.subindex == sub) = false := beq_eq_false_iff_ne.mpr hs
      rw [if_neg hs, List.find?_cons, hfind, Option.map_map]
      exact ih

theorem markEntry_name (index : UInt16) (sub : UInt8) (e : OdEntry) :
    (markEntry index sub e).map Prod.fst = e.nameAt index sub := by
  obtain ⟨i, name, kind⟩ := e
  cases kind with
  | var v =>
    simp only [markEntry, OdEntry.nameAt]
    split_ifs <;> rfl
  | record subs =>
    simp only [markEntry, OdEntry.nameAt]
    split_ifs
    · rw [← markSub_name, Option.map_map]
      rfl
    · rfl
  | array a => rfl

theorem markFirst_name (index : UInt16) (sub : UInt8) (es : List OdEntry) :
    (markFirst index sub es).map Prod.fst = fieldName es index sub := by
  induction es with
  | nil => rfl
  | cons e es ih =>
    have hname := markEntry_name index sub e
    unfold markFirst fieldName
    cases hmark : markEntry index sub e with
    | some marked =>
      rw [hmark] at hname
      rw [List.findSome?_cons, ← hname]
      rfl
    | none =>
      rw [hmark] at hname
      rw [List.findSome?_cons, ← hname]
      dsimp only [Option.map_none]
      rw [Option.map_map]
      exact ih

theorem resolveMapping_fst (v : UInt32) (entries : List OdEntry) :
    (resolveMapping v entries).1 = mappingFor entries v := by
  unfold resolveMapping mappingFor
  dsimp only
  rw [← markFirst_name]
  split_ifs
  · rfl
  · cases markFirst (v >>> 16).toUInt16 (v >>> 8).toUInt8 entries <;> rfl

theorem nameAt_unmarked (index : UInt16) (sub : UInt8) (e : OdEntry) :
    e.unmarked.nameAt index sub = e.nameAt index sub := by
  obtain ⟨i, name, kind⟩ := e
  cases kind with
  | var v => rfl
  | record subs =>
    simp only [OdEntry.unmarked, OdEntry.nameAt, List.find?_map, Option.map_map]
    rfl
  | array a => rfl

theorem fieldName_unmarked {entries entries' : List OdEntry}
    (h : entries'.map OdEntry.unmarked = entries.map OdEntry.unmarked) (index : UInt16) (sub : UInt8) :
    fieldName entries' index sub = fieldName entries index sub := by
  have hmap : ∀ l : List OdEntry, fieldName l index sub = fieldName (l.map OdEntry.unmarked) index sub := by
    intro l
    have hcomp : OdEntry.nameAt index sub ∘ OdEntry.unmarked = OdEntry.nameAt index sub :=
      funext (nameAt_unmarked index sub)
    rw [fieldName, fieldName, List.findSome?_map, hcomp]
  rw [hmap, hmap entries, h]

theorem mappingFor_unmarked {entries entries' : List OdEntry}
    (h : entries'.map OdEntry.unmarked = entries.map OdEntry.unmarked) (v : UInt32) :
    mappingFor entries' v = mappingFor entries v := by
  unfold mappingFor
  rw [fieldName_unmarked h]

theorem bitLength_mappingFor {entries : List OdEntry} {v : UInt32} {m : PdoMappingDef}
    (h : mappingFor entries v = some m) : m.bitLength = some v.toUInt8 := by
  unfold mappingFor at h
  split_ifs at h
  · cases h
    rfl
  · obtain ⟨name, -, rfl⟩ := Option.map_eq_some_iff.mp h
    rfl

/-- The value of a computation, 0 when it fails. -/
def valueOf (x : Except EdsError ℕ) : ℕ :=
  match x with
  | .ok v => v
  | .error _ => 0

theorem importMappings_eq {sections : List Section} {mapIdx : UInt16} {subs : List UInt8}
    {entries : List OdEntry} {r : List PdoMappingDef × List OdEntry}
    (h : importMappings sections mapIdx subs entries = .ok r) :
    r.1 = subs.filterMap fun sub =>
      if valueOf (mappingValue sections mapIdx sub) = 0 then none
      else mappingFor entries (UInt32.ofNat (valueOf (mappingValue sections mapIdx sub))) := by
  induction subs generalizing entries r with
  | nil =>
    cases h
    rfl
  | cons sub subs ih =>
    obtain ⟨val, hval, h⟩ := bind_ok h
    obtain ⟨rest, hrest, rfl⟩ := map_ok h
    have hvalue : valueOf (mappingValue sections mapIdx sub) = val := by
      rw [hval]
      rfl
    have ih := ih hrest
    -- resolving one mapping does not change the names of the others
    have hsame : ∀ v, mappingFor (if val = 0 then ((none : Option PdoMappingDef), entries)
        else resolveMapping (UInt32.ofNat val) entries).2 v = mappingFor entries v := by
      intro v
      split_ifs
      · rfl
      · exact mappingFor_unmarked (resolveMapping_unmarked _ entries) v
    simp only [hsame] at ih
    rw [List.filterMap_cons, hvalue, ← ih]
    by_cases hzero : val = 0
    · simp [hzero]
    · simp only [hzero, if_false, resolveMapping_fst]
      cases mappingFor entries (UInt32.ofNat val) <;> rfl

/-! ## Declared layouts -/

def PdoDef.mapIdx (p : PdoDef) : UInt16 := p.direction.mapBase + (p.number - 1)

/-- The section of an address, however it is spelled. -/
def sectionAt (sections : List Section) (address : Address) : Option Props :=
  (sections.find? fun s => s.address == some address).map (·.props)

/-- The number of mapping entries a mapping record declares. -/
def declaredCount (sections : List Section) (mapIdx : UInt16) : ℕ :=
  valueOf (parsePdoDefault (sectionAt sections (mapIdx, some 0)) 0 8 mapIdx 0 "PDO mapping count".toList)

/-- The mapping entry a section declares. -/
def descriptor (sections : List Section) (mapIdx : UInt16) (sub : UInt8) : ℕ :=
  valueOf (parsePdoDefault (sectionAt sections (mapIdx, some sub)) 0 32 mapIdx sub
    "PDO mapping descriptor".toList)

/-- The declared entries other than 0, by their sub-indices. -/
def descriptorSubs (sections : List Section) (mapIdx : UInt16) : List UInt8 :=
  (mappedSubs (declaredCount sections mapIdx)).filter fun sub => descriptor sections mapIdx sub != 0

/-- The declared entries other than 0, in order. -/
def declaredEntries (sections : List Section) (mapIdx : UInt16) : List UInt32 :=
  (descriptorSubs sections mapIdx).map fun sub => UInt32.ofNat (descriptor sections mapIdx sub)

/-- The PDO of a number has a communication record, however its main section is spelled. -/
def DeclaresPdo (sections : List Section) (direction : Derive.PdoDirection) (n : ℕ) : Prop :=
  n < 512 ∧ ∃ s ∈ sections, s.address = some (direction.commBase + UInt16.ofNat n, none)

/-- The PDO of a number, counted from 0. -/
def PdoDef.HasNumber (p : PdoDef) (direction : Derive.PdoDirection) (n : ℕ) : Prop :=
  p.direction = direction ∧ p.number = UInt16.ofNat (n + 1)

/-- An entry of a definition has an object at the address under the name. -/
def OdEntry.Names (e : OdEntry) (index : UInt16) (sub : UInt8) (name : List Char) : Prop :=
  e.index = index ∧
    match e.kind with
    | .var _ => sub = 0 ∧ e.name = name
    | .record subs => ∃ s ∈ subs, s.subindex = sub ∧ s.name = name
    | .array _ => False

/-- A mapping is as wide as a declared entry, and it is its padding or names its object. -/
def StandsFor (entries : List OdEntry) (v : UInt32) (m : PdoMappingDef) : Prop :=
  let index := (v >>> 16).toUInt16
  m.bitLength = some v.toUInt8 ∧
    if 1 ≤ index ∧ index ≤ 7 then m.rawMapping = some v
    else m.rawMapping = none ∧ ∃ e ∈ entries, e.Names index (v >>> 8).toUInt8 m.fieldName

/-- The bits before the `k`-th mapping. -/
def PdoDef.bitOffset (p : PdoDef) (k : ℕ) : ℕ :=
  ((p.mappings.map fun m => (m.bitLength.getD 0).toNat).take k).sum

/-- A PDO is imported with one mapping for each declared entry, in order and at its bit offset. -/
def LayoutKept (sections : List Section) (entries : List OdEntry) (pdos : List PdoDef)
    (direction : Derive.PdoDirection) (n : ℕ) : Prop :=
  let declared := declaredEntries sections (direction.mapBase + UInt16.ofNat n)
  (∃ p ∈ pdos, p.HasNumber direction n) ∧ ∀ p ∈ pdos, p.HasNumber direction n →
    List.Forall₂ (StandsFor entries) declared p.mappings ∧
      ∀ k, p.bitOffset k = ((declared.map fun v => v.toUInt8.toNat).take k).sum

/-- The section of an address is spelled with four and with the fewest hexadecimal digits. -/
def Canonical (sections : List Section) (index : UInt16) (sub : UInt8) : Prop :=
  (getSectionProps sections (subText index sub)).isSome = true

/-- The main section of an index is spelled with four hexadecimal digits. -/
def CanonicalMain (sections : List Section) (index : UInt16) : Prop :=
  (getSectionProps sections (indexText index)).isSome = true

instance (sections : List Section) (index : UInt16) (sub : UInt8) :
    Decidable (Canonical sections index sub) := inferInstanceAs (Decidable (_ = true))

instance (sections : List Section) (index : UInt16) : Decidable (CanonicalMain sections index) :=
  inferInstanceAs (Decidable (_ = true))

section

variable (lang : Lang) (sections : List Section)

/-- The object an entry names can be mapped by name: padding, a variable, or a sub-entry that
did not become part of an array. -/
def Representable (v : UInt32) : Prop :=
  let index := (v >>> 16).toUInt16
  let sub := (v >>> 8).toUInt8
  (1 ≤ index ∧ index ≤ 7) ∨
    (sub = 0 ∧ ∃ props, ((index, none), props) ∈ objectSections sections ∧ declares props = true ∧
      objectType props = 0x07) ∨
    (¬BecomesArray lang sections index ∧ ∃ s ∈ declaredSubs sections index, s.1 = sub)

/-- The PDO and every declared entry are found, and each entry can be represented. -/
def LayoutFound (direction : Derive.PdoDirection) (n : ℕ) : Prop :=
  let mapIdx := direction.mapBase + UInt16.ofNat n
  CanonicalMain sections (direction.commBase + UInt16.ofNat n) ∧
    ∀ sub ∈ descriptorSubs sections mapIdx, Canonical sections mapIdx 0 ∧ Canonical sections mapIdx sub ∧
      Representable lang sections (UInt32.ofNat (descriptor sections mapIdx sub))

end

theorem isDummyMappingIndex_iff {index : UInt16} :
    isDummyMappingIndex index = true ↔ 1 ≤ index ∧ index ≤ 7 := by
  simp [isDummyMappingIndex]

theorem names_of_fieldName {entries : List OdEntry} {index : UInt16} {sub : UInt8} {name : List Char}
    (h : fieldName entries index sub = some name) : ∃ e ∈ entries, e.Names index sub name := by
  obtain ⟨e, he, hname⟩ := List.exists_of_findSome?_eq_some h
  refine ⟨e, he, ?_⟩
  unfold OdEntry.nameAt at hname
  unfold OdEntry.Names
  split at hname
  · split_ifs at hname with haddr
    exact ⟨haddr.1, haddr.2, Option.some.inj hname⟩
  · split_ifs at hname with hindex
    obtain ⟨s, hs, rfl⟩ := Option.map_eq_some_iff.mp hname
    exact ⟨hindex, s, List.mem_of_find?_eq_some hs, by simpa using List.find?_some hs, rfl⟩
  · cases hname

theorem standsFor_of_mapping {entries : List OdEntry} {v : UInt32} {m : PdoMappingDef}
    (h : mappingFor entries v = some m) : StandsFor entries v m := by
  refine ⟨bitLength_mappingFor h, ?_⟩
  unfold mappingFor at h
  by_cases hdummy : isDummyMappingIndex (v >>> 16).toUInt16 = true
  · rw [if_pos hdummy] at h
    rw [if_pos (isDummyMappingIndex_iff.mp hdummy)]
    cases h
    rfl
  · rw [if_neg hdummy] at h
    rw [if_neg (mt isDummyMappingIndex_iff.mpr hdummy)]
    obtain ⟨name, hname, rfl⟩ := Option.map_eq_some_iff.mp h
    exact ⟨rfl, names_of_fieldName hname⟩

theorem bitOffset_of_standsFor {entries : List OdEntry} {p : PdoDef} {declared : List UInt32}
    (h : List.Forall₂ (StandsFor entries) declared p.mappings) (k : ℕ) :
    p.bitOffset k = ((declared.map fun v => v.toUInt8.toNat).take k).sum := by
  have hbits : (p.mappings.map fun m => (m.bitLength.getD 0).toNat) =
      declared.map fun v => v.toUInt8.toNat := by
    generalize p.mappings = mappings at h
    induction h with
    | nil => rfl
    | cons hfirst _ ih => rw [List.map_cons, List.map_cons, ih, hfirst.1, Option.getD_some]
  rw [PdoDef.bitOffset, hbits]

/-! ## Finding the sections -/

theorem eq_of_filterMap_nodup {α β : Type} {f : α → Option β} {l : List α} (h : (l.filterMap f).Nodup)
    {a a' : α} {b : β} (ha : a ∈ l) (ha' : a' ∈ l) (hb : f a = some b) (hb' : f a' = some b) : a = a' := by
  induction l with
  | nil => exact (List.not_mem_nil ha).elim
  | cons x l ih =>
    cases hx : f x with
    | none =>
      rw [List.filterMap_cons_none hx] at h
      have hrest : ∀ y ∈ x :: l, f y = some b → y ∈ l := by
        intro y hy hyb
        rcases List.mem_cons.mp hy with rfl | hmem
        · rw [hx] at hyb
          cases hyb
        · exact hmem
      exact ih h (hrest a ha hb) (hrest a' ha' hb')
    | some c =>
      rw [List.filterMap_cons_some hx, List.nodup_cons] at h
      -- an element of the tail would repeat the head
      have htail : ∀ y ∈ l, f y = some b → c ≠ b := by
        rintro y hy hyb rfl
        exact h.1 (List.mem_filterMap.mpr ⟨y, hy, hyb⟩)
      rcases List.mem_cons.mp ha with rfl | hmem <;> rcases List.mem_cons.mp ha' with rfl | hmem'
      · rfl
      · rw [hx] at hb
        exact (htail a' hmem' hb' (Option.some.inj hb)).elim
      · rw [hx] at hb'
        exact (htail a hmem hb (Option.some.inj hb')).elim
      · exact ih h.2 hmem hmem'

theorem sectionAt_of_key {sections : List Section} (h : (sections.filterMap Section.address).Nodup)
    {key : List Char} {address : Address} (hkey : parseSectionIndex key = some address) {props : Props}
    (hprops : getSectionProps sections key = some props) : sectionAt sections address = some props := by
  obtain ⟨s, hs, rfl⟩ := Option.map_eq_some_iff.mp hprops
  have hmem := List.mem_of_find?_eq_some hs
  have hname := List.find?_some hs
  have haddr : s.address = some address := by
    rw [Section.address, parseSectionIndex_congr (beq_iff_eq.mp hname), hkey]
  have hsome : (sections.find? fun s => s.address == some address).isSome = true :=
    List.find?_isSome.mpr ⟨s, hmem, beq_iff_eq.mpr haddr⟩
  obtain ⟨t, ht⟩ := Option.isSome_iff_exists.mp hsome
  have htaddr := List.find?_some ht
  have heq := eq_of_filterMap_nodup h (List.mem_of_find?_eq_some ht) hmem
    (beq_iff_eq.mp htaddr) haddr
  rw [sectionAt, ht, heq]
  rfl

section Found

variable {sections : List Section} (h : (sections.filterMap Section.address).Nodup) {mapIdx : UInt16}

include h in
theorem mappingValue_of_canonical {sub : UInt8} (hc : Canonical sections mapIdx sub) :
    valueOf (mappingValue sections mapIdx sub) = descriptor sections mapIdx sub := by
  obtain ⟨props, hprops⟩ := Option.isSome_iff_exists.mp hc
  rw [mappingValue, descriptor, hprops, sectionAt_of_key h (parseSectionIndex_subText mapIdx sub) hprops]

theorem mappingValue_of_not_canonical {sub : UInt8} (hc : ¬Canonical sections mapIdx sub) :
    valueOf (mappingValue sections mapIdx sub) = 0 := by
  have hnone : getSectionProps sections (subText mapIdx sub) = none :=
    Option.not_isSome_iff_eq_none.mp hc
  rw [mappingValue, hnone]
  rfl

include h in
theorem mapCount_of_canonical (hc : Canonical sections mapIdx 0) {count : ℕ}
    (hcount : parsePdoMappingCount (getSectionProps sections (subText mapIdx 0)) mapIdx = .ok count) :
    count = declaredCount sections mapIdx := by
  obtain ⟨props, hprops⟩ := Option.isSome_iff_exists.mp hc
  rw [hprops, ← sectionAt_of_key h (parseSectionIndex_subText mapIdx 0) hprops] at hcount
  unfold parsePdoMappingCount at hcount
  unfold declaredCount
  cases hread : parsePdoDefault (sectionAt sections (mapIdx, some 0)) 0 8 mapIdx 0
      "PDO mapping count".toList with
  | error e =>
    rw [hread] at hcount
    cases hcount
  | ok n =>
    rw [hread] at hcount
    dsimp only at hcount
    split_ifs at hcount
    exact (Except.ok.inj hcount).symm

theorem mapCount_of_not_canonical (hc : ¬Canonical sections mapIdx 0) {count : ℕ}
    (hcount : parsePdoMappingCount (getSectionProps sections (subText mapIdx 0)) mapIdx = .ok count) :
    count = 0 := by
  have hnone : getSectionProps sections (subText mapIdx 0) = none :=
    Option.not_isSome_iff_eq_none.mp hc
  rw [hnone] at hcount
  exact (Except.ok.inj hcount).symm

end Found

/-! ## Layouts -/

/-- A list keeps its length exactly when nothing is filtered out. -/
theorem forall₂_filterMap_iff {α β γ : Type} {R : γ → β → Prop} {f : α → Option β} {k : α → γ} {l : List α}
    (h : ∀ a ∈ l, ∀ b, f a = some b → R (k a) b) :
    List.Forall₂ R (l.map k) (l.filterMap f) ↔ ∀ a ∈ l, (f a).isSome = true := by
  induction l with
  | nil => simp
  | cons a l ih =>
    have ih := ih fun a' ha' => h a' (List.mem_cons_of_mem a ha')
    cases ha : f a with
    | none =>
      refine iff_of_false ?_ ?_
      · intro hall
        rw [List.filterMap_cons_none ha] at hall
        have hlen := hall.length_eq
        have hle := List.length_filterMap_le f l
        simp only [List.length_map, List.length_cons] at hlen
        omega
      · intro hsome
        have hhead := hsome a List.mem_cons_self
        rw [ha] at hhead
        cases hhead
    | some b =>
      rw [List.filterMap_cons_some ha, List.map_cons, List.forall₂_cons, ih, List.forall_mem_cons, ha]
      simp [h a List.mem_cons_self b ha]

theorem filterMap_map_eq_iff {α β γ : Type} {f : α → Option β} {g : β → γ} {k : α → γ} {l : List α}
    (h : ∀ a ∈ l, ∀ b, f a = some b → g b = k a) :
    (l.filterMap f).map g = l.map k ↔ ∀ a ∈ l, (f a).isSome = true := by
  have hall := @forall₂_filterMap_iff _ _ _ (fun c b => c = g b) f k l fun a ha b hb => (h a ha b hb).symm
  rw [← hall, ← List.forall₂_map_right_iff, List.forall₂_eq_eq_eq]
  exact eq_comm

theorem importPdos_mem {sections : List Section} {numbers : List (Derive.PdoDirection × ℕ)}
    {entries : List OdEntry} {r : List PdoDef × List OdEntry}
    (h : importPdos sections numbers entries = .ok r) {p : PdoDef} (hp : p ∈ r.1) :
    ∃ direction n entries₁ entries₂, (direction, n) ∈ numbers ∧
      importPdo sections direction n entries₁ = .ok (some p, entries₂) ∧
      entries₁.map OdEntry.unmarked = entries.map OdEntry.unmarked := by
  induction numbers generalizing entries r with
  | nil =>
    cases h
    cases hp
  | cons number rest ih =>
    obtain ⟨pdo, hpdo, h⟩ := bind_ok h
    obtain ⟨pdos, hpdos, h⟩ := bind_ok h
    cases h
    rcases List.mem_append.mp hp with hhead | htail
    · have hsome : pdo.1 = some p := by simpa using hhead
      refine ⟨number.1, number.2, entries, pdo.2, List.mem_cons_self, ?_, rfl⟩
      rw [← hsome]
      exact hpdo
    · obtain ⟨direction, n, entries₁, entries₂, hmem, himport, hsame⟩ := ih hpdos htail
      exact ⟨direction, n, entries₁, entries₂, List.mem_cons_of_mem _ hmem, himport,
        hsame.trans (importPdo_unmarked hpdo)⟩

theorem importPdo_mappings {sections : List Section} {direction : Derive.PdoDirection} {n : ℕ}
    {entries entries' : List OdEntry} {p : PdoDef}
    (h : importPdo sections direction n entries = .ok (some p, entries')) :
    ∃ count, parsePdoMappingCount (getSectionProps sections (subText p.mapIdx 0)) p.mapIdx = .ok count ∧
      p.mappings = (mappedSubs count).filterMap fun sub =>
        if valueOf (mappingValue sections p.mapIdx sub) = 0 then none
        else mappingFor entries (UInt32.ofNat (valueOf (mappingValue sections p.mapIdx sub))) := by
  unfold importPdo at h
  dsimp only at h
  split at h
  · cases h
  · obtain ⟨cobId, -, h⟩ := bind_ok h
    obtain ⟨transmissionType, -, h⟩ := bind_ok h
    obtain ⟨inhibitTime, -, h⟩ := bind_ok h
    obtain ⟨eventTimer, -, h⟩ := bind_ok h
    obtain ⟨mapCount, hcount, h⟩ := bind_ok h
    obtain ⟨mapped, hmapped, h⟩ := bind_ok h
    cases h
    have hidx : direction.mapBase + (UInt16.ofNat (n + 1) - 1) = direction.mapBase + UInt16.ofNat n := by
      congr 1
      rw [UInt16.ofNat_add]
      exact UInt16.add_sub_cancel _ _
    refine ⟨mapCount, ?_, ?_⟩
    · rw [PdoDef.mapIdx]
      dsimp only
      rw [hidx]
      exact hcount
    · rw [PdoDef.mapIdx]
      dsimp only
      rw [hidx]
      exact importMappings_eq hmapped

section Kept

variable {lang : Lang} {capacityOverrides : UInt16 → Option ℕ} {sections : List Section}
  {entries : List OdEntry}

theorem nameAt_recordEntry (index : UInt16) (sub : UInt8)
    (hne : elements lang capacityOverrides sections index ≠ []) :
    ((recordEntry lang capacityOverrides sections index).nameAt index sub).isSome = true ↔
      ¬Regrouped lang capacityOverrides sections index ∧
        ∃ e ∈ elements lang capacityOverrides sections index, e.subindex = sub := by
  by_cases hgroup : Regrouped lang capacityOverrides sections index
  · obtain ⟨first, -, hkind⟩ := (entryKind_eq index hne).2 hgroup
    simp [OdEntry.nameAt, recordEntry, hkind, hgroup]
  · simp only [OdEntry.nameAt, recordEntry, (entryKind_eq index hne).1 hgroup, if_true,
      Option.isSome_map, List.find?_isSome, beq_iff_eq, hgroup, not_false_eq_true, true_and]
    constructor
    · rintro ⟨s, hs, hsub⟩
      obtain ⟨e, he, rfl⟩ := mem_recordSubs.mp hs
      exact ⟨e, he, hsub⟩
    · rintro ⟨e, he, hsub⟩
      exact ⟨_, mem_recordSubs.mpr ⟨e, he, rfl⟩, hsub⟩

/-- The names are those of the declared variables and of the sub-entries of records. -/
theorem representable_iff (h : importEntries lang capacityOverrides sections = .ok entries)
    (v : UInt32) : (mappingFor entries v).isSome = true ↔ Representable lang sections v := by
  unfold mappingFor Representable
  dsimp only
  rw [← isDummyMappingIndex_iff, ← regrouped_iff h, ← exists_element_iff h]
  by_cases hdummy : isDummyMappingIndex (v >>> 16).toUInt16 = true
  · simp [hdummy]
  rw [if_neg hdummy, Option.isSome_map, or_iff_right hdummy, fieldName, List.findSome?_isSome_iff]
  constructor
  · rintro ⟨e, he, hname⟩
    rcases (mem_importEntries h).mp he with ⟨props, s, ho, hdecl, heq⟩ | ⟨hne, heq⟩
    · rw [heq] at hname
      simp only [OdEntry.nameAt] at hname
      split_ifs at hname with haddr
      · rw [haddr.1] at ho hdecl
        exact .inl ⟨haddr.2, props, ho, (parseVarEntry_declares hdecl.2).symm, hdecl.1⟩
      · cases hname
    · have hindex : e.index = (v >>> 16).toUInt16 := by
        by_contra hother
        rw [heq] at hname
        unfold OdEntry.nameAt recordEntry at hname
        dsimp only at hname
        split at hname <;> simp [hother] at hname
      rw [heq, hindex] at hname
      rw [hindex] at hne
      exact .inr ((nameAt_recordEntry _ _ hne).mp hname)
  · rintro (⟨hsub, props, ho, hdecl, hvar⟩ | hrecord)
    · obtain ⟨s, hdecl⟩ := main_parsed h ho hdecl hvar
      refine ⟨⟨(v >>> 16).toUInt16, s.name, .var s.var⟩,
        (mem_importEntries h).mpr (.inl ⟨props, s, ho, hdecl, rfl⟩), ?_⟩
      simp [OdEntry.nameAt, hsub]
    · obtain ⟨e, he, -⟩ := hrecord.2
      have hne := List.ne_nil_of_mem he
      exact ⟨recordEntry lang capacityOverrides sections (v >>> 16).toUInt16,
        (mem_importEntries h).mpr (.inr ⟨hne, rfl⟩), (nameAt_recordEntry _ _ hne).mpr hrecord⟩

/-- The mapping a declared entry becomes, if it is found and can be represented. -/
def importedMapping (sections : List Section) (entries : List OdEntry) (mapIdx : UInt16) (sub : UInt8) :
    Option PdoMappingDef :=
  if (getSectionProps sections (subText mapIdx 0)).isSome &&
      (getSectionProps sections (subText mapIdx sub)).isSome then
    mappingFor entries (UInt32.ofNat (descriptor sections mapIdx sub))
  else none

theorem importedMapping_of_canonical {mapIdx : UInt16} {sub : UInt8} (h0 : Canonical sections mapIdx 0)
    (h : Canonical sections mapIdx sub) : importedMapping sections entries mapIdx sub =
      mappingFor entries (UInt32.ofNat (descriptor sections mapIdx sub)) := by
  rw [importedMapping, h0, h]
  rfl

theorem canonical_of_imported {mapIdx : UInt16} {sub : UInt8} {m : PdoMappingDef}
    (h : importedMapping sections entries mapIdx sub = some m) :
    Canonical sections mapIdx 0 ∧ Canonical sections mapIdx sub ∧
      mappingFor entries (UInt32.ofNat (descriptor sections mapIdx sub)) = some m := by
  unfold importedMapping at h
  split_ifs at h with hc
  rw [Bool.and_eq_true] at hc
  exact ⟨hc.1, hc.2, h⟩

theorem pdo_mappings_eq {content : List Char} {entries : List OdEntry} {pdos : List PdoDef}
    (h : parseEdsContent lang capacityOverrides content = .ok (entries, pdos)) {p : PdoDef}
    (hp : p ∈ pdos) {entries₀ : List OdEntry}
    (hentries : importEntries lang capacityOverrides (parseSections content) = .ok entries₀) :
    p.mappings = (descriptorSubs (parseSections content) p.mapIdx).filterMap
      (importedMapping (parseSections content) entries₀ p.mapIdx) := by
  obtain ⟨hnodup, entries₀', hentries', hpdos⟩ := parseEdsContent_ok h
  rw [hentries] at hentries'
  cases hentries'
  obtain ⟨direction, n, entries₁, entries₂, -, himport, hsame⟩ := importPdos_mem hpdos hp
  obtain ⟨count, hcount, hmappings⟩ := importPdo_mappings himport
  simp only [mappingFor_unmarked hsame] at hmappings
  generalize parseSections content = sections at *
  rw [hmappings]
  by_cases h0 : Canonical sections p.mapIdx 0
  · rw [mapCount_of_canonical hnodup h0 hcount, descriptorSubs, List.filterMap_filter]
    refine List.filterMap_congr fun sub _ => ?_
    by_cases hc : Canonical sections p.mapIdx sub
    · rw [mappingValue_of_canonical hnodup hc, importedMapping_of_canonical h0 hc]
      by_cases hzero : descriptor sections p.mapIdx sub = 0
      · simp [hzero]
      · simp [hzero]
    · have hnone : importedMapping sections entries₀ p.mapIdx sub = none := by
        cases himp : importedMapping sections entries₀ p.mapIdx sub with
        | none => rfl
        | some m => exact (hc (canonical_of_imported himp).2.1).elim
      rw [mappingValue_of_not_canonical hc, hnone]
      simp
  · rw [mapCount_of_not_canonical h0 hcount]
    symm
    rw [mappedSubs, List.range_zero, List.map_nil, List.filterMap_nil, List.filterMap_eq_nil_iff]
    intro sub _
    cases himp : importedMapping sections entries₀ p.mapIdx sub with
    | none => rfl
    | some m => exact (h0 (canonical_of_imported himp).1).elim

end Kept

/-! ## The PDOs of a text -/

/-- The importer makes a PDO of the numbers whose main section it finds. -/
theorem importPdo_number {sections : List Section} {direction : Derive.PdoDirection} {n : ℕ}
    {entries : List OdEntry} {r : Option PdoDef × List OdEntry}
    (h : importPdo sections direction n entries = .ok r) :
    (r.1.isSome = true ↔ CanonicalMain sections (direction.commBase + UInt16.ofNat n)) ∧
      ∀ p, r.1 = some p → p.HasNumber direction n := by
  unfold importPdo at h
  unfold CanonicalMain
  dsimp only at h
  split at h
  · next hnone =>
    cases h
    refine ⟨iff_of_false Bool.false_ne_true ?_, ?_⟩
    · rwa [Option.not_isSome_iff_eq_none, ← Option.isNone_iff_eq_none]
    · intro p hp
      cases hp
  · next hsome =>
    obtain ⟨cobId, -, h⟩ := bind_ok h
    obtain ⟨transmissionType, -, h⟩ := bind_ok h
    obtain ⟨inhibitTime, -, h⟩ := bind_ok h
    obtain ⟨eventTimer, -, h⟩ := bind_ok h
    obtain ⟨mapCount, -, h⟩ := bind_ok h
    obtain ⟨mapped, -, h⟩ := bind_ok h
    cases h
    refine ⟨iff_of_true rfl ?_, ?_⟩
    · rwa [Bool.not_eq_true, Option.isNone_eq_false_iff] at hsome
    · rintro p ⟨⟩
      exact ⟨rfl, rfl⟩

theorem importPdos_exists {sections : List Section} {numbers : List (Derive.PdoDirection × ℕ)}
    {entries : List OdEntry} {r : List PdoDef × List OdEntry}
    (h : importPdos sections numbers entries = .ok r) {direction : Derive.PdoDirection} {n : ℕ}
    (hmem : (direction, n) ∈ numbers)
    (hmain : CanonicalMain sections (direction.commBase + UInt16.ofNat n)) :
    ∃ p ∈ r.1, p.HasNumber direction n := by
  induction numbers generalizing entries r with
  | nil => cases hmem
  | cons first rest ih =>
    obtain ⟨pdo, hpdo, h⟩ := bind_ok h
    obtain ⟨pdos, hpdos, h⟩ := bind_ok h
    cases h
    rcases List.mem_cons.mp hmem with rfl | hrest
    · obtain ⟨hsome, hnumber⟩ := importPdo_number hpdo
      obtain ⟨p, hp⟩ := Option.isSome_iff_exists.mp (hsome.mpr hmain)
      exact ⟨p, List.mem_append_left _ (by simp [hp]), hnumber p hp⟩
    · obtain ⟨p, hp, hnumber⟩ := ih hpdos hrest
      exact ⟨p, List.mem_append_right _ hp, hnumber⟩

theorem mem_pdoNumbers {direction : Derive.PdoDirection} {n : ℕ} (hn : n < 512) :
    (direction, n) ∈ pdoNumbers := by
  cases direction <;> simp [pdoNumbers, hn]

namespace PdoDef.HasNumber

variable {p : PdoDef} {direction direction' : Derive.PdoDirection} {n n' : ℕ}

theorem unique (h : p.HasNumber direction n) (h' : p.HasNumber direction' n') (hn : n < 512) (hn' : n' < 512) :
    direction = direction' ∧ n = n' := by
  refine ⟨h.1.symm.trans h'.1, ?_⟩
  have hnat := congrArg UInt16.toNat (h.2.symm.trans h'.2)
  rw [UInt16.toNat_ofNat', UInt16.toNat_ofNat'] at hnat
  omega

theorem mapIdx_eq (h : p.HasNumber direction n) : p.mapIdx = direction.mapBase + UInt16.ofNat n := by
  rw [PdoDef.mapIdx, h.1, h.2, UInt16.ofNat_add]
  congr 1
  exact UInt16.add_sub_cancel _ _

end PdoDef.HasNumber

section Declared

variable {lang : Lang} {capacityOverrides : UInt16 → Option ℕ} {content : List Char}
  {entries : List OdEntry} {pdos : List PdoDef}
  (h : parseEdsContent lang capacityOverrides content = .ok (entries, pdos))
  {direction : Derive.PdoDirection} {n : ℕ}
include h

theorem pdo_imported_iff (hn : n < 512) : (∃ p ∈ pdos, p.HasNumber direction n) ↔
    CanonicalMain (parseSections content) (direction.commBase + UInt16.ofNat n) := by
  obtain ⟨-, entries₀, -, hpdos⟩ := parseEdsContent_ok h
  constructor
  · rintro ⟨p, hp, hnumber⟩
    obtain ⟨direction', n', entries₁, entries₂, hmem, himport, -⟩ := importPdos_mem hpdos hp
    obtain ⟨hmain, hnumber'⟩ := importPdo_number himport
    have hn' := lt_of_mem_pdoNumbers hmem
    obtain ⟨hdirection, hn⟩ := hnumber.unique (hnumber' p rfl) hn hn'
    rw [hdirection, hn]
    exact hmain.mp rfl
  · exact importPdos_exists hpdos (mem_pdoNumbers hn)

/-- The mappings of an imported PDO stand for the declared entries exactly when each of them is
found and can be represented. -/
theorem mappings_kept_iff {p : PdoDef} (hp : p ∈ pdos) :
    List.Forall₂ (StandsFor entries) (declaredEntries (parseSections content) p.mapIdx) p.mappings ↔
      ∀ sub ∈ descriptorSubs (parseSections content) p.mapIdx,
        Canonical (parseSections content) p.mapIdx 0 ∧ Canonical (parseSections content) p.mapIdx sub ∧
          Representable lang (parseSections content)
            (UInt32.ofNat (descriptor (parseSections content) p.mapIdx sub)) := by
  obtain ⟨-, entries₀, hentries, hpdos⟩ := parseEdsContent_ok h
  have hsame := importPdos_unmarked hpdos
  rw [pdo_mappings_eq h hp hentries, declaredEntries, forall₂_filterMap_iff]
  · refine forall₂_congr fun sub _ => ?_
    rw [← representable_iff hentries]
    constructor
    · intro hsome
      obtain ⟨m, hm⟩ := Option.isSome_iff_exists.mp hsome
      obtain ⟨h0, hc, hmapping⟩ := canonical_of_imported hm
      rw [hmapping]
      exact ⟨h0, hc, rfl⟩
    · rintro ⟨h0, hc, hsome⟩
      rw [importedMapping_of_canonical h0 hc]
      exact hsome
  · intro sub _ m hm
    obtain ⟨-, -, hmapping⟩ := canonical_of_imported hm
    rw [← mappingFor_unmarked hsame] at hmapping
    exact standsFor_of_mapping hmapping

/-- An import keeps the layout of a PDO of the text exactly when it finds the PDO and finds and can
represent every declared entry. -/
theorem layout_kept_iff (hpdo : DeclaresPdo (parseSections content) direction n) :
    LayoutKept (parseSections content) entries pdos direction n ↔
      LayoutFound lang (parseSections content) direction n := by
  unfold LayoutKept LayoutFound
  dsimp only
  rw [pdo_imported_iff h hpdo.1]
  refine and_congr_right fun hmain => ?_
  obtain ⟨p, hp, hnumber⟩ := (pdo_imported_iff h hpdo.1).mpr hmain
  constructor
  · intro hkept
    have hall := (hkept p hp hnumber).1
    rw [← hnumber.mapIdx_eq] at hall ⊢
    exact (mappings_kept_iff h hp).mp hall
  · intro hfound p hp hnumber
    have hall : List.Forall₂ (StandsFor entries)
        (declaredEntries (parseSections content) (direction.mapBase + UInt16.ofNat n)) p.mappings := by
      rw [← hnumber.mapIdx_eq] at hfound ⊢
      exact (mappings_kept_iff h hp).mpr hfound
    exact ⟨hall, bitOffset_of_standsFor hall⟩

end Declared

/-! ## A PDO that maps an array element -/

/-- A byte, an array of four bytes, and a transmit PDO of two entries with the given
descriptors. -/
def mappedEds (first second : List Char) : List Char :=
  unlines (byteSection "[2000]".toList "Speed".toList ++ ["[2001]".toList, "ObjectType=8".toList] ++
    byteSection "[2001sub1]".toList ['A'] ++ byteSection "[2001sub2]".toList ['B'] ++
    byteSection "[2001sub3]".toList ['C'] ++ byteSection "[2001sub4]".toList ['D'] ++
    ["[1800]".toList, "[1A00sub0]".toList, "DefaultValue=2".toList, "[1A00sub1]".toList,
      "DefaultValue=".toList ++ first, "[1A00sub2]".toList, "DefaultValue=".toList ++ second])

def mappedEntries : List OdEntry :=
  [⟨0x2000, "speed".toList, .var ⟨.u8, none, some (.int 0), .ro, true⟩⟩,
    ⟨0x2001, "obj_2001".toList, .array ⟨.u8, none, 4, .ro, false⟩⟩]

def mappedPdo (mappings : List PdoMappingDef) : PdoDef := ⟨.tpdo, 1, none, 255, 0, 0, true, mappings⟩

def speedMapping : PdoMappingDef := ⟨"speed".toList, some 8, none⟩

/-- Padding in front of the byte is kept. -/
def paddedPdo : PdoDef :=
  mappedPdo [⟨"__dummy_mapping".toList, some 8, some 0x00050008⟩, speedMapping]

theorem layout_kept_padded :
    let content := mappedEds "0x00050008".toList "0x20000008".toList
    parseEdsContent asciiLang (fun _ => none) content = .ok (mappedEntries, [paddedPdo]) ∧
      LayoutKept (parseSections content) mappedEntries [paddedPdo] .tpdo 0 := by
  intro content
  have hok : parseEdsContent asciiLang (fun _ => none) content = .ok (mappedEntries, [paddedPdo]) := by
    rw [parseEdsContent_recorded]
    decide
  have hpdo : DeclaresPdo (parseSections content) .tpdo 0 := ⟨by decide, by decide⟩
  have hsubs : descriptorSubs (parseSections content) 0x1A00 = [1, 2] := by decide
  have hentry : UInt32.ofNat (descriptor (parseSections content) 0x1A00 2) = 0x20000008 := by decide
  have hspeed : ∃ o ∈ objectSections (parseSections content), o.1 = (0x2000, none) ∧
      declares o.2 = true ∧ objectType o.2 = 0x07 := by
    decide
  have hfound : LayoutFound asciiLang (parseSections content) .tpdo 0 := by
    refine ⟨by decide, ?_⟩
    change ∀ sub ∈ descriptorSubs (parseSections content) 0x1A00,
      Canonical (parseSections content) 0x1A00 0 ∧ Canonical (parseSections content) 0x1A00 sub ∧
        Representable asciiLang (parseSections content)
          (UInt32.ofNat (descriptor (parseSections content) 0x1A00 sub))
    rw [hsubs]
    intro sub hsub
    rcases List.mem_pair.mp hsub with rfl | rfl
    · exact ⟨by decide, by decide, .inl (by decide)⟩
    · obtain ⟨⟨address, props⟩, ho, rfl, hdecl, hvar⟩ := hspeed
      rw [hentry]
      exact ⟨by decide, by decide, .inr (.inl ⟨by decide, props, ho, hdecl, hvar⟩)⟩
  exact ⟨hok, (layout_kept_iff hok hpdo).mpr hfound⟩

/-- The array element in front of the byte is dropped, and the byte moves to its place. -/
theorem layout_shifts_array_element :
    let content := mappedEds "0x20010108".toList "0x20000008".toList
    parseEdsContent asciiLang (fun _ => none) content = .ok (mappedEntries, [mappedPdo [speedMapping]]) ∧
      DeclaresPdo (parseSections content) .tpdo 0 ∧
      ¬LayoutKept (parseSections content) mappedEntries [mappedPdo [speedMapping]] .tpdo 0 := by
  intro content
  refine ⟨by rw [parseEdsContent_recorded]; decide, ⟨by decide, by decide⟩, ?_⟩
  rintro ⟨-, hkept⟩
  have hlength := (hkept _ (List.mem_singleton.mpr rfl) ⟨rfl, rfl⟩).1.length_eq
  revert hlength
  decide

end Canopen.Eds
