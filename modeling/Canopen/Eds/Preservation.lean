import Mathlib.Data.Finset.Card
import Canopen.Eds.Initial

/-!
# What an import keeps

Every object section declares an object: its type, its access and its initial value are read here
off the section alone, and compared with the definition that the importer makes of all of them.
Objects are lost or changed by the object types of main sections, by arrays of four or more
elements, and by initial values that the definition does not have.
-/

namespace Canopen.Eds

open Text

/-! ## Definitions -/

/-- Type, access and default of an object; an array has no defaults. -/
structure Attributes where
  dataType : DataType
  access : AccessType
  defaultValue : Option Literal
  deriving DecidableEq, Repr

def VarDef.attributes (v : VarDef) : Attributes := ⟨v.typeName, v.access, v.defaultValue⟩

/-- The variables and sub-entries of an entry. -/
def OdEntry.objects (e : OdEntry) : List ((UInt16 × UInt8) × Attributes) :=
  match e.kind with
  | .var v => [((e.index, 0), v.attributes)]
  | .record subs => subs.map fun s => ((e.index, s.subindex), s.var.attributes)
  | .array a => (List.range a.count).map fun i =>
    ((e.index, UInt8.ofNat (i + 1)), ⟨a.elementType, a.access, none⟩)

def objectsOf (entries : List OdEntry) : List ((UInt16 × UInt8) × Attributes) :=
  entries.flatMap OdEntry.objects

/-! ## Sections -/

def dataTypes : List DataType :=
  [.boolean, .i8, .i16, .i24, .i32, .i64, .u8, .u16, .u24, .u32, .u64, .real32, .real64,
    .visibleString, .octetString, .domain]

/-- The supported type whose code a section has. -/
def declaredType (props : Props) : Option DataType :=
  ((getProp props "DataType".toList).bind fun v => plainNumber (trim v)).bind fun code =>
    dataTypes.find? (typeToEdsCode · == code)

def accessKinds : List (List Char × AccessType) :=
  [("ro".toList, .ro), ("const".toList, .const), ("rw".toList, .rw), ("rwr".toList, .rw),
    ("rww".toList, .rw), ("wo".toList, .wo)]

/-- Read-only when nothing is said. -/
def declaredAccess (props : Props) : Option AccessType :=
  match getProp props "AccessType".toList with
  | none => some .ro
  | some v => (accessKinds.find? fun kind => eqIgnoreAsciiCase (trim v) kind.1).map Prod.snd

/-- A section with a name and a supported type. -/
def declares (props : Props) : Bool :=
  (getProp props "ParameterName".toList).isSome && (declaredType props).isSome

/-- The objects that sections declare: main sections, and sub-indices above 0. -/
def declaredObjects (sections : List Section) : List ((UInt16 × UInt8) × Props) :=
  (objectSections sections).filterMap fun o =>
    if o.1.2 ≠ some 0 ∧ declares o.2 = true then some ((o.1.1, o.1.2.getD 0), o.2) else none

/-- An object has the type, the access and the initial value that its section says. -/
def Keeps (lang : RustLang) (props : Props) (a : Attributes) : Prop :=
  declaredType props = some a.dataType ∧ declaredAccess props = some a.access ∧
    ∃ x, writtenValue a.dataType (trim ((getProp props "DefaultValue".toList).getD [])) = some x ∧
      initialValue lang a.dataType a.defaultValue = some x

/-- An import keeps the declared objects. -/
def Preserves (lang : RustLang) (sections : List Section) (entries : List OdEntry) : Prop :=
  (∀ address, address ∈ (objectsOf entries).map Prod.fst ↔
    address ∈ (declaredObjects sections).map Prod.fst) ∧
    ∀ o ∈ objectsOf entries, ∀ d ∈ declaredObjects sections, o.1 = d.1 → Keeps lang d.2 o.2

/-! ## Conditions -/

/-- Every main section that declares an object is that of a variable. -/
def VarsOnly (sections : List Section) : Prop :=
  ∀ index props, ((index, none), props) ∈ objectSections sections → declares props = true →
    objectType props = 0x07

/-- Every initial value is one that the definition has. -/
def ValuesKept (lang : RustLang) (sections : List Section) : Prop :=
  ∀ d ∈ declaredObjects sections, ∀ t, declaredType d.2 = some t →
    ValueKept lang t (getProp d.2 "DefaultValue".toList)

section Arrays

variable (lang : Lang) (sections : List Section)

def declaredSubs (index : UInt16) : List (UInt8 × Props) :=
  (declaredObjects sections).filterMap fun d =>
    if d.1.1 = index ∧ d.1.2 ≠ 0 then some (d.1.2, d.2) else none

/-- An array of four or more elements, all of them zero. -/
def BecomesArray (index : UInt16) : Prop :=
  recordType sections index = 0x08 ∧ 4 ≤ (declaredSubs sections index).length ∧
    ∀ s ∈ declaredSubs sections index, ∀ t, declaredType s.2 = some t →
      ZeroDefault lang t (getProp s.2 "DefaultValue".toList)

/-- Such elements are numbered from 1 without a gap and have one type and one access. -/
def ArraysUniform : Prop :=
  ∀ index, BecomesArray lang sections index → ∀ s ∈ declaredSubs sections index,
    s.1.toNat ≤ (declaredSubs sections index).length ∧
      ∀ s' ∈ declaredSubs sections index,
        declaredType s'.2 = declaredType s.2 ∧ declaredAccess s'.2 = declaredAccess s.2

end Arrays

/-! ## One section -/

theorem eq_typeCode {code : UInt16} {t : DataType} (h : datatypeToRust code = some t) :
    code = typeCode t := by
  unfold datatypeToRust at h
  split at h <;> cases h <;> rfl

theorem datatypeToRust_typeCode (t : DataType) : datatypeToRust (typeCode t) = some t := by
  cases t <;> rfl

theorem find_dataTypes (n : ℕ) : dataTypes.find? (typeToEdsCode · == n) =
    if n < 2 ^ 16 then datatypeToRust (UInt16.ofNat n) else none := by
  cases hfind : dataTypes.find? (typeToEdsCode · == n) with
  | some t =>
    have hcode : typeToEdsCode t = n := by simpa using List.find?_some hfind
    have hlt : typeToEdsCode t < 2 ^ 16 := by cases t <;> decide
    rw [← hcode, if_pos hlt]
    exact (datatypeToRust_typeCode t).symm
  | none =>
    split_ifs with hlt
    · cases htype : datatypeToRust (UInt16.ofNat n) with
      | none => rfl
      | some t =>
        have hcode := congrArg UInt16.toNat (eq_typeCode htype)
        have hmem : t ∈ dataTypes := by cases t <;> decide
        have hnot := List.find?_eq_none.mp hfind t hmem
        have hn : (UInt16.ofNat n).toNat = n := UInt16.toNat_ofNat_of_lt' hlt
        have ht : (typeCode t).toNat = typeToEdsCode t := by cases t <;> rfl
        rw [hn, ht] at hcode
        simp [hcode] at hnot
    · rfl

/-- The importer knows the types by the same codes. -/
theorem declaredType_eq (props : Props) :
    declaredType props = (dataTypeCode props).bind datatypeToRust := by
  unfold declaredType dataTypeCode
  cases getProp props "DataType".toList with
  | none => rfl
  | some v =>
    rw [Option.bind_some, Option.bind_some, parseInt_plainNumber]
    cases plainNumber (trim v) with
    | none => rfl
    | some n =>
      rw [Option.bind_some, find_dataTypes]
      by_cases hlt : n < 2 ^ 16
      · rw [if_pos hlt, filter_lt (hlt.trans (by decide)), filter_lt hlt]
        rfl
      · rw [if_neg hlt]
        by_cases h64 : n < 2 ^ 64
        · rw [filter_lt h64, filter_not_lt hlt]
          rfl
        · rw [filter_not_lt h64]
          rfl

theorem parseAccess_eq (v : List Char) :
    parseAccess v = (accessKinds.find? fun kind => eqIgnoreAsciiCase (trim v) kind.1).map Prod.snd := by
  have hword (word : List Char) (hw : lowercase word = word) :
      eqIgnoreAsciiCase (trim v) word = (lowercase (trim v) == word) := by
    rw [eqIgnoreAsciiCase, hw]
  unfold parseAccess accessKinds
  simp only [List.find?_cons, List.find?_nil, hword "ro".toList rfl, hword "const".toList rfl,
    hword "rw".toList rfl, hword "rwr".toList rfl, hword "rww".toList rfl, hword "wo".toList rfl]
  generalize lowercase (trim v) = lower
  split_ifs with hro hconst hrw hwo
  · rw [hro]
    rfl
  · rw [hconst]
    rfl
  · rcases hrw with rfl | rfl | rfl <;> rfl
  · rw [hwo]
    rfl
  · simp only [not_or] at hrw
    simp only [beq_eq_false_iff_ne.mpr hro, beq_eq_false_iff_ne.mpr hconst,
      beq_eq_false_iff_ne.mpr hrw.1, beq_eq_false_iff_ne.mpr hrw.2.1, beq_eq_false_iff_ne.mpr hrw.2.2,
      beq_eq_false_iff_ne.mpr hwo, Option.map_none]

theorem readAccess_ok {props : Props} {index : UInt16} {subindex : UInt8} {name : List Char}
    {access : AccessType} (h : readAccess props index subindex name = .ok access) :
    declaredAccess props = some access := by
  unfold readAccess at h
  unfold declaredAccess
  dsimp only at h
  cases hvalue : getProp props "AccessType".toList with
  | none =>
    rw [hvalue] at h
    cases h
    rfl
  | some v =>
    rw [hvalue, Option.getD_some] at h
    dsimp only
    rw [← parseAccess_eq]
    cases haccess : parseAccess v with
    | none =>
      rw [haccess] at h
      cases h
    | some access =>
      rw [haccess] at h
      rw [Except.ok.inj h]

section Parsed

variable {lang : Lang} {capacityOverrides : UInt16 → Option ℕ} {index : UInt16} {subindex : UInt8}
  {props : Props}

/-- The importer makes an object of a section that declares one. -/
theorem parseVarEntry_declares {o : Option SubEntry}
    (h : parseVarEntry lang capacityOverrides index subindex props = .ok o) :
    o.isSome = declares props := by
  unfold parseVarEntry at h
  unfold declares
  rw [declaredType_eq]
  cases hname : getProp props "ParameterName".toList with
  | none =>
    rw [hname] at h
    cases h
    rfl
  | some name =>
    cases hcode : dataTypeCode props with
    | none =>
      rw [hname, hcode] at h
      cases h
      rfl
    | some code =>
      rw [hname, hcode] at h
      dsimp only at h
      cases htype : datatypeToRust code with
      | none =>
        rw [htype] at h
        cases h
        rw [Option.bind_some, htype]
        rfl
      | some t =>
        rw [htype] at h
        obtain ⟨access, -, h⟩ := bind_ok h
        obtain ⟨default, -, h⟩ := bind_ok h
        obtain ⟨ident, -, rfl⟩ := map_ok h
        rw [Option.bind_some, htype]
        rfl

/-- An object with what its section says, but for the default. -/
theorem parseVarEntry_attributes {e : SubEntry}
    (h : parseVarEntry lang capacityOverrides index subindex props = .ok (some e)) :
    declaredType props = some e.var.typeName ∧ declaredAccess props = some e.var.access ∧
      ∃ name, readDefault lang e.var.typeName (typeCode e.var.typeName) props index subindex name =
        .ok e.var.defaultValue := by
  rw [declaredType_eq]
  unfold parseVarEntry at h
  split at h
  · next name code hname hcode =>
    split at h
    · cases h
    · next t htype =>
      obtain ⟨access, haccess, h⟩ := bind_ok h
      obtain ⟨default, hdefault, h⟩ := bind_ok h
      obtain ⟨ident, -, h⟩ := map_ok h
      cases h
      rw [hcode, Option.bind_some, htype, readAccess_ok haccess]
      rw [eq_typeCode htype] at hdefault
      exact ⟨rfl, rfl, name, hdefault⟩
  · cases h

end Parsed

section Kept

variable {lang : RustLang} (hlang : lang.ReadsLiterals) {capacityOverrides : UInt16 → Option ℕ}
  {index : UInt16} {subindex : UInt8} {props : Props} {e : SubEntry}
  (h : parseVarEntry lang.toLang capacityOverrides index subindex props = .ok (some e))
include hlang h

theorem keeps_iff : Keeps lang props e.var.attributes ↔
    ValueKept lang e.var.typeName (getProp props "DefaultValue".toList) := by
  obtain ⟨htype, haccess, name, hdefault⟩ := parseVarEntry_attributes h
  rw [← value_kept_iff hlang hdefault]
  constructor
  · exact fun hkeeps => hkeeps.2.2
  · exact fun hvalue => ⟨htype, haccess, hvalue⟩

/-- An element of an array that is left to its zeros. -/
theorem keeps_element_iff (hzero : isZeroDefault e.var.defaultValue = true) {t : DataType}
    {access : AccessType} :
    Keeps lang props ⟨t, access, none⟩ ↔ (e.var.typeName = t ∧ e.var.access = access) ∧
      ValueKept lang e.var.typeName (getProp props "DefaultValue".toList) := by
  obtain ⟨htype, haccess, name, hdefault⟩ := parseVarEntry_attributes h
  have hinitial := value_of_isZeroDefault hdefault hzero
  have hkept := value_kept_iff hlang hdefault
  rw [hinitial] at hkept
  constructor
  · rintro ⟨htype', haccess', hvalue⟩
    rw [htype] at htype'
    rw [haccess] at haccess'
    cases htype'
    cases haccess'
    exact ⟨⟨rfl, rfl⟩, hkept.mp hvalue⟩
  · rintro ⟨⟨rfl, rfl⟩, hvalue⟩
    exact ⟨htype, haccess, hkept.mpr hvalue⟩

end Kept

/-! ## Objects of a definition -/

theorem objects_unmarked (e : OdEntry) : e.unmarked.objects = e.objects := by
  obtain ⟨index, name, kind⟩ := e
  cases kind with
  | var v => rfl
  | record subs =>
    simp only [OdEntry.unmarked, OdEntry.objects, List.map_map]
    rfl
  | array a => rfl

theorem objectsOf_unmarked {entries entries' : List OdEntry}
    (h : entries'.map OdEntry.unmarked = entries.map OdEntry.unmarked) :
    objectsOf entries' = objectsOf entries := by
  have hmap : ∀ l : List OdEntry, objectsOf l = (l.map OdEntry.unmarked).flatMap OdEntry.objects := by
    intro l
    rw [objectsOf, List.flatMap_map]
    exact List.flatMap_congr fun e _ => (objects_unmarked e).symm
  rw [hmap, hmap, h]

section Import

variable {lang : Lang} {capacityOverrides : UInt16 → Option ℕ} {sections : List Section}
  {entries : List OdEntry}

theorem mem_objects_record {index : UInt16} (hne : elements lang capacityOverrides sections index ≠ [])
    (h : ¬Regrouped lang capacityOverrides sections index) {x : (UInt16 × UInt8) × Attributes} :
    x ∈ (recordEntry lang capacityOverrides sections index).objects ↔
      ∃ e ∈ elements lang capacityOverrides sections index, x = ((index, e.subindex), e.var.attributes) := by
  simp only [OdEntry.objects, recordEntry, (entryKind_eq index hne).1 h, List.mem_map]
  constructor
  · rintro ⟨s, hs, rfl⟩
    obtain ⟨e, he, rfl⟩ := mem_recordSubs.mp hs
    exact ⟨e, he, rfl⟩
  · rintro ⟨e, he, rfl⟩
    exact ⟨_, mem_recordSubs.mpr ⟨e, he, rfl⟩, rfl⟩

theorem mem_objects_array {index : UInt16} (hne : elements lang capacityOverrides sections index ≠ [])
    (h : Regrouped lang capacityOverrides sections index) :
    ∃ first ∈ elements lang capacityOverrides sections index, ∀ x,
      x ∈ (recordEntry lang capacityOverrides sections index).objects ↔
        ∃ i < (elements lang capacityOverrides sections index).length,
          x = ((index, UInt8.ofNat (i + 1)), ⟨first.var.typeName, first.var.access, none⟩) := by
  obtain ⟨first, hfirst, hkind⟩ := (entryKind_eq index hne).2 h
  refine ⟨first, hfirst, fun x => ?_⟩
  simp only [OdEntry.objects, recordEntry, hkind, List.mem_map, List.mem_range]
  exact exists_congr fun i => and_congr_right fun _ => eq_comm

theorem mem_objectsOf {entries : List OdEntry}
    (h : importEntries lang capacityOverrides sections = .ok entries)
    {x : (UInt16 × UInt8) × Attributes} :
    x ∈ objectsOf entries ↔
      (∃ index props s, ((index, none), props) ∈ objectSections sections ∧
        DeclaresVar lang capacityOverrides index props s ∧ x = ((index, 0), s.var.attributes)) ∨
      ∃ index, elements lang capacityOverrides sections index ≠ [] ∧
        x ∈ (recordEntry lang capacityOverrides sections index).objects := by
  unfold objectsOf
  rw [List.mem_flatMap]
  constructor
  · rintro ⟨e, he, hx⟩
    rcases (mem_importEntries h).mp he with ⟨props, s, ho, hdecl, heq⟩ | ⟨hne, heq⟩
    · rw [heq] at hx
      exact .inl ⟨e.index, props, s, ho, hdecl, List.mem_singleton.mp hx⟩
    · rw [heq] at hx
      exact .inr ⟨e.index, hne, hx⟩
  · rintro (⟨index, props, s, ho, hdecl, rfl⟩ | ⟨index, hne, hx⟩)
    · exact ⟨⟨index, s.name, .var s.var⟩, (mem_importEntries h).mpr (.inl ⟨props, s, ho, hdecl, rfl⟩),
        List.mem_singleton.mpr rfl⟩
    · exact ⟨recordEntry lang capacityOverrides sections index,
        (mem_importEntries h).mpr (.inr ⟨hne, rfl⟩), hx⟩

variable (lang capacityOverrides sections) in
def subNumbers (index : UInt16) : Finset ℕ :=
  ((elements lang capacityOverrides sections index).map (·.subindex.toNat)).toFinset

theorem card_subNumbers (h : ((objectSections sections).map Prod.fst).Nodup) (index : UInt16) :
    (subNumbers lang capacityOverrides sections index).card =
      (elements lang capacityOverrides sections index).length := by
  have hnodup : ((elements lang capacityOverrides sections index).map (·.subindex.toNat)).Nodup := by
    have hinj : Function.Injective UInt8.toNat := fun a b hab => UInt8.toNat_inj.mp hab
    have hmap := (@elements_nodup lang capacityOverrides sections h index).map hinj
    rwa [List.map_map] at hmap
  rw [subNumbers, List.toFinset_card_of_nodup hnodup, List.length_map]

theorem subNumbers_subset {index : UInt16} {n : ℕ}
    (h : ∀ e ∈ elements lang capacityOverrides sections index, e.subindex.toNat ≤ n) :
    subNumbers lang capacityOverrides sections index ⊆ Finset.Icc 1 n := by
  intro k hk
  obtain ⟨e, he, rfl⟩ := List.mem_map.mp (List.mem_toFinset.mp hk)
  obtain ⟨-, -, hne, -⟩ := mem_elements.mp he
  have hpos : e.subindex.toNat ≠ 0 := fun h0 => hne (UInt8.toNat_inj.mp h0)
  rw [Finset.mem_Icc]
  exact ⟨Nat.one_le_iff_ne_zero.mpr hpos, h e he⟩

theorem length_elements_le (h : ((objectSections sections).map Prod.fst).Nodup) (index : UInt16) :
    (elements lang capacityOverrides sections index).length ≤ 255 := by
  have hsub : subNumbers lang capacityOverrides sections index ⊆ Finset.Icc 1 255 := by
    refine subNumbers_subset fun e _ => ?_
    have hlt : e.subindex.toNat < 2 ^ 8 := e.subindex.toNat_lt
    omega
  have hcard := Finset.card_le_card hsub
  rw [card_subNumbers h, Nat.card_Icc] at hcard
  exact hcard

theorem ofNat_succ_ne_zero {i n : ℕ} (hi : i < n) (hn : n ≤ 255) : UInt8.ofNat (i + 1) ≠ 0 := by
  intro h
  have hnat := congrArg UInt8.toNat h
  rw [UInt8.toNat_ofNat'] at hnat
  change (i + 1) % 2 ^ 8 = 0 at hnat
  omega

/-- `n` sub-indices of at most `n` are those from 1 to `n`. -/
theorem exists_element (h : ((objectSections sections).map Prod.fst).Nodup) {index : UInt16}
    (hle : ∀ e ∈ elements lang capacityOverrides sections index,
      e.subindex.toNat ≤ (elements lang capacityOverrides sections index).length)
    {i : ℕ} (hi : i < (elements lang capacityOverrides sections index).length) :
    ∃ e ∈ elements lang capacityOverrides sections index, e.subindex = UInt8.ofNat (i + 1) := by
  have heq : subNumbers lang capacityOverrides sections index =
      Finset.Icc 1 (elements lang capacityOverrides sections index).length := by
    refine Finset.eq_of_subset_of_card_le (subNumbers_subset hle) ?_
    rw [card_subNumbers h, Nat.card_Icc, Nat.add_sub_cancel]
  have hmem : i + 1 ∈ subNumbers lang capacityOverrides sections index := by
    rw [heq, Finset.mem_Icc]
    omega
  obtain ⟨e, he, hnat⟩ := List.mem_map.mp (List.mem_toFinset.mp hmem)
  refine ⟨e, he, UInt8.toNat_inj.mp ?_⟩
  have hlt : e.subindex.toNat < 2 ^ 8 := e.subindex.toNat_lt
  rw [UInt8.toNat_ofNat', hnat]
  omega

theorem address_of_mem_objects (hunique : ((objectSections sections).map Prod.fst).Nodup)
    {index : UInt16} (hne : elements lang capacityOverrides sections index ≠ [])
    {x : (UInt16 × UInt8) × Attributes}
    (hx : x ∈ (recordEntry lang capacityOverrides sections index).objects) :
    x.1.1 = index ∧ x.1.2 ≠ 0 := by
  by_cases hgroup : Regrouped lang capacityOverrides sections index
  · obtain ⟨first, -, hmem⟩ := mem_objects_array hne hgroup
    obtain ⟨i, hi, rfl⟩ := (hmem x).mp hx
    exact ⟨rfl, ofNat_succ_ne_zero hi (length_elements_le hunique index)⟩
  · obtain ⟨e, he, rfl⟩ := (mem_objects_record hne hgroup).mp hx
    obtain ⟨-, -, hsub, -⟩ := mem_elements.mp he
    exact ⟨rfl, hsub⟩

/-! ## Declared objects -/

theorem mem_declaredObjects {d : (UInt16 × UInt8) × Props} :
    d ∈ declaredObjects sections ↔ declares d.2 = true ∧
      if d.1.2 = 0 then ((d.1.1, none), d.2) ∈ objectSections sections
      else ((d.1.1, some d.1.2), d.2) ∈ objectSections sections := by
  unfold declaredObjects
  rw [List.mem_filterMap]
  constructor
  · rintro ⟨⟨⟨index, sub⟩, props⟩, ho, hd⟩
    split_ifs at hd with hcond
    cases hd
    refine ⟨hcond.2, ?_⟩
    cases sub with
    | none => exact ho
    | some sub =>
      have hne : sub ≠ 0 := fun h => hcond.1 (congrArg some h)
      dsimp only [Option.getD_some]
      rw [if_neg hne]
      exact ho
  · obtain ⟨⟨index, sub⟩, props⟩ := d
    rintro ⟨hdecl, hmem⟩
    dsimp only at hdecl hmem
    split_ifs at hmem with hzero
    · exact ⟨_, hmem, by rw [if_pos ⟨by simp, hdecl⟩, Option.getD_none, hzero]⟩
    · exact ⟨_, hmem, by rw [if_pos ⟨by simpa using hzero, hdecl⟩, Option.getD_some]⟩

section Accepted

variable (h : importEntries lang capacityOverrides sections = .ok entries)
include h

theorem main_parsed {index : UInt16} {props : Props} (ho : ((index, none), props) ∈ objectSections sections)
    (hdecl : declares props = true) (hvar : objectType props = 0x07) :
    ∃ s, DeclaresVar lang capacityOverrides index props s := by
  obtain ⟨vars, hvars, -⟩ := bind_ok h
  obtain ⟨o, hparsed⟩ := (collect_eq hvars).1 _ ho
  rw [importVar, if_pos hvar] at hparsed
  obtain ⟨o', hentry, -⟩ := map_ok hparsed
  have hsome := parseVarEntry_declares hentry
  rw [hdecl] at hsome
  obtain ⟨s, rfl⟩ := Option.isSome_iff_exists.mp hsome
  exact ⟨s, hvar, hentry⟩

theorem sub_parsed {index : UInt16} {sub : UInt8} {props : Props}
    (ho : ((index, some sub), props) ∈ objectSections sections) (hsub : sub ≠ 0)
    (hdecl : declares props = true) :
    ∃ e ∈ elements lang capacityOverrides sections index, e.subindex = sub ∧
      parseVarEntry lang capacityOverrides index sub props = .ok (some e) := by
  obtain ⟨vars, -, h⟩ := bind_ok h
  obtain ⟨records, hrecords, -⟩ := map_ok h
  have hindex : index ∈ recordIndices (objectSections sections) := mem_recordIndices.mpr ⟨_, _, ho⟩
  obtain ⟨record, hrecord⟩ := (collect_eq hrecords).1 _ hindex
  obtain ⟨subs, hsubs, -⟩ := bind_ok hrecord
  obtain ⟨o, hparsed⟩ := (collect_eq hsubs).1 _ ho
  rw [importSub, if_pos ⟨rfl, hsub⟩] at hparsed
  have hsome := parseVarEntry_declares hparsed
  rw [hdecl] at hsome
  obtain ⟨e, rfl⟩ := Option.isSome_iff_exists.mp hsome
  have he := parseVarEntry_subindex hparsed
  refine ⟨e, mem_elements.mpr ⟨props, ?_, ?_, ?_⟩, he, hparsed⟩ <;> rw [he]
  · exact ho
  · exact hsub
  · exact hparsed

end Accepted

theorem element_declared {index : UInt16} {e : SubEntry}
    (he : e ∈ elements lang capacityOverrides sections index) :
    ∃ props, ((index, e.subindex), props) ∈ declaredObjects sections ∧ e.subindex ≠ 0 ∧
      parseVarEntry lang capacityOverrides index e.subindex props = .ok (some e) := by
  obtain ⟨props, ho, hne, hparse⟩ := mem_elements.mp he
  have hdecl : declares props = true := (parseVarEntry_declares hparse).symm
  refine ⟨props, mem_declaredObjects.mpr ⟨hdecl, ?_⟩, hne, hparse⟩
  rw [if_neg hne]
  exact ho

theorem mem_declaredSubs {index : UInt16} {s : UInt8 × Props} : s ∈ declaredSubs sections index ↔
    ((index, s.1), s.2) ∈ declaredObjects sections ∧ s.1 ≠ 0 := by
  unfold declaredSubs
  rw [List.mem_filterMap]
  constructor
  · rintro ⟨⟨⟨i, sub⟩, props⟩, hd, hs⟩
    split_ifs at hs with hcond
    cases hs
    rw [← hcond.1]
    exact ⟨hd, hcond.2⟩
  · rintro ⟨hd, hne⟩
    exact ⟨_, hd, if_pos ⟨rfl, hne⟩⟩

section Accepted

variable (h : importEntries lang capacityOverrides sections = .ok entries)
include h

theorem length_declaredSubs (index : UInt16) : (declaredSubs sections index).length =
    (elements lang capacityOverrides sections index).length := by
  unfold declaredSubs declaredObjects elements
  rw [List.filterMap_filterMap, List.length_filterMap_eq_countP, List.length_filterMap_eq_countP]
  refine List.countP_congr fun o ho => ?_
  obtain ⟨⟨i, sub⟩, props⟩ := o
  cases sub with
  | none => by_cases hdecl : declares props = true <;> simp [hdecl, importSub, got]
  | some sub =>
    by_cases haddr : i = index ∧ sub ≠ 0
    · obtain ⟨rfl, hne⟩ := haddr
      have hparsed : (got (importSub lang capacityOverrides i ((i, some sub), props))).isSome = true ↔
          declares props = true := by
        rw [importSub, if_pos ⟨rfl, hne⟩]
        constructor
        · intro hsome
          obtain ⟨e, he⟩ := Option.isSome_iff_exists.mp hsome
          exact (parseVarEntry_declares (got_eq_some.mp he)).symm
        · intro hdecl
          obtain ⟨e, -, -, hparse⟩ := sub_parsed h ho hne hdecl
          rw [hparse]
          rfl
      rw [hparsed]
      by_cases hdecl : declares props = true <;> simp [hdecl, hne]
    · have hnone : importSub lang capacityOverrides index ((i, some sub), props) = .ok none := if_neg haddr
      rw [hnone]
      by_cases hdecl : declares props = true <;> by_cases hsub : sub = 0 <;> simp_all [got]

theorem exists_element_of_declared {index : UInt16} {s : UInt8 × Props}
    (hs : s ∈ declaredSubs sections index) :
    ∃ e ∈ elements lang capacityOverrides sections index, e.subindex = s.1 ∧
      parseVarEntry lang capacityOverrides index s.1 s.2 = .ok (some e) := by
  obtain ⟨hd, hne⟩ := mem_declaredSubs.mp hs
  obtain ⟨hdecl, hmem⟩ := mem_declaredObjects.mp hd
  rw [if_neg hne] at hmem
  exact sub_parsed h hmem hne hdecl

end Accepted

theorem exists_declared_of_element {index : UInt16} {e : SubEntry}
    (he : e ∈ elements lang capacityOverrides sections index) :
    ∃ props, (e.subindex, props) ∈ declaredSubs sections index ∧
      parseVarEntry lang capacityOverrides index e.subindex props = .ok (some e) := by
  obtain ⟨props, hd, hne, hparse⟩ := element_declared he
  exact ⟨props, mem_declaredSubs.mpr ⟨hd, hne⟩, hparse⟩

theorem exists_element_iff (h : importEntries lang capacityOverrides sections = .ok entries)
    (index : UInt16) (sub : UInt8) :
    (∃ e ∈ elements lang capacityOverrides sections index, e.subindex = sub) ↔
      ∃ s ∈ declaredSubs sections index, s.1 = sub := by
  constructor
  · rintro ⟨e, he, rfl⟩
    obtain ⟨props, hs, -⟩ := exists_declared_of_element he
    exact ⟨_, hs, rfl⟩
  · rintro ⟨s, hs, rfl⟩
    obtain ⟨e, he, hsub, -⟩ := exists_element_of_declared h hs
    exact ⟨e, he, hsub⟩

/-- The importer sees the arrays that the sections describe. -/
theorem regrouped_iff (h : importEntries lang capacityOverrides sections = .ok entries) (index : UInt16) :
    Regrouped lang capacityOverrides sections index ↔ BecomesArray lang sections index := by
  unfold Regrouped BecomesArray
  rw [length_declaredSubs h]
  refine and_congr_right fun _ => and_congr_right fun _ => ?_
  constructor
  · intro hzero s hs t ht
    obtain ⟨e, he, -, hparse⟩ := exists_element_of_declared h hs
    obtain ⟨htype, -, name, hdefault⟩ := parseVarEntry_attributes hparse
    rw [htype] at ht
    cases ht
    exact (isZeroDefault_iff hdefault).mp (hzero e he)
  · intro hzero e he
    obtain ⟨props, hs, hparse⟩ := exists_declared_of_element he
    obtain ⟨htype, -, name, hdefault⟩ := parseVarEntry_attributes hparse
    exact (isZeroDefault_iff hdefault).mpr (hzero _ hs _ htype)

end Import

/-! ## Preservation -/

section Preservation

variable {lang : RustLang} (hlang : lang.ReadsLiterals) {capacityOverrides : UInt16 → Option ℕ}
  {sections : List Section} {entries : List OdEntry}
  (h : importEntries lang.toLang capacityOverrides sections = .ok entries)
  (hunique : ((objectSections sections).map Prod.fst).Nodup)
include h hunique

theorem object_of_main {o : (UInt16 × UInt8) × Attributes} (ho : o ∈ objectsOf entries) (hzero : o.1.2 = 0) :
    ∃ props s, ((o.1.1, none), props) ∈ objectSections sections ∧
      DeclaresVar lang.toLang capacityOverrides o.1.1 props s ∧ o.2 = s.var.attributes := by
  rcases (mem_objectsOf h).mp ho with ⟨index, props, s, hmem, hdecl, rfl⟩ | ⟨index, hne, hx⟩
  · exact ⟨props, s, hmem, hdecl, rfl⟩
  · exact ((address_of_mem_objects hunique hne hx).2 hzero).elim

theorem object_of_sub {o : (UInt16 × UInt8) × Attributes} (ho : o ∈ objectsOf entries) (hne : o.1.2 ≠ 0) :
    elements lang.toLang capacityOverrides sections o.1.1 ≠ [] ∧
      o ∈ (recordEntry lang.toLang capacityOverrides sections o.1.1).objects := by
  rcases (mem_objectsOf h).mp ho with ⟨index, props, s, hmem, hdecl, rfl⟩ | ⟨index, hnil, hx⟩
  · exact (hne rfl).elim
  · rw [(address_of_mem_objects hunique hnil hx).1]
    exact ⟨hnil, hx⟩

include hlang in
theorem main_keeps_iff {o : (UInt16 × UInt8) × Attributes} (ho : o ∈ objectsOf entries)
    {d : (UInt16 × UInt8) × Props} (hd : d ∈ declaredObjects sections) (heq : o.1 = d.1)
    (hzero : d.1.2 = 0) : objectType d.2 = 0x07 ∧ (Keeps lang d.2 o.2 ↔
      ∀ t, declaredType d.2 = some t → ValueKept lang t (getProp d.2 "DefaultValue".toList)) := by
  obtain ⟨props, s, hmem, ⟨hvar, hparse⟩, hattr⟩ := object_of_main h hunique ho (by rw [heq]; exact hzero)
  have hmem' := (mem_declaredObjects.mp hd).2
  rw [if_pos hzero] at hmem'
  rw [heq] at hmem hparse
  have hprops := (Prod.mk.inj (List.inj_on_of_nodup_map hunique hmem hmem' rfl)).2
  subst hprops
  refine ⟨hvar, ?_⟩
  rw [hattr, keeps_iff hlang hparse, (parseVarEntry_attributes hparse).1]
  simp

include hlang in
/-- What it takes that a sub-entry is kept, as a record entry or as an element of an array. -/
theorem sub_keeps_iff {o : (UInt16 × UInt8) × Attributes} (ho : o ∈ objectsOf entries)
    {s : UInt8 × Props} (hs : s ∈ declaredSubs sections o.1.1) (heq : o.1.2 = s.1) :
    Keeps lang s.2 o.2 ↔
      (Regrouped lang.toLang capacityOverrides sections o.1.1 →
        declaredType s.2 = some o.2.dataType ∧ declaredAccess s.2 = some o.2.access) ∧
      ∀ t, declaredType s.2 = some t → ValueKept lang t (getProp s.2 "DefaultValue".toList) := by
  have hne := (mem_declaredSubs.mp hs).2
  obtain ⟨hnil, hx⟩ := object_of_sub h hunique ho (by rw [heq]; exact hne)
  obtain ⟨e, he, hsub, hparse⟩ := exists_element_of_declared h hs
  obtain ⟨htype, haccess, -⟩ := parseVarEntry_attributes hparse
  rw [htype, haccess]
  by_cases hgroup : Regrouped lang.toLang capacityOverrides sections o.1.1
  · obtain ⟨first, -, hmem⟩ := mem_objects_array hnil hgroup
    obtain ⟨i, -, hi⟩ := (hmem o).mp hx
    rw [hi]
    dsimp only
    rw [keeps_element_iff hlang hparse (hgroup.2.2 e he)]
    simp [hgroup]
  · obtain ⟨e', he', hattr⟩ := (mem_objects_record hnil hgroup).mp hx
    have hsame : e' = e := by
      refine elements_unique hunique he' he ?_
      rw [hsub, ← heq, hattr]
    rw [hattr, hsame]
    dsimp only
    rw [keeps_iff hlang hparse]
    simp [hgroup]

theorem main_declared {index : UInt16} (hmem : (index, (0 : UInt8)) ∈ (objectsOf entries).map Prod.fst) :
    (index, (0 : UInt8)) ∈ (declaredObjects sections).map Prod.fst := by
  obtain ⟨o, ho, heq⟩ := List.mem_map.mp hmem
  obtain ⟨props, s, hsection, hvar, -⟩ := object_of_main h hunique ho (by rw [heq])
  have hdecl : declares props = true := (parseVarEntry_declares hvar.2).symm
  rw [heq] at hsection
  exact List.mem_map.mpr ⟨((index, 0), props), mem_declaredObjects.mpr ⟨hdecl, hsection⟩, rfl⟩

omit hunique in
theorem main_imported (hvars : VarsOnly sections) {index : UInt16}
    (hmem : (index, (0 : UInt8)) ∈ (declaredObjects sections).map Prod.fst) :
    (index, (0 : UInt8)) ∈ (objectsOf entries).map Prod.fst := by
  obtain ⟨d, hd, heq⟩ := List.mem_map.mp hmem
  obtain ⟨hdecl, hsection⟩ := mem_declaredObjects.mp hd
  rw [heq, if_pos rfl] at hsection
  obtain ⟨s, hvar⟩ := main_parsed h hsection hdecl (hvars index d.2 hsection hdecl)
  exact List.mem_map.mpr ⟨_, (mem_objectsOf h).mpr (.inl ⟨index, d.2, s, hsection, hvar, rfl⟩), rfl⟩

omit hunique in
theorem sub_declared_iff {index : UInt16} {sub : UInt8} (hne : sub ≠ 0) :
    (index, sub) ∈ (declaredObjects sections).map Prod.fst ↔
      ∃ e ∈ elements lang.toLang capacityOverrides sections index, e.subindex = sub := by
  rw [List.mem_map]
  constructor
  · rintro ⟨d, hd, heq⟩
    have hs : (sub, d.2) ∈ declaredSubs sections index := by
      rw [mem_declaredSubs, ← heq]
      exact ⟨hd, hne⟩
    obtain ⟨e, he, hsub, -⟩ := exists_element_of_declared h hs
    exact ⟨e, he, hsub⟩
  · rintro ⟨e, he, rfl⟩
    obtain ⟨props, hs, -⟩ := exists_declared_of_element he
    exact ⟨_, (mem_declaredSubs.mp hs).1, rfl⟩

theorem sub_imported_iff {index : UInt16} {sub : UInt8} (hne : sub ≠ 0) :
    (index, sub) ∈ (objectsOf entries).map Prod.fst ↔
      (Regrouped lang.toLang capacityOverrides sections index ∧
        ∃ i < (elements lang.toLang capacityOverrides sections index).length, sub = UInt8.ofNat (i + 1)) ∨
      (¬Regrouped lang.toLang capacityOverrides sections index ∧
        ∃ e ∈ elements lang.toLang capacityOverrides sections index, e.subindex = sub) := by
  rw [List.mem_map]
  constructor
  · rintro ⟨o, ho, heq⟩
    obtain ⟨hnil, hx⟩ := object_of_sub h hunique ho (by rw [heq]; exact hne)
    rw [heq] at hnil hx
    by_cases hgroup : Regrouped lang.toLang capacityOverrides sections index
    · obtain ⟨first, -, hmem⟩ := mem_objects_array hnil hgroup
      obtain ⟨i, hi, ho⟩ := (hmem o).mp hx
      rw [ho] at heq
      exact .inl ⟨hgroup, i, hi, (Prod.mk.inj heq).2.symm⟩
    · obtain ⟨e, he, ho⟩ := (mem_objects_record hnil hgroup).mp hx
      rw [ho] at heq
      exact .inr ⟨hgroup, e, he, (Prod.mk.inj heq).2⟩
  · rintro (⟨hgroup, i, hi, rfl⟩ | ⟨hgroup, e, he, rfl⟩)
    · have hnil : elements lang.toLang capacityOverrides sections index ≠ [] :=
        List.ne_nil_of_length_pos (Nat.zero_lt_of_lt hi)
      obtain ⟨first, -, hmem⟩ := mem_objects_array hnil hgroup
      exact ⟨_, (mem_objectsOf h).mpr (.inr ⟨index, hnil, (hmem _).mpr ⟨i, hi, rfl⟩⟩), rfl⟩
    · have hnil := List.ne_nil_of_mem he
      exact ⟨_, (mem_objectsOf h).mpr
        (.inr ⟨index, hnil, (mem_objects_record hnil hgroup).mpr ⟨e, he, rfl⟩⟩), rfl⟩

theorem array_attributes {index : UInt16} (hgroup : Regrouped lang.toLang capacityOverrides sections index) :
    ∃ first ∈ elements lang.toLang capacityOverrides sections index, ∀ o ∈ objectsOf entries,
      o.1.1 = index → o.1.2 ≠ 0 → o.2 = ⟨first.var.typeName, first.var.access, none⟩ := by
  have hnil : elements lang.toLang capacityOverrides sections index ≠ [] := by
    intro hnil
    have hfour := hgroup.2.1
    rw [hnil] at hfour
    exact absurd hfour (by decide)
  obtain ⟨first, hfirst, hmem⟩ := mem_objects_array hnil hgroup
  refine ⟨first, hfirst, ?_⟩
  rintro o ho rfl hne
  obtain ⟨i, -, heq⟩ := (hmem o).mp (object_of_sub h hunique ho hne).2
  rw [heq]

section Kept

variable (hp : Preserves lang sections entries)
include hp

theorem varsOnly_of_preserves : VarsOnly sections := by
  intro index props hsection hdecl
  have hd : ((index, (0 : UInt8)), props) ∈ declaredObjects sections :=
    mem_declaredObjects.mpr ⟨hdecl, hsection⟩
  obtain ⟨o, ho, heq⟩ := List.mem_map.mp ((hp.1 _).mpr (List.mem_map.mpr ⟨_, hd, rfl⟩))
  obtain ⟨props', s, hsection', hvar, -⟩ := object_of_main h hunique ho (by rw [heq])
  rw [heq] at hsection' hvar
  have hprops := (Prod.mk.inj (List.inj_on_of_nodup_map hunique hsection hsection' rfl)).2
  rw [hprops]
  exact hvar.1

include hlang in
theorem valuesKept_of_preserves : ValuesKept lang sections := by
  intro d hd
  obtain ⟨o, ho, heq⟩ := List.mem_map.mp ((hp.1 _).mpr (List.mem_map.mpr ⟨d, hd, rfl⟩))
  have hkeeps := hp.2 o ho d hd heq
  by_cases hzero : d.1.2 = 0
  · exact (main_keeps_iff hlang h hunique ho hd heq hzero).2.mp hkeeps
  · have hs : (d.1.2, d.2) ∈ declaredSubs sections o.1.1 := by
      rw [mem_declaredSubs, heq]
      exact ⟨hd, hzero⟩
    exact ((sub_keeps_iff hlang h hunique ho hs (by rw [heq])).mp hkeeps).2

include hlang in
theorem arraysUniform_of_preserves : ArraysUniform lang.toLang sections := by
  intro index harray
  have hgroup := (regrouped_iff h index).mpr harray
  have hlength := @length_declaredSubs _ _ _ _ h index
  -- every element is one of the generated ones
  have helement : ∀ s ∈ declaredSubs sections index, s.1.toNat ≤ (declaredSubs sections index).length ∧
      ∃ o ∈ objectsOf entries, o.1 = (index, s.1) ∧
        declaredType s.2 = some o.2.dataType ∧ declaredAccess s.2 = some o.2.access := by
    intro s hs
    obtain ⟨hd, hne⟩ := mem_declaredSubs.mp hs
    have hmem := (hp.1 _).mpr (List.mem_map.mpr ⟨_, hd, rfl⟩)
    obtain ⟨o, ho, heq⟩ := List.mem_map.mp hmem
    have hindex : o.1.1 = index := congrArg Prod.fst heq
    have hkeeps := hp.2 o ho _ hd heq
    rw [sub_keeps_iff hlang h hunique ho (by rw [hindex]; exact hs) (congrArg Prod.snd heq), hindex] at hkeeps
    refine ⟨?_, o, ho, heq, hkeeps.1 hgroup⟩
    rcases (sub_imported_iff h hunique hne).mp hmem with ⟨-, i, hi, hsub⟩ | ⟨hnot, -⟩
    · have hnat := congrArg UInt8.toNat hsub
      rw [UInt8.toNat_ofNat'] at hnat
      omega
    · exact (hnot hgroup).elim
  obtain ⟨first, -, hfirst⟩ := array_attributes h hunique hgroup
  intro s hs
  obtain ⟨hle, o, ho, heq, htype, haccess⟩ := helement s hs
  refine ⟨hle, fun s' hs' => ?_⟩
  obtain ⟨-, o', ho', heq', htype', haccess'⟩ := helement s' hs'
  have hne (s : UInt8 × Props) (hs : s ∈ declaredSubs sections index) : s.1 ≠ 0 := (mem_declaredSubs.mp hs).2
  have hattr := hfirst o ho (by rw [heq]) (by rw [heq]; exact hne s hs)
  have hattr' := hfirst o' ho' (by rw [heq']) (by rw [heq']; exact hne s' hs')
  rw [htype, haccess, htype', haccess', hattr, hattr']
  exact ⟨rfl, rfl⟩

end Kept

include hlang in
theorem preserves_of_conditions (hvars : VarsOnly sections) (hvalues : ValuesKept lang sections)
    (harrays : ArraysUniform lang.toLang sections) : Preserves lang sections entries := by
  constructor
  · rintro ⟨index, sub⟩
    by_cases hzero : sub = 0
    · subst hzero
      exact ⟨main_declared h hunique, main_imported h hvars⟩
    rw [sub_imported_iff h hunique hzero, sub_declared_iff h hzero]
    by_cases hgroup : Regrouped lang.toLang capacityOverrides sections index
    swap
    · simp [hgroup]
    have hle : ∀ e ∈ elements lang.toLang capacityOverrides sections index,
        e.subindex.toNat ≤ (elements lang.toLang capacityOverrides sections index).length := by
      intro e he
      obtain ⟨props, hs, -⟩ := exists_declared_of_element he
      have hfit := (harrays index ((regrouped_iff h index).mp hgroup) _ hs).1
      rwa [length_declaredSubs h] at hfit
    simp only [hgroup, true_and, not_true_eq_false, false_and, or_false]
    constructor
    · rintro ⟨i, hi, rfl⟩
      exact exists_element hunique hle hi
    · rintro ⟨e, he, rfl⟩
      have hpos : e.subindex.toNat ≠ 0 := fun h0 => hzero (UInt8.toNat_inj.mp h0)
      have hbound := hle e he
      refine ⟨e.subindex.toNat - 1, by omega, ?_⟩
      rw [Nat.sub_add_cancel (Nat.one_le_iff_ne_zero.mpr hpos), UInt8.ofNat_toNat]
  · intro o ho d hd heq
    by_cases hzero : d.1.2 = 0
    · exact (main_keeps_iff hlang h hunique ho hd heq hzero).2.mpr (hvalues d hd)
    · have hs : (d.1.2, d.2) ∈ declaredSubs sections o.1.1 := by
        rw [mem_declaredSubs, heq]
        exact ⟨hd, hzero⟩
      refine (sub_keeps_iff hlang h hunique ho hs (by rw [heq])).mpr ⟨?_, hvalues d hd⟩
      intro hgroup
      obtain ⟨first, hfirst, hsame⟩ := array_attributes h hunique hgroup
      obtain ⟨props, hs', hparse⟩ := exists_declared_of_element hfirst
      obtain ⟨htype, haccess, -⟩ := parseVarEntry_attributes hparse
      have huniform := (harrays _ ((regrouped_iff h _).mp hgroup) _ hs').2 _ hs
      rw [hsame o ho rfl (by rw [heq]; exact hzero), huniform.1, huniform.2]
      exact ⟨htype, haccess⟩

end Preservation

/-- An import keeps every declared object with what its own section says exactly when the main
sections of objects are those of variables, the initial values are ones the definition can have,
and the arrays are uniform. -/
theorem import_preserves_iff {lang : RustLang} (hlang : lang.ReadsLiterals)
    {capacityOverrides : UInt16 → Option ℕ} {content : List Char} {entries : List OdEntry}
    {pdos : List PdoDef}
    (h : parseEdsContent lang.toLang capacityOverrides content = .ok (entries, pdos)) :
    Preserves lang (parseSections content) entries ↔
      VarsOnly (parseSections content) ∧ ValuesKept lang (parseSections content) ∧
        ArraysUniform lang.toLang (parseSections content) := by
  obtain ⟨hnodup, entries₀, hentries, hpdos⟩ := parseEdsContent_ok h
  have hunique := objectSections_unique hnodup
  have hsame : objectsOf entries = objectsOf entries₀ := objectsOf_unmarked (importPdos_unmarked hpdos)
  have hp : Preserves lang (parseSections content) entries ↔
      Preserves lang (parseSections content) entries₀ := by
    unfold Preserves
    rw [hsame]
  rw [hp]
  constructor
  · exact fun hp => ⟨varsOnly_of_preserves hentries hunique hp,
      valuesKept_of_preserves hlang hentries hunique hp,
      arraysUniform_of_preserves hlang hentries hunique hp⟩
  · rintro ⟨hvars, hvalues, harrays⟩
    exact preserves_of_conditions hlang hentries hunique hvars hvalues harrays

/-! ## Two small files -/

/-- A number, a text, a real number, and an array of four elements, numbered from 1. -/
def uniformEds : List Char :=
  unlines (["[2000]".toList, "ParameterName=Speed".toList, "DataType=6".toList, "AccessType=rw".toList,
    "DefaultValue=0x0102".toList, "[2002]".toList, "ParameterName=Model".toList, "DataType=9".toList,
    "DefaultValue=A b".toList, "[2003]".toList, "ParameterName=Gain".toList, "DataType=8".toList,
    "DefaultValue=1.5".toList, "[2001]".toList, "ParameterName=Slots".toList, "ObjectType=8".toList] ++
    byteSection "[2001sub1]".toList ['A'] ++ byteSection "[2001sub2]".toList ['B'] ++
    byteSection "[2001sub3]".toList ['C'] ++ byteSection "[2001sub4]".toList ['D'])

/-- The same array without its third element, and with a fifth. -/
def gapEds : List Char :=
  unlines (["[2001]".toList, "ParameterName=Slots".toList, "ObjectType=8".toList] ++
    byteSection "[2001sub1]".toList ['A'] ++ byteSection "[2001sub2]".toList ['B'] ++
    byteSection "[2001sub4]".toList ['D'] ++ byteSection "[2001sub5]".toList ['E'])

def slotsEntry : OdEntry := ⟨0x2001, "slots".toList, .array ⟨.u8, none, 4, .ro, false⟩⟩

def uniformEntries : List OdEntry :=
  [⟨0x2000, "speed".toList, .var ⟨.u16, none, some (.int 0x0102), .rw, false⟩⟩, slotsEntry,
    ⟨0x2002, "model".toList, .var ⟨.visibleString, some 64, some (.source "\"A b\"".toList), .ro, false⟩⟩,
    ⟨0x2003, "gain".toList, .var ⟨.real32, none, some (.source "1.5f32".toList), .ro, false⟩⟩]

theorem uniformEds_varsOnly : VarsOnly (parseSections uniformEds) := by
  have hall : ∀ o ∈ objectSections (parseSections uniformEds), o.1.2 = none → declares o.2 = true →
      objectType o.2 = 0x07 := by
    decide
  exact fun index props ho hdecl => hall _ ho rfl hdecl

theorem single_kept : single.Kept "1.5".toList := by
  have hreal : decimalReal "1.5".toList = some (((15 : ℕ) : ℚ) / 10 ^ 1) := rfl
  have hnumber : single.number "1.5".toList = some (.real (((15 : ℕ) : ℚ) / 10 ^ 1)) := by
    rw [RealFormat.number, hreal, Option.filter_some, if_pos, Option.map_some]
    norm_num [RealFormat.limit, single]
  refine ⟨?_, by decide⟩
  change (single.number "1.5".toList).isSome = true
  rw [hnumber]
  rfl

theorem uniformEds_valuesKept : ValuesKept literalLang (parseSections uniformEds) := by
  have hall : ∀ d ∈ declaredObjects (parseSections uniformEds),
      (declaredType d.2 = some .u8 ∨ declaredType d.2 = some .u16) ∧
        namesNodeId (trim ((getProp d.2 "DefaultValue".toList).getD [])) = false ∨
      declaredType d.2 = some .visibleString ∧ getProp d.2 "DefaultValue".toList = some "A b".toList ∨
      declaredType d.2 = some .real32 ∧ getProp d.2 "DefaultValue".toList = some "1.5".toList := by
    decide
  intro d hd t ht
  rcases hall d hd with ⟨htype | htype, hnode⟩ | ⟨htype, hvalue⟩ | ⟨htype, hvalue⟩ <;>
    rw [htype] at ht <;> cases ht
  · exact ⟨hnode, .inr fun f hf => by cases hf⟩
  · exact ⟨hnode, .inr fun f hf => by cases hf⟩
  · rw [hvalue]
    exact ⟨rfl, .inr (.inl (by decide))⟩
  · rw [hvalue]
    refine ⟨by decide, .inr ?_⟩
    rintro f ⟨⟩
    exact single_kept

theorem uniformEds_arraysUniform : ArraysUniform literalLang.toLang (parseSections uniformEds) := by
  have hall : ∀ d ∈ declaredObjects (parseSections uniformEds), d.1.2 ≠ 0 →
      d.1.2.toNat ≤ (declaredSubs (parseSections uniformEds) d.1.1).length ∧
        ∀ s' ∈ declaredSubs (parseSections uniformEds) d.1.1,
          declaredType s'.2 = declaredType d.2 ∧ declaredAccess s'.2 = declaredAccess d.2 := by
    decide
  intro index _ s hs
  obtain ⟨hd, hne⟩ := mem_declaredSubs.mp hs
  exact hall _ hd hne

theorem import_preserves_uniform :
    parseEdsContent literalLang.toLang (fun _ => none) uniformEds = .ok (uniformEntries, []) ∧
      Preserves literalLang (parseSections uniformEds) uniformEntries := by
  have hok : parseEdsContent literalLang.toLang (fun _ => none) uniformEds = .ok (uniformEntries, []) := by
    rw [parseEdsContent_recorded]
    decide
  exact ⟨hok, (import_preserves_iff literalLang_reads hok).mpr
    ⟨uniformEds_varsOnly, uniformEds_valuesKept, uniformEds_arraysUniform⟩⟩

theorem gapEds_import :
    parseEdsContent literalLang.toLang (fun _ => none) gapEds = .ok ([slotsEntry], []) := by
  rw [parseEdsContent_recorded]
  decide

/-- The fifth element is lost and a third one invented. -/
theorem import_loses_element :
    parseEdsContent literalLang.toLang (fun _ => none) gapEds = .ok ([slotsEntry], []) ∧
      ¬Preserves literalLang (parseSections gapEds) [slotsEntry] := by
  refine ⟨gapEds_import, ?_⟩
  intro hp
  have hfifth : (0x2001, 5) ∈ (declaredObjects (parseSections gapEds)).map Prod.fst := by
    decide
  exact absurd ((hp.1 _).mpr hfifth) (by decide)

end Canopen.Eds
