import Canopen.Eds.Written

/-!
# The sections of an exported file

The keys of an exported file are keys, and its values are trimmed lines but for the default
values, which may be any text.
-/

namespace Canopen.Eds

open Text

/-! ## Trimmed lines -/

/-- A line without white space at its ends. -/
structure CleanValue (v : List Char) : Prop where
  line : '\n' ∉ v
  head : ∀ c ∈ v.head?, isWhite c = false
  last : ∀ c ∈ v.getLast?, isWhite c = false

theorem CleanValue.trim_eq {v : List Char} (h : CleanValue v) : trim v = v :=
  trimMatches_of_ends h.head h.last

theorem cleanValue_of_forall {v : List Char} (h : ∀ c ∈ v, isWhite c = false) : CleanValue v where
  line := by
    intro hmem
    have hwhite := h '\n' hmem
    revert hwhite
    decide
  head := fun c hc => h c (List.mem_of_mem_head? hc)
  last := fun c hc => h c (List.mem_of_mem_getLast? hc)

/-- Texts of constants are checked by evaluation. -/
def isClean (v : List Char) : Bool :=
  !v.contains '\n' && !v.head?.any isWhite && !v.getLast?.any isWhite

theorem cleanValue_of_isClean {v : List Char} (h : isClean v = true) : CleanValue v := by
  simp only [isClean, Bool.and_eq_true, Bool.not_eq_true', List.contains_eq_mem,
    decide_eq_false_iff_not] at h
  obtain ⟨⟨hline, hhead⟩, hlast⟩ := h
  constructor
  · exact hline
  · intro c hc
    rw [Option.mem_def.mp hc] at hhead
    exact hhead
  · intro c hc
    rw [Option.mem_def.mp hc] at hlast
    exact hlast

theorem CleanValue.append {a b : List Char} (ha : CleanValue a) (hb : CleanValue b) :
    CleanValue (a ++ b) := by
  constructor
  · intro hmem
    rcases List.mem_append.mp hmem with hmem | hmem
    · exact ha.line hmem
    · exact hb.line hmem
  · intro c hc
    rw [List.head?_append] at hc
    cases hhead : a.head? with
    | none =>
      rw [hhead] at hc
      exact hb.head c hc
    | some d =>
      rw [hhead] at hc
      cases hc
      exact ha.head c hhead
  · intro c hc
    rw [List.getLast?_append] at hc
    cases hlast : b.getLast? with
    | none =>
      rw [hlast] at hc
      exact ha.last c hc
    | some d =>
      rw [hlast] at hc
      cases hc
      exact hb.last c hlast

theorem notWhite_of_digits {base n : ℕ} {l : List Char} (h : digits base l = some n) :
    ∀ c ∈ l, isWhite c = false := fun c hc => isWhite_of_charValue (charValue_of_digits h c hc)

theorem cleanValue_of_digits {base n : ℕ} {l : List Char} (h : digits base l = some n) : CleanValue l :=
  cleanValue_of_forall (notWhite_of_digits h)

theorem cleanValue_decimal (n : ℕ) : CleanValue (decimal n) := cleanValue_of_digits (digits_decimal n)

theorem cleanValue_hexText (n : ℕ) : CleanValue (hexText n) := by
  apply CleanValue.append
  · exact cleanValue_of_isClean (by decide)
  · exact cleanValue_of_digits (digits_hex n)

theorem cleanValue_padded (width n : ℕ) : CleanValue ("0x".toList ++ pad width (hex n)) := by
  apply CleanValue.append
  · exact cleanValue_of_isClean (by decide)
  · exact cleanValue_of_digits (digits_pad (by decide) width (digits_hex n))

theorem cleanValue_of_isName {l : List Char} (h : isName l = true) : CleanValue l := by
  apply cleanValue_of_forall
  intro c hc
  have hchar := List.all_eq_true.mp (Bool.and_eq_true_iff.mp h).2 c hc
  simpa using hchar

/-! ## Properties -/

/-- A property that is read back, or one with a value of `defaults`. -/
def WrittenProp (defaults : List Char → Prop) (p : List Char × List Char) : Prop :=
  isKey p.1 = true ∧ (CleanValue p.2 ∨ defaults p.2)

section Properties

variable {defaults : List Char → Prop}

theorem writtenProp_objectProps {name access default : List Char} {code : ℕ} {pdoMappable : Bool}
    (hname : CleanValue name) (haccess : CleanValue access)
    (hdefault : CleanValue default ∨ defaults default) :
    ∀ p ∈ objectProps name code access default pdoMappable, WrittenProp defaults p := by
  unfold objectProps
  simp only [List.forall_mem_cons, WrittenProp]
  refine ⟨⟨by decide, .inl hname⟩, ⟨by decide, .inl (cleanValue_of_isClean (by decide))⟩,
    ⟨by decide, .inl (cleanValue_padded 4 code)⟩, ⟨by decide, .inl haccess⟩, ⟨by decide, hdefault⟩,
    ⟨by decide, .inl ?_⟩, by simp⟩
  cases pdoMappable <;> exact cleanValue_of_isClean (by decide)

theorem writtenProp_headerProps {name objectType : List Char} {subNumber : ℕ} (hname : CleanValue name)
    (htype : CleanValue objectType) :
    ∀ p ∈ headerProps name objectType subNumber, WrittenProp defaults p := by
  unfold headerProps
  simp only [List.forall_mem_cons, WrittenProp]
  exact ⟨⟨by decide, .inl hname⟩, ⟨by decide, .inl htype⟩,
    ⟨by decide, .inl (cleanValue_decimal subNumber)⟩, by simp⟩

theorem cleanValue_access (access : AccessType) : CleanValue (accessToEds access) := by
  cases access <;> exact cleanValue_of_isClean (by decide)

theorem writtenProp_flat {f : FlatEdsEntry} (hname : CleanValue f.name) (hdefault : defaults f.defaultValue) :
    ∀ p ∈ f.props, WrittenProp defaults p :=
  writtenProp_objectProps hname (cleanValue_access f.access) (.inr hdefault)

theorem writtenProp_flatProps {flat : List FlatEdsEntry} (hnames : ∀ f ∈ flat, CleanValue f.name)
    (hdefaults : ∀ f ∈ flat, defaults f.defaultValue) (index : UInt16) (sub : UInt8) :
    ∀ p ∈ flatProps flat index sub, WrittenProp defaults p := by
  unfold flatProps
  cases hf : flat.find? fun f => f.index == index && f.subindex == sub with
  | none => simp
  | some f =>
    have hmem := List.mem_of_find?_eq_some hf
    exact writtenProp_flat (hnames f hmem) (hdefaults f hmem)

theorem writtenProp_countProps (count : ℕ) : ∀ p ∈ countProps count, WrittenProp defaults p :=
  writtenProp_objectProps (cleanValue_of_isClean (by decide)) (cleanValue_of_isClean (by decide))
    (.inl (cleanValue_decimal count))

end Properties

/-! ## Sections -/

/-- A section with a name and properties that are read back, but for the `defaults`. -/
structure WrittenSection (defaults : List Char → Prop) (s : Section) : Prop where
  name : '\n' ∉ s.name ∧ s.name ≠ []
  props : ∀ p ∈ s.props, WrittenProp defaults p

theorem name_of_digits {n : ℕ} {l : List Char} (h : digits 16 l = some n) : '\n' ∉ l ∧ l ≠ [] := by
  refine ⟨(cleanValue_of_digits h).line, ?_⟩
  rintro rfl
  cases h

theorem name_elementText (index : UInt16) (n : ℕ) : '\n' ∉ elementText index n ∧ elementText index n ≠ [] := by
  obtain ⟨hline, hne⟩ := name_of_digits (digits_indexText index)
  have hsub := (name_of_digits (digits_hex n)).1
  unfold elementText
  constructor
  · intro hmem
    simp only [List.mem_append] at hmem
    rcases hmem with (hmem | hmem) | hmem
    · exact hline hmem
    · revert hmem
      decide
    · exact hsub hmem
  · simp [hne]

theorem name_subText (index : UInt16) (sub : UInt8) : '\n' ∉ subText index sub ∧ subText index sub ≠ [] :=
  name_elementText index sub.toNat

section Sections

variable {defaults : List Char → Prop}

theorem written_generatedSub {index : UInt16} {sub : UInt8} {name access default : List Char} {code : ℕ}
    (hname : CleanValue name) (haccess : CleanValue access) (hdefault : CleanValue default) :
    WrittenSection defaults (generatedSub index sub name code access default) :=
  ⟨name_subText index sub, writtenProp_objectProps hname haccess (.inl hdefault)⟩

theorem written_header {index : UInt16} {name objectType : List Char} {subNumber : ℕ}
    (hname : CleanValue name) (htype : isClean objectType = true) :
    WrittenSection defaults ⟨indexText index, headerProps name objectType subNumber⟩ :=
  ⟨name_of_digits (digits_indexText index), writtenProp_headerProps hname (cleanValue_of_isClean htype)⟩

theorem cleanValue_recordName (direction : Derive.PdoDirection) (number : ℕ) {what : List Char}
    (hline : '\n' ∉ what) (hlast : what.getLast?.any isWhite = false) (hne : what ≠ []) :
    CleanValue (directionName direction ++ decimal number ++ what) := by
  have hfront : CleanValue (directionName direction ++ decimal number) := by
    apply CleanValue.append
    · cases direction <;> exact cleanValue_of_isClean (by decide)
    · exact cleanValue_decimal number
  constructor
  · intro hmem
    rcases List.mem_append.mp hmem with hmem | hmem
    · exact hfront.line hmem
    · exact hline hmem
  · intro c hc
    have hne' : directionName direction ++ decimal number ≠ [] := by
      cases direction <;> exact List.cons_ne_nil _ _
    rw [List.head?_append_of_ne_nil _ hne'] at hc
    exact hfront.head c hc
  · intro c hc
    rw [List.getLast?_append_of_ne_nil _ hne] at hc
    rw [Option.mem_def.mp hc] at hlast
    exact hlast

theorem cleanValue_cobId {p : Derive.PdoDef} {cobId : List Char} (h : pdoCobIdDefault p = some cobId) :
    CleanValue cobId := by
  have hrelative : ∀ n : ℕ, CleanValue ("$NODEID+0x".toList ++ hex n) := fun n =>
    (cleanValue_of_isClean (by decide)).append (cleanValue_of_digits (digits_hex n))
  unfold pdoCobIdDefault at h
  split at h
  · cases h
    exact cleanValue_hexText _
  · cases h
    exact hrelative _
  · unfold predefinedPdoCobId at h
    split_ifs at h
    cases h
    exact hrelative _

theorem written_commSections {p : Derive.PdoDef} {cobId : List Char} (h : pdoCobIdDefault p = some cobId) :
    ∀ s ∈ commSections p cobId, WrittenSection defaults s := by
  have hrw : CleanValue "rw".toList := cleanValue_of_isClean (by decide)
  have hro : CleanValue "ro".toList := cleanValue_of_isClean (by decide)
  have hname : CleanValue (directionName p.direction ++ decimal p.number.toNat ++ " Communication".toList) :=
    cleanValue_recordName _ _ (by decide) (by decide) (by decide)
  have hinhibit : ∀ s ∈ (if p.direction = .tpdo then
      [generatedSub p.commIdx 3 "Inhibit Time".toList 0x0006 "rw".toList (hexText p.inhibitTime.toNat)]
      else []), WrittenSection defaults s := by
    split_ifs
    · simp only [List.forall_mem_cons]
      exact ⟨written_generatedSub (cleanValue_of_isClean (by decide)) hrw (cleanValue_hexText _), by simp⟩
    · simp
  unfold commSections
  simp only [List.forall_mem_append, List.forall_mem_cons]
  refine ⟨⟨⟨written_header hname (by decide), ?_, ?_, ?_, by simp⟩, hinhibit⟩, ?_, by simp⟩
  · exact written_generatedSub (cleanValue_of_isClean (by decide)) hro (cleanValue_of_isClean (by decide))
  · exact written_generatedSub (cleanValue_of_isClean (by decide)) hrw (cleanValue_cobId h)
  · exact written_generatedSub (cleanValue_of_isClean (by decide)) hrw (cleanValue_hexText _)
  · exact written_generatedSub (cleanValue_of_isClean (by decide)) hrw (cleanValue_hexText _)

theorem cleanValue_mapAccess (p : Derive.PdoDef) : CleanValue (mapAccessText p) := by
  unfold mapAccessText
  split_ifs <;> exact cleanValue_of_isClean (by decide)

theorem written_mapSections (p : Derive.PdoDef) : ∀ s ∈ mapSections p, WrittenSection defaults s := by
  have hname : CleanValue (directionName p.direction ++ decimal p.number.toNat ++ " Mapping".toList) :=
    cleanValue_recordName _ _ (by decide) (by decide) (by decide)
  have hcount : ∀ q ∈ mappingCountProps p, WrittenProp defaults q := by
    unfold mappingCountProps
    simp only [List.forall_mem_append]
    constructor
    · exact writtenProp_objectProps (cleanValue_of_isClean (by decide)) (cleanValue_mapAccess p)
        (.inl (cleanValue_hexText _))
    · split_ifs
      · simp only [List.forall_mem_cons, WrittenProp]
        exact ⟨⟨by decide, .inl (cleanValue_of_isClean (by decide))⟩,
          ⟨by decide, .inl (cleanValue_decimal _)⟩, by simp⟩
      · simp
  unfold mapSections
  simp only [List.forall_mem_cons]
  refine ⟨written_header hname (by decide), ⟨name_subText _ _, hcount⟩, ?_⟩
  intro s hs
  obtain ⟨i, -, rfl⟩ := List.mem_map.mp hs
  have hentry : CleanValue ("Mapping Entry ".toList ++ decimal (i + 1)) := by
    obtain ⟨hline, -, hlast⟩ := cleanValue_decimal (i + 1)
    have hne : decimal (i + 1) ≠ [] := by
      intro hnil
      have hdigits := digits_decimal (i + 1)
      rw [hnil] at hdigits
      cases hdigits
    constructor
    · intro hmem
      rcases List.mem_append.mp hmem with hmem | hmem
      · revert hmem
        decide
      · exact hline hmem
    · rintro c ⟨⟩
      decide
    · intro c hc
      rw [List.getLast?_append_of_ne_nil _ hne] at hc
      exact hlast c hc
  exact written_generatedSub hentry (cleanValue_mapAccess p) (cleanValue_padded 8 _)

theorem cleanValue_cobIdSpecEds (spec : Derive.CobIdSpec) : CleanValue (cobIdSpecEds spec) := by
  cases spec with
  | absolute id => exact cleanValue_hexText _
  | nodeRelative base =>
    exact (cleanValue_of_isClean (by decide)).append (cleanValue_of_digits (digits_hex _))

theorem written_sdoServerSections (s : Derive.SdoServerDef) :
    ∀ t ∈ sdoServerSections s, WrittenSection defaults t := by
  have hro : CleanValue "ro".toList := cleanValue_of_isClean (by decide)
  unfold sdoServerSections
  simp only [List.forall_mem_cons]
  refine ⟨written_header (cleanValue_of_isClean (by decide)) (by decide), ?_, ?_, ?_, by simp⟩
  · exact written_generatedSub (cleanValue_of_isClean (by decide)) hro (cleanValue_of_isClean (by decide))
  · exact written_generatedSub (cleanValue_of_isClean (by decide)) hro (cleanValue_cobIdSpecEds _)
  · exact written_generatedSub (cleanValue_of_isClean (by decide)) hro (cleanValue_cobIdSpecEds _)

theorem written_constant {s : Section} (hname : !s.name.isEmpty && !s.name.contains '\n')
    (hprops : s.props.all fun p => isKey p.1 && isClean p.2) : WrittenSection defaults s := by
  simp only [Bool.and_eq_true, Bool.not_eq_true', List.isEmpty_eq_false_iff, List.contains_eq_mem,
    decide_eq_false_iff_not] at hname
  refine ⟨hname.symm, ?_⟩
  intro p hp
  obtain ⟨hkey, hclean⟩ := Bool.and_eq_true_iff.mp (List.all_eq_true.mp hprops p hp)
  exact ⟨hkey, .inl (cleanValue_of_isClean hclean)⟩

theorem written_selfDescription : ∀ s ∈ selfDescription, WrittenSection defaults s := by
  unfold selfDescription
  simp only [List.forall_mem_cons]
  exact ⟨written_constant (by decide) (by decide), written_constant (by decide) (by decide), by simp⟩

theorem isKey_decimal (n : ℕ) : isKey (decimal n) = true := by
  have hne : decimal n ≠ [] := by
    intro hnil
    have hdigits := digits_decimal n
    rw [hnil] at hdigits
    cases hdigits
  rw [isKey, Bool.and_eq_true, Bool.not_eq_true', List.isEmpty_eq_false_iff, List.all_eq_true]
  refine ⟨hne, ?_⟩
  intro c hc
  rw [charValue_of_digits (digits_decimal n) c hc, Bool.true_or]

theorem written_indexList {name : List Char} (hname : !name.isEmpty && !name.contains '\n')
    (indices : List UInt16) : WrittenSection defaults (indexList name indices) := by
  simp only [Bool.and_eq_true, Bool.not_eq_true', List.isEmpty_eq_false_iff, List.contains_eq_mem,
    decide_eq_false_iff_not] at hname
  refine ⟨hname.symm, ?_⟩
  unfold indexList
  simp only [List.forall_mem_cons]
  have hkey : isKey "SupportedObjects".toList = true := by decide
  refine ⟨⟨hkey, .inl (cleanValue_decimal _)⟩, ?_⟩
  intro p hp
  obtain ⟨i, hi, rfl⟩ := List.mem_mapIdx.mp hp
  exact ⟨isKey_decimal _, .inl (cleanValue_padded 4 _)⟩

end Sections

/-! ## Whole files -/

/-- A list of computations succeeds when each does. -/
theorem mapM_eq_some {α β : Type} {f : α → Option β} {l : List α} {l' : List β} :
    l.mapM f = some l' ↔ List.Forall₂ (fun a b => f a = some b) l l' := by
  induction l generalizing l' with
  | nil =>
    constructor
    · rintro ⟨⟩
      exact .nil
    · rintro ⟨⟩
      rfl
  | cons a l ih =>
    rw [List.mapM_cons]
    constructor
    · intro h
      obtain ⟨b, hb, h⟩ := Option.bind_eq_some_iff.mp h
      obtain ⟨bs, hbs, h⟩ := Option.bind_eq_some_iff.mp h
      cases h
      exact .cons hb (ih.mp hbs)
    · intro h
      cases h with
      | cons hb hbs =>
        rw [hb, ih.mpr hbs]
        rfl

theorem exists_of_forall₂ {α β : Type} {r : α → β → Prop} {l : List α} {l' : List β}
    (h : List.Forall₂ r l l') {b : β} (hb : b ∈ l') : ∃ a ∈ l, r a b := by
  induction h with
  | nil => exact (List.not_mem_nil hb).elim
  | @cons a b' l l' hab _ ih =>
    rcases List.mem_cons.mp hb with rfl | hmem
    · exact ⟨a, List.mem_cons_self, hab⟩
    · obtain ⟨a', ha', hr⟩ := ih hmem
      exact ⟨a', List.mem_cons_of_mem a ha', hr⟩

theorem edsSections_eq {syn : Syn} {d : OdDefinition} {sections : List Section}
    (h : edsSections syn d = some sections) :
    ∃ pdos written, d.resolvedPdos = some pdos ∧
      List.Forall₂ (fun p s => pdoSections p = some s) pdos written ∧
      sections = [fileInfo d, deviceInfo d (flattenForEds syn d.entries)] ++ indexSections d ++
        d.entries.flatMap (OdEntry.edsSections (flattenForEds syn d.entries)) ++ written.flatten ++
        d.sdoServers.flatMap sdoServerSections ++ selfDescription := by
  obtain ⟨files, hfiles, rfl⟩ := Option.map_eq_some_iff.mp h
  obtain ⟨pdos, hpdos, hwritten⟩ := Option.bind_eq_some_iff.mp hfiles
  obtain ⟨written, hmap, rfl⟩ := Option.map_eq_some_iff.mp hwritten
  exact ⟨pdos, written, hpdos, mapM_eq_some.mp hmap, rfl⟩

theorem cleanValue_names {d : OdDefinition} (h : d.parsed = true) {e : OdEntry} (he : e ∈ d.entries)
    {name : List Char} (hname : name ∈ e.names) : CleanValue name := by
  have hnames := (Bool.and_eq_true_iff.mp (Bool.and_eq_true_iff.mp h).1).1
  apply cleanValue_of_isName
  apply List.all_eq_true.mp hnames
  exact List.mem_cons_of_mem _ (List.mem_flatMap.mpr ⟨e, he, hname⟩)

theorem cleanValue_flat {syn : Syn} {d : OdDefinition} (h : d.parsed = true) {f : FlatEdsEntry}
    (hf : f ∈ flattenForEds syn d.entries) : CleanValue f.name := by
  obtain ⟨e, he, hf⟩ := List.mem_flatMap.mp hf
  have hnames : ∀ name ∈ e.names, CleanValue name := fun name => cleanValue_names h he
  obtain ⟨index, name, kind⟩ := e
  cases kind with
  | var v =>
    rw [List.mem_singleton.mp hf]
    exact hnames name (List.mem_singleton.mpr rfl)
  | record subs =>
    obtain ⟨s, hs, rfl⟩ := List.mem_map.mp hf
    exact hnames s.name (List.mem_cons_of_mem _ (List.mem_map_of_mem hs))
  | array a =>
    obtain ⟨i, -, rfl⟩ := List.mem_map.mp hf
    have hname := hnames name (List.mem_singleton.mpr rfl)
    have hunder : CleanValue ['_'] := cleanValue_of_isClean (by decide)
    exact hname.append (hunder.append (cleanValue_decimal (i + 1)))

/-- The defaults of an exported file. -/
def IsDefault (flat : List FlatEdsEntry) (v : List Char) : Prop := ∃ f ∈ flat, v = f.defaultValue

theorem written_entry {flat : List FlatEdsEntry} (hflat : ∀ f ∈ flat, CleanValue f.name) {e : OdEntry}
    (hname : CleanValue e.name) : ∀ s ∈ e.edsSections flat, WrittenSection (IsDefault flat) s := by
  have hprops : ∀ index sub, ∀ p ∈ flatProps flat index sub, WrittenProp (IsDefault flat) p :=
    writtenProp_flatProps hflat fun f hf => ⟨f, hf, rfl⟩
  obtain ⟨index, name, kind⟩ := e
  cases kind with
  | var v =>
    intro s hs
    rw [List.mem_singleton.mp hs]
    exact ⟨name_of_digits (digits_indexText index), hprops index 0⟩
  | record subs =>
    simp only [OdEntry.edsSections, List.forall_mem_cons]
    refine ⟨written_header hname (by decide), ⟨name_subText _ _, writtenProp_countProps _⟩, ?_⟩
    intro s hs
    obtain ⟨t, -, rfl⟩ := List.mem_map.mp hs
    exact ⟨name_subText _ _, hprops _ _⟩
  | array a =>
    simp only [OdEntry.edsSections, List.forall_mem_cons]
    refine ⟨written_header hname (by decide), ⟨name_subText _ _, writtenProp_countProps _⟩, ?_⟩
    intro s hs
    obtain ⟨i, -, rfl⟩ := List.mem_map.mp hs
    exact ⟨name_elementText _ _, hprops _ _⟩

theorem isDefault_identity (flat : List FlatEdsEntry) (sub : UInt8) :
    CleanValue (identity flat sub) ∨ IsDefault flat (identity flat sub) := by
  unfold identity
  cases hf : flat.find? fun f => f.index == 0x1018 && f.subindex == sub with
  | none => exact .inl (cleanValue_of_isClean (by decide))
  | some f => exact .inr ⟨f, List.mem_of_find?_eq_some hf, rfl⟩

theorem written_deviceInfo {d : OdDefinition} (hname : CleanValue d.name) (flat : List FlatEdsEntry) :
    WrittenSection (IsDefault flat) (deviceInfo d flat) := by
  have hrates : ∀ rate ∈ baudRates, isKey ("BaudRate_".toList ++ rate) = true := by decide
  have hzero : CleanValue ['0'] := cleanValue_of_isClean (by decide)
  have hone : CleanValue ['1'] := cleanValue_of_isClean (by decide)
  have hkeys : ∀ key ∈ ["VendorName".toList, "VendorNumber".toList, "ProductName".toList,
      "ProductNumber".toList, "RevisionNumber".toList, "SimpleBootUpMaster".toList,
      "SimpleBootUpSlave".toList, "Granularity".toList, "DynamicChannelsSupported".toList,
      "GroupMessaging".toList, "NrOfRXPDO".toList, "NrOfTXPDO".toList, "LSS_Supported".toList],
      isKey key = true := by decide
  simp only [List.forall_mem_cons] at hkeys
  obtain ⟨h1, h2, h3, h4, h5, h6, h7, h8, h9, h10, h11, h12, h13, -⟩ := hkeys
  have hboot : ∀ p ∈ baudRates.map (fun rate => ("BaudRate_".toList ++ rate, ['1'])),
      WrittenProp (IsDefault flat) p := by
    intro p hp
    obtain ⟨rate, hrate, rfl⟩ := List.mem_map.mp hp
    exact ⟨hrates rate hrate, .inl hone⟩
  have hsection : '\n' ∉ "DeviceInfo".toList ∧ "DeviceInfo".toList ≠ [] := by decide
  constructor
  · exact hsection
  · unfold deviceInfo
    simp only [List.forall_mem_append, List.forall_mem_cons]
    refine ⟨⟨⟨⟨h1, .inl (cleanValue_of_isClean (by decide))⟩, ⟨h2, isDefault_identity flat 1⟩,
      ⟨h3, .inl hname⟩, ⟨h4, isDefault_identity flat 2⟩, ⟨h5, isDefault_identity flat 3⟩, by simp⟩, hboot⟩,
      ⟨h6, .inl hzero⟩, ⟨h7, .inl hone⟩, ⟨h8, .inl hone⟩, ⟨h9, .inl hzero⟩, ⟨h10, .inl hzero⟩,
      ⟨h11, .inl (cleanValue_decimal _)⟩, ⟨h12, .inl (cleanValue_decimal _)⟩, ⟨h13, .inl hone⟩, by simp⟩

theorem written_indexSections {defaults : List Char → Prop} (d : OdDefinition) :
    ∀ s ∈ indexSections d, WrittenSection defaults s := by
  unfold indexSections
  dsimp only
  simp only [List.forall_mem_append, List.forall_mem_cons]
  refine ⟨⟨written_indexList (by decide) _, written_indexList (by decide) _, written_indexList (by decide) _,
    by simp⟩, ?_⟩
  split_ifs
  · simp
  · simp only [List.forall_mem_cons]
    exact ⟨written_indexList (by decide) _, by simp⟩

/-- Only the defaults of an exported file may be more than a trimmed line. -/
theorem written_edsSections {syn : Syn} {d : OdDefinition} (hparsed : d.parsed = true)
    {sections : List Section} (h : edsSections syn d = some sections) :
    ∀ s ∈ sections, WrittenSection (IsDefault (flattenForEds syn d.entries)) s := by
  obtain ⟨pdos, written, -, hwritten, rfl⟩ := edsSections_eq h
  have hnames := (Bool.and_eq_true_iff.mp (Bool.and_eq_true_iff.mp hparsed).1).1
  have hname : CleanValue d.name := cleanValue_of_isName (List.all_eq_true.mp hnames _ List.mem_cons_self)
  have hfile : WrittenSection (IsDefault (flattenForEds syn d.entries)) (fileInfo d) := by
    have hsection : '\n' ∉ "FileInfo".toList ∧ "FileInfo".toList ≠ [] := by decide
    have hkey : isKey "FileName".toList = true := by decide
    have heds : CleanValue ".eds".toList := cleanValue_of_isClean (by decide)
    constructor
    · exact hsection
    · unfold fileInfo
      simp only [List.forall_mem_cons]
      exact ⟨⟨hkey, .inl (hname.append heds)⟩,
        ⟨by decide, .inl (cleanValue_of_isClean (by decide))⟩,
        ⟨by decide, .inl (cleanValue_of_isClean (by decide))⟩, by simp⟩
  intro s hs
  simp only [List.mem_append, or_assoc] at hs
  rcases hs with hs | hs | hs | hs | hs | hs
  · rcases List.mem_cons.mp hs with rfl | hs
    · exact hfile
    · rw [List.mem_singleton.mp hs]
      exact written_deviceInfo hname _
  · exact written_indexSections d s hs
  · obtain ⟨e, he, hs⟩ := List.mem_flatMap.mp hs
    have hentry : e.name ∈ e.names := by
      unfold OdEntry.names
      split <;> exact List.mem_cons_self
    exact written_entry (fun f hf => cleanValue_flat hparsed hf) (cleanValue_names hparsed he hentry) s hs
  · obtain ⟨ss, hss, hs⟩ := List.mem_flatten.mp hs
    obtain ⟨p, -, hp⟩ := exists_of_forall₂ hwritten hss
    obtain ⟨cobId, hcobId, rfl⟩ := Option.map_eq_some_iff.mp hp
    rcases List.mem_append.mp hs with hs | hs
    · exact written_commSections hcobId s hs
    · exact written_mapSections p s hs
  · obtain ⟨server, -, hs⟩ := List.mem_flatMap.mp hs
    exact written_sdoServerSections server s hs
  · exact written_selfDescription s hs

end Canopen.Eds
