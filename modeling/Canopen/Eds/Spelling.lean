import Canopen.Eds.Headers
import Canopen.Eds.Layout
import Canopen.Eds.Sections

/-!
# Spellings of section names

An address has many spellings. Ordinary objects are found by address, but the records of PDOs by
the text of the name (`extract_pdos`), so the importer does not see every spelling of those.
-/

namespace Canopen.Eds

open Pdo Text
open Derive (PdoDirection)

/-! ## Respelling -/

/-- The spelling of one header is replaced. -/
def ReplacesHeader (old new content content' : List Char) : Prop :=
  ∃ before line line' after, lines content = before ++ line :: after ∧
    lines content' = before ++ line' :: after ∧ headerName line = some old ∧ headerName line' = some new

/-- The entries and PDOs of a text, if it is accepted. -/
def imported (lang : Lang) (capacityOverrides : UInt16 → Option ℕ) (content : List Char) :
    Option (List OdEntry × List PdoDef) :=
  (parseEdsContent lang capacityOverrides content).toOption

/-- The sections that the PDOs are read from, with the texts that they are looked up by. -/
inductive ReadByPdos : Address → List Char → Prop
  | record (direction : PdoDirection) (n : ℕ) (hn : n < 512) :
      ReadByPdos (direction.commBase + UInt16.ofNat n, none) (indexText (direction.commBase + UInt16.ofNat n))
  | parameter (direction : PdoDirection) (n : ℕ) (hn : n < 512) (sub : UInt8)
      (hsub : sub = 1 ∨ sub = 2 ∨ sub = 5 ∨ direction = .tpdo ∧ sub = 3) :
      ReadByPdos (direction.commBase + UInt16.ofNat n, some sub)
        (subText (direction.commBase + UInt16.ofNat n) sub)
  | mapping (direction : PdoDirection) (n : ℕ) (hn : n < 512) (sub : UInt8)
      (hsub : sub.toNat ≤ pdoMaxMappings) :
      ReadByPdos (direction.mapBase + UInt16.ofNat n, some sub)
        (subText (direction.mapBase + UInt16.ofNat n) sub)

/-- The PDOs see both spellings of an address, or neither. -/
def SeenAlike (address : Address) (old new : List Char) : Prop :=
  ∀ key, ReadByPdos address key → eqIgnoreAsciiCase old key = eqIgnoreAsciiCase new key

/-- The sections that the PDOs of a file are read from: those with a communication record have
parameters, and as many mapping entries as they count. -/
inductive ReadIn (sections : List Section) : Address → List Char → Prop
  | record (direction : PdoDirection) (n : ℕ) (hn : n < 512) :
      ReadIn sections (direction.commBase + UInt16.ofNat n, none)
        (indexText (direction.commBase + UInt16.ofNat n))
  | parameter (direction : PdoDirection) (n : ℕ) (hn : n < 512)
      (hmain : CanonicalMain sections (direction.commBase + UInt16.ofNat n)) (sub : UInt8)
      (hsub : sub = 1 ∨ sub = 2 ∨ sub = 5 ∨ direction = .tpdo ∧ sub = 3) :
      ReadIn sections (direction.commBase + UInt16.ofNat n, some sub)
        (subText (direction.commBase + UInt16.ofNat n) sub)
  | count (direction : PdoDirection) (n : ℕ) (hn : n < 512)
      (hmain : CanonicalMain sections (direction.commBase + UInt16.ofNat n)) :
      ReadIn sections (direction.mapBase + UInt16.ofNat n, some 0)
        (subText (direction.mapBase + UInt16.ofNat n) 0)
  | mapping (direction : PdoDirection) (n : ℕ) (hn : n < 512)
      (hmain : CanonicalMain sections (direction.commBase + UInt16.ofNat n)) {count : ℕ}
      (hcount : parsePdoMappingCount (getSectionProps sections (subText (direction.mapBase + UInt16.ofNat n) 0))
        (direction.mapBase + UInt16.ofNat n) = .ok count) (sub : UInt8) (hsub : sub ∈ mappedSubs count) :
      ReadIn sections (direction.mapBase + UInt16.ofNat n, some sub)
        (subText (direction.mapBase + UInt16.ofNat n) sub)

/-- The PDOs of a file see both spellings of an address, or neither. -/
def SeenAlikeIn (sections : List Section) (address : Address) (old new : List Char) : Prop :=
  ∀ key, ReadIn sections address key → eqIgnoreAsciiCase old key = eqIgnoreAsciiCase new key

/-! ## Respelled files -/

/-- One section with a spelling in place of another. -/
structure SameSection (old new : List Char) (s t : Section) : Prop where
  props : t.props = s.props
  name : t.name = s.name ∨ s.name = old ∧ t.name = new

def SameLine (old new line line' : List Char) : Prop :=
  line' = line ∨ headerName line = some old ∧ headerName line' = some new

section
variable {old new : List Char}

theorem sameLines {content content' : List Char} (h : ReplacesHeader old new content content') :
    List.Forall₂ (SameLine old new) (lines content) (lines content') := by
  obtain ⟨before, line, line', after, hlines, hlines', hold, hnew⟩ := h
  rw [hlines, hlines']
  refine List.rel_append (List.forall₂_same.mpr fun _ _ => .inl rfl) (.cons (.inr ⟨hold, hnew⟩) ?_)
  exact List.forall₂_same.mpr fun _ _ => .inl rfl

theorem propsBelow_sameLines {ls ls' : List (List Char)} (h : List.Forall₂ (SameLine old new) ls ls') :
    propsBelow ls' = propsBelow ls := by
  induction h with
  | nil => rfl
  | @cons line line' ls ls' hline hrest ih =>
    rw [propsBelow, propsBelow]
    rcases hline with rfl | ⟨hold, hnew⟩
    · rw [ih]
    · rw [hold, hnew]

/-- The sections of a respelled file. -/
theorem loopSections_sameLines (hold : old ≠ []) (hnew : new ≠ []) {ls ls' : List (List Char)}
    (h : List.Forall₂ (SameLine old new) ls ls') (strays : Option Props) :
    List.Forall₂ (SameSection old new) (loopSections strays ls) (loopSections strays ls') := by
  induction h generalizing strays with
  | nil => exact .nil
  | @cons line line' ls ls' hline hrest ih =>
    rw [loopSections, loopSections]
    rcases hline with rfl | ⟨hlineold, hlinenew⟩
    · cases headerName line' with
      | none => exact ih _
      | some name =>
        dsimp only
        split_ifs
        · exact ih _
        · exact .cons ⟨by rw [propsBelow_sameLines hrest], .inl rfl⟩ (ih _)
    · rw [hlineold, hlinenew]
      dsimp only
      rw [if_neg (by simpa using hold), if_neg (by simpa using hnew)]
      exact .cons ⟨by rw [propsBelow_sameLines hrest], .inr ⟨rfl, rfl⟩⟩ (ih _)

theorem parseSections_eq_loop (content : List Char) :
    parseSections content = loopSections (some []) (lines content) :=
  flush_foldl ParseState.init (lines content)

/-! ## The import of ordinary objects -/

variable {ss ts : List Section} {a : Address}

/-- Both spellings stand for one address. -/
structure SpellsSame (old new : List Char) (address : Address) : Prop where
  old : parseSectionIndex old = some address
  new : parseSectionIndex new = some address

theorem SameSection.address (h : SpellsSame old new a) {s t : Section} (hst : SameSection old new s t) :
    t.address = s.address := by
  rw [Section.address, Section.address]
  rcases hst.name with hname | ⟨hold, hnew⟩
  · rw [hname]
  · rw [hold, hnew, h.old, h.new]

section
variable (h : SpellsSame old new a) (hss : List.Forall₂ (SameSection old new) ss ts)
include h hss

theorem objectSections_respelled : objectSections ts = objectSections ss := by
  induction hss with
  | nil => rfl
  | cons hst _ ih =>
    unfold objectSections at ih ⊢
    rw [List.filterMap_cons, List.filterMap_cons, hst.address h, hst.props, ih]

theorem mainProps_respelled (index : UInt16) : mainProps ts index = mainProps ss index := by
  unfold mainProps
  induction hss with
  | nil => rfl
  | cons hst _ ih =>
    rw [List.find?_cons, List.find?_cons, hst.address h]
    split
    · rw [Option.map_some, Option.map_some, hst.props]
    · exact ih

theorem importEntries_respelled (lang : Lang) (capacityOverrides : UInt16 → Option ℕ) :
    importEntries lang capacityOverrides ts = importEntries lang capacityOverrides ss := by
  have hrecord : importRecord lang capacityOverrides ts = importRecord lang capacityOverrides ss := by
    funext index
    simp only [importRecord, mainName, recordType, objectSections_respelled h hss,
      mainProps_respelled h hss index]
  simp only [importEntries, objectSections_respelled h hss, hrecord]

/-- The check for duplicates looks at the addresses. -/
theorem validateUnique_respelled {seen seen' : List (Address × List Char)}
    (hseen : seen'.map Prod.fst = seen.map Prod.fst) :
    (validateUniqueObjectSections seen' ts).isOk = (validateUniqueObjectSections seen ss).isOk := by
  induction hss generalizing seen seen' with
  | nil => rfl
  | @cons s t ss ts hst hrest ih =>
    rw [validateUniqueObjectSections, validateUniqueObjectSections, hst.address h]
    cases s.address with
    | none => exact ih hseen
    | some b =>
      have hfind : (seen'.find? (·.1 == b)).isSome = (seen.find? (·.1 == b)).isSome := by
        have hmap (l : List (Address × List Char)) :
            (l.find? (·.1 == b)).isSome = (l.map Prod.fst).any (· == b) := by
          rw [Bool.eq_iff_iff, List.find?_isSome, List.any_map, List.any_eq_true]
          rfl
        rw [hmap, hmap, hseen]
      dsimp only
      cases hf : seen.find? (·.1 == b) <;> cases hf' : seen'.find? (·.1 == b) <;> rw [hf, hf'] at hfind
      · exact ih (by rw [List.map_append, List.map_append, hseen]; rfl)
      · cases hfind
      · cases hfind
      · rfl

theorem validateDataTypes_respelled : (validateDataTypes ts).isOk = (validateDataTypes ss).isOk := by
  induction hss with
  | nil => rfl
  | cons hst hrest ih =>
    rw [validateDataTypes, validateDataTypes, hst.address h, hst.props]
    split_ifs
    · split
      · split_ifs
        · rfl
        · exact ih
      · exact ih
    · exact ih

end

/-! ## The import of PDOs -/

theorem toNat_commIdx (direction : PdoDirection) {n : ℕ} (hn : n < 512) :
    (direction.commBase + UInt16.ofNat n).toNat =
      (match direction with | .tpdo => 0x1800 | .rpdo => 0x1400) + n := by
  rw [UInt16.toNat_add, UInt16.toNat_ofNat']
  cases direction <;> simp only [PdoDirection.commBase, UInt16.reduceToNat] <;> omega

theorem toNat_mapIdx (direction : PdoDirection) {n : ℕ} (hn : n < 512) :
    (direction.mapBase + UInt16.ofNat n).toNat =
      (match direction with | .tpdo => 0x1A00 | .rpdo => 0x1600) + n := by
  rw [UInt16.toNat_add, UInt16.toNat_ofNat']
  cases direction <;> simp only [PdoDirection.mapBase, UInt16.reduceToNat] <;> omega

theorem ReadByPdos.parse {b : Address} {key : List Char} (h : ReadByPdos b key) :
    parseSectionIndex key = some b := by
  cases h with
  | record direction n hn =>
    apply parseSectionIndex_indexText
    rw [UInt16.le_iff_toNat_le, toNat_commIdx direction hn]
    cases direction <;> simp only [UInt16.reduceToNat] <;> omega
  | parameter direction n hn sub hsub => exact parseSectionIndex_subText _ _
  | mapping direction n hn sub hsub => exact parseSectionIndex_subText _ _

/-- No text of another address is looked up. -/
theorem SpellsSame.seen (h : SpellsSame old new a) {b : Address} {key : List Char} (hread : ReadByPdos b key)
    (halike : b = a → eqIgnoreAsciiCase old key = eqIgnoreAsciiCase new key) :
    eqIgnoreAsciiCase old key = eqIgnoreAsciiCase new key := by
  have haddress (name : List Char) (hname : parseSectionIndex name = some a)
      (heq : eqIgnoreAsciiCase name key = true) : b = a := by
    have hkey := hread.parse
    rw [← parseSectionIndex_congr (beq_iff_eq.mp heq), hname] at hkey
    exact (Option.some.inj hkey).symm
  by_cases hb : b = a
  · exact halike hb
  · rw [Bool.eq_false_iff.mpr (mt (haddress old h.old) hb),
      Bool.eq_false_iff.mpr (mt (haddress new h.new) hb)]

theorem getSectionProps_respelled {key : List Char}
    (hkey : eqIgnoreAsciiCase old key = eqIgnoreAsciiCase new key)
    (hss : List.Forall₂ (SameSection old new) ss ts) : getSectionProps ts key = getSectionProps ss key := by
  unfold getSectionProps
  induction hss with
  | nil => rfl
  | @cons s t ss ts hst hrest ih =>
    have hname : eqIgnoreAsciiCase t.name key = eqIgnoreAsciiCase s.name key := by
      rcases hst.name with hname | ⟨hold, hnew⟩
      · rw [hname]
      · rw [hold, hnew, hkey]
    rw [List.find?_cons, List.find?_cons, hname]
    split
    · rw [Option.map_some, Option.map_some, hst.props]
    · exact ih

theorem importMappings_congr {mapIdx : UInt16} {subs : List UInt8}
    (h : ∀ sub ∈ subs, mappingValue ts mapIdx sub = mappingValue ss mapIdx sub) (entries : List OdEntry) :
    importMappings ts mapIdx subs entries = importMappings ss mapIdx subs entries := by
  induction subs generalizing entries with
  | nil => rfl
  | cons sub subs ih =>
    have hrest := ih fun s hs => h s (List.mem_cons_of_mem sub hs)
    simp only [importMappings, h sub List.mem_cons_self, hrest]

theorem parsePdoMappingCount_le {props : Option Props} {index : UInt16} {count : ℕ}
    (h : parsePdoMappingCount props index = .ok count) : count ≤ pdoMaxMappings := by
  unfold parsePdoMappingCount at h
  split at h
  · cases h
  · split_ifs at h with hle
    cases h
    exact Nat.not_lt.mp hle

theorem mem_mappedSubs {count : ℕ} {sub : UInt8} (hcount : count ≤ pdoMaxMappings)
    (h : sub ∈ mappedSubs count) :
    1 ≤ sub.toNat ∧ sub.toNat ≤ count := by
  obtain ⟨i, hi, rfl⟩ := List.mem_map.mp h
  have hlt := List.mem_range.mp hi
  have hmax : pdoMaxMappings = 64 := rfl
  rw [UInt8.toNat_ofNat', Nat.mod_eq_of_lt (by omega)]
  omega

theorem ReadIn.readByPdos {b : Address} {key : List Char} (h : ReadIn ss b key) : ReadByPdos b key := by
  cases h with
  | record direction n hn => exact .record direction n hn
  | parameter direction n hn _ sub hsub => exact .parameter direction n hn sub hsub
  | count direction n hn _ => exact .mapping direction n hn 0 (Nat.zero_le _)
  | mapping direction n hn _ hcount sub hsub =>
    have hle := parsePdoMappingCount_le hcount
    exact .mapping direction n hn sub ((mem_mappedSubs hle hsub).2.trans hle)

/-- A PDO depends on the sections that it is read from only. -/
theorem importPdo_congr {direction : PdoDirection} {n : ℕ} (hn : n < 512)
    (hread : ∀ b key, ReadIn ss b key → getSectionProps ts key = getSectionProps ss key)
    (entries : List OdEntry) : importPdo ts direction n entries = importPdo ss direction n entries := by
  have hrecord := hread _ _ (.record direction n hn)
  unfold importPdo
  dsimp only
  rw [hrecord]
  split
  · rfl
  next hfound =>
  have hmain : CanonicalMain ss (direction.commBase + UInt16.ofNat n) := by
    rwa [Bool.not_eq_true, Option.isNone_eq_false_iff] at hfound
  have hparameter (sub : UInt8) (hsub : sub = 1 ∨ sub = 2 ∨ sub = 5 ∨ direction = .tpdo ∧ sub = 3) :
      commProps ts (direction.commBase + UInt16.ofNat n) sub =
        commProps ss (direction.commBase + UInt16.ofNat n) sub :=
    hread _ _ (.parameter direction n hn hmain sub hsub)
  have hcount := hread _ _ (.count direction n hn hmain)
  have hinhibit : readInhibitTime ts direction (direction.commBase + UInt16.ofNat n) =
      readInhibitTime ss direction (direction.commBase + UInt16.ofNat n) := by
    cases direction with
    | tpdo => rw [readInhibitTime, readInhibitTime, hparameter 3 (.inr (.inr (.inr ⟨rfl, rfl⟩)))]
    | rpdo => rfl
  rw [hcount, hinhibit, readTransmissionType, readTransmissionType, hparameter 1 (.inl rfl),
    hparameter 2 (.inr (.inl rfl)), hparameter 5 (.inr (.inr (.inl rfl)))]
  refine congrArg _ (funext fun cobId => congrArg _ (funext fun transmissionType =>
    congrArg _ (funext fun inhibitTime => congrArg _ (funext fun eventTimer => ?_))))
  cases hmap : parsePdoMappingCount (getSectionProps ss (subText (direction.mapBase + UInt16.ofNat n) 0))
      (direction.mapBase + UInt16.ofNat n) with
  | error e => rfl
  | ok count =>
    have hvalues : ∀ sub ∈ mappedSubs count, mappingValue ts (direction.mapBase + UInt16.ofNat n) sub =
        mappingValue ss (direction.mapBase + UInt16.ofNat n) sub := by
      intro sub hsub
      rw [mappingValue, mappingValue, hread _ _ (.mapping direction n hn hmain hmap sub hsub)]
    have hmappings := importMappings_congr hvalues entries
    change (importMappings ts _ _ _).bind _ = (importMappings ss _ _ _).bind _
    rw [hmappings]

theorem importPdos_congr {numbers : List (PdoDirection × ℕ)} (hnumbers : ∀ number ∈ numbers, number.2 < 512)
    (hread : ∀ b key, ReadIn ss b key → getSectionProps ts key = getSectionProps ss key)
    (entries : List OdEntry) : importPdos ts numbers entries = importPdos ss numbers entries := by
  induction numbers generalizing entries with
  | nil => rfl
  | cons number rest ih =>
    have hrest := ih fun m hm => hnumbers m (List.mem_cons_of_mem number hm)
    simp only [importPdos, importPdo_congr (hnumbers number List.mem_cons_self) hread, hrest]

theorem ne_nil_of_address {name : List Char} {b : Address} (h : parseSectionIndex name = some b) :
    name ≠ [] := by
  rintro rfl
  have hnone : parseSectionIndex [] = none := by decide
  cases hnone.symm.trans h

/-- The import of a text, one pass after the other. -/
theorem imported_eq (lang : Lang) (capacityOverrides : UInt16 → Option ℕ) (content : List Char) :
    imported lang capacityOverrides content =
      if (validateUniqueObjectSections [] (parseSections content)).isOk &&
          (validateDataTypes (parseSections content)).isOk then
        ((importEntries lang capacityOverrides (parseSections content)).bind fun entries =>
          (importPdos (parseSections content) pdoNumbers entries).map Prod.swap).toOption
      else none := by
  unfold imported parseEdsContent
  dsimp only
  generalize pdoNumbers = numbers
  cases validateUniqueObjectSections [] (parseSections content) with
  | error e => rfl
  | ok _ =>
    cases validateDataTypes (parseSections content) with
    | error e => rfl
    | ok _ =>
      change ((importEntries lang capacityOverrides (parseSections content)).bind _).toOption = _
      rw [if_pos (by rfl)]
      congr 2

theorem imported_respelled (h : SpellsSame old new a) {content content' : List Char}
    (hreplaced : ReplacesHeader old new content content') (halike : SeenAlikeIn (parseSections content) a old new)
    (lang : Lang) (capacityOverrides : UInt16 → Option ℕ) :
    imported lang capacityOverrides content' = imported lang capacityOverrides content := by
  have hss : List.Forall₂ (SameSection old new) (parseSections content) (parseSections content') := by
    rw [parseSections_eq_loop, parseSections_eq_loop]
    exact loopSections_sameLines (ne_nil_of_address h.old) (ne_nil_of_address h.new) (sameLines hreplaced) _
  have hread (b : Address) (key : List Char) (hb : ReadIn (parseSections content) b key) :
      getSectionProps (parseSections content') key = getSectionProps (parseSections content) key :=
    getSectionProps_respelled (h.seen hb.readByPdos fun heq => halike key (heq ▸ hb)) hss
  rw [imported_eq, imported_eq, validateUnique_respelled h hss rfl, validateDataTypes_respelled h hss,
    importEntries_respelled h hss]
  simp only [importPdos_congr (fun number => lt_of_mem_pdoNumbers) hread]

end

/-! ## Names are lines -/

theorem eq_of_splitOnce {sep l x y : List Char} (h : splitOnce sep l = some (x, y)) : l = x ++ sep ++ y := by
  induction l generalizing x with
  | nil =>
    unfold splitOnce at h
    split_ifs at h with hsep
    cases h
    rw [List.isEmpty_iff.mp hsep]
    rfl
  | cons c l ih =>
    unfold splitOnce at h
    split_ifs at h with hfront
    · cases h
      obtain ⟨t, ht⟩ := List.isPrefixOf_iff_prefix.mp hfront
      rw [← ht, List.drop_left]
      rfl
    · obtain ⟨parts, hparts, heq⟩ := Option.map_eq_some_iff.mp h
      cases heq
      rw [List.cons_append, List.cons_append, ← ih hparts]

theorem line_of_address {name : List Char} {b : Address} (h : parseSectionIndex name = some b) :
    '\n' ∉ name := by
  intro hmem
  have hlower : '\n' ∈ lowercase name := by
    have hchar : Char.toLower '\n' = '\n' := by decide
    rw [← hchar]
    exact List.mem_map_of_mem hmem
  have hnot {base bound n : ℕ} {l : List Char} (hl : fromStrRadix base bound l = some n) : '\n' ∉ l := by
    intro hl'
    rcases charValue_of_fromStrRadix hl hl' with heq | hvalue
    · revert heq
      decide
    · revert hvalue
      decide
  unfold parseSectionIndex at h
  dsimp only at h
  cases hsplit : splitOnce "sub".toList (lowercase name) with
  | none =>
    rw [hsplit] at h
    obtain ⟨index, hindex, -⟩ := Option.bind_eq_some_iff.mp h
    exact hnot hindex hlower
  | some parts =>
    rw [hsplit] at h
    obtain ⟨index, hindex, h⟩ := Option.bind_eq_some_iff.mp h
    obtain ⟨sub, hsub, -⟩ := Option.map_eq_some_iff.mp h
    rw [eq_of_splitOnce hsplit, List.mem_append, List.mem_append] at hlower
    rcases hlower with (hlower | hlower) | hlower
    · exact hnot hindex hlower
    · revert hlower
      decide
    · rcases Option.or_eq_some_iff.mp hsub with hsub | ⟨-, hsub⟩
      · exact hnot hsub hlower
      · exact hnot hsub hlower

theorem replacesHeader_textOf {old new : List Char} (hold : '\n' ∉ old) (hnew : '\n' ∉ new)
    (front : List Section) (props : Props) :
    ReplacesHeader old new (textOf (front ++ [⟨old, props⟩])) (textOf (front ++ [⟨new, props⟩])) := by
  have hlines (name : List Char) (hname : '\n' ∉ name) : lines (textOf (front ++ [⟨name, props⟩])) =
      (front.flatMap Section.text).flatMap lines ++ ('[' :: name ++ [']']) ::
        (((props.map fun (p : List Char × List Char) => p.1 ++ '=' :: p.2) ++ [[]]).flatMap lines ++
          [[]]) := by
    have hheader : '\n' ∉ '[' :: name ++ [']'] := by simpa using hname
    rw [textOf, lines_unlines, List.flatMap_append, List.flatMap_append, List.flatMap_singleton, Section.text,
      List.cons_append, List.flatMap_cons, lines_of_not_mem hheader]
    simp only [List.append_assoc, List.cons_append, List.nil_append]
  exact ⟨_, _, _, _, hlines old hold, hlines new hnew, headerName_header old, headerName_header new⟩

/-! ## Files that are accepted -/

section
variable {ss : List Section}

theorem validateUnique_ok {seen : List (Address × List Char)} (hnodup : (ss.filterMap Section.address).Nodup)
    (hnew : ∀ b ∈ ss.filterMap Section.address, b ∉ seen.map Prod.fst) :
    validateUniqueObjectSections seen ss = .ok () := by
  induction ss generalizing seen with
  | nil => rfl
  | cons s ss ih =>
    rw [validateUniqueObjectSections]
    cases hs : s.address with
    | none =>
      rw [List.filterMap_cons_none hs] at hnodup hnew
      exact ih hnodup hnew
    | some b =>
      rw [List.filterMap_cons_some hs] at hnodup hnew
      have hfind : seen.find? (·.1 == b) = none := by
        rw [List.find?_eq_none]
        intro x hx heq
        exact hnew b List.mem_cons_self (List.mem_map.mpr ⟨x, hx, beq_iff_eq.mp heq⟩)
      obtain ⟨hfresh, hrest⟩ := List.nodup_cons.mp hnodup
      dsimp only
      rw [hfind]
      refine ih hrest fun c hc hmem => ?_
      rw [List.map_append, List.mem_append] at hmem
      rcases hmem with hmem | hmem
      · exact hnew c (List.mem_cons_of_mem b hc) hmem
      · have heq : c = b := List.mem_singleton.mp hmem
        exact hfresh (heq ▸ hc)

theorem validateDataTypes_ok (h : ∀ s ∈ ss, getProp s.props "DataType".toList = none) :
    validateDataTypes ss = .ok () := by
  induction ss with
  | nil => rfl
  | cons s ss ih =>
    rw [validateDataTypes, h s List.mem_cons_self, ih fun t ht => h t (List.mem_cons_of_mem s ht)]
    split_ifs <;> rfl

theorem importEntries_nil (lang : Lang) (capacityOverrides : UInt16 → Option ℕ)
    (h : ∀ s ∈ ss, ∀ b, s.address = some b → isPdoIndex b.1 = true) :
    importEntries lang capacityOverrides ss = .ok [] := by
  have hobjects : objectSections ss = [] := by
    rw [objectSections, List.filterMap_eq_nil_iff]
    intro s hs
    cases hb : s.address with
    | none => rfl
    | some b => rw [Option.bind_some, h s hs b hb, Bool.true_or, Bool.true_or, if_pos rfl]
  unfold importEntries
  dsimp only
  rw [hobjects]
  rfl

theorem importMappings_zero {mapIdx : UInt16} {subs : List UInt8}
    (h : ∀ sub ∈ subs, mappingValue ss mapIdx sub = .ok 0) (entries : List OdEntry) :
    importMappings ss mapIdx subs entries = .ok ([], entries) := by
  induction subs with
  | nil => rfl
  | cons sub subs ih =>
    have hrest := ih fun s hs => h s (List.mem_cons_of_mem sub hs)
    simp only [importMappings, h sub List.mem_cons_self, Except.bind, if_true, hrest]
    rfl

/-- No parameter and no mapping entry of a PDO has a section. -/
structure BareRecords (ss : List Section) : Prop where
  parameters : ∀ index sub, sub ≠ 0 → getSectionProps ss (subText index sub) = none
  counts : ∀ index, ∃ count, parsePdoMappingCount (getSectionProps ss (subText index 0)) index = .ok count

theorem BareRecords.importPdo (h : BareRecords ss) (direction : PdoDirection) (n : ℕ)
    (entries : List OdEntry) : ∃ r, importPdo ss direction n entries = .ok r := by
  obtain ⟨count, hcount⟩ := h.counts (direction.mapBase + UInt16.ofNat n)
  have hmappings (sub : UInt8) (hsub : sub ∈ mappedSubs count) :
      mappingValue ss (direction.mapBase + UInt16.ofNat n) sub = .ok 0 := by
    have hpos := (mem_mappedSubs (parsePdoMappingCount_le hcount) hsub).1
    rw [mappingValue, h.parameters _ sub (by rintro rfl; exact absurd hpos (by decide))]
    rfl
  have hinhibit : readInhibitTime ss direction (direction.commBase + UInt16.ofNat n) = .ok 0 := by
    cases direction with
    | tpdo =>
      rw [readInhibitTime, commProps, h.parameters _ 3 (by decide)]
      rfl
    | rpdo => rfl
  have htransmission : readTransmissionType ss direction (direction.commBase + UInt16.ofNat n) = .ok 255 := by
    rw [readTransmissionType, commProps, h.parameters _ 2 (by decide)]
    cases direction <;> rfl
  unfold Eds.importPdo
  dsimp only
  split
  · exact ⟨_, rfl⟩
  · rw [htransmission, hinhibit, hcount, commProps, commProps, h.parameters _ 1 (by decide),
      h.parameters _ 5 (by decide)]
    change ∃ r, Except.bind (importMappings ss _ (mappedSubs count) entries) _ = .ok r
    rw [importMappings_zero hmappings entries]
    exact ⟨_, rfl⟩

theorem importPdos_ok {numbers : List (PdoDirection × ℕ)}
    (h : ∀ direction n entries, ∃ r, importPdo ss direction n entries = .ok r) (entries : List OdEntry) :
    ∃ r, importPdos ss numbers entries = .ok r := by
  induction numbers generalizing entries with
  | nil => exact ⟨_, rfl⟩
  | cons number rest ih =>
    obtain ⟨r, hr⟩ := h number.1 number.2 entries
    obtain ⟨r', hr'⟩ := ih r.2
    refine ⟨(r.1.toList ++ r'.1, r'.2), ?_⟩
    rw [importPdos, hr]
    change (importPdos ss rest r.2).bind _ = _
    rw [hr']
    rfl

end

/-! ## What an accepted file has read -/

section
variable {ss : List Section}

theorem importPdos_each {numbers : List (PdoDirection × ℕ)} {entries : List OdEntry}
    {r : List PdoDef × List OdEntry} (h : importPdos ss numbers entries = .ok r) {direction : PdoDirection}
    {n : ℕ} (hmem : (direction, n) ∈ numbers) :
    ∃ entries' r', importPdo ss direction n entries' = .ok r' ∧ ∀ p, r'.1 = some p → p ∈ r.1 := by
  induction numbers generalizing entries r with
  | nil => cases hmem
  | cons number rest ih =>
    obtain ⟨pdo, hpdo, h⟩ := bind_ok h
    obtain ⟨pdos, hpdos, h⟩ := bind_ok h
    cases h
    rcases List.mem_cons.mp hmem with rfl | hmem
    · exact ⟨entries, pdo, hpdo, fun p hp => by simp [hp]⟩
    · obtain ⟨entries', r', himport, hsome⟩ := ih hpdos hmem
      exact ⟨entries', r', himport, fun p hp => List.mem_append_right _ (hsome p hp)⟩

theorem importMappings_reads {mapIdx : UInt16} {subs : List UInt8} {entries : List OdEntry}
    {r : List PdoMappingDef × List OdEntry} (h : importMappings ss mapIdx subs entries = .ok r) {sub : UInt8}
    (hsub : sub ∈ subs) : ∃ value, mappingValue ss mapIdx sub = .ok value := by
  induction subs generalizing entries r with
  | nil => cases hsub
  | cons first subs ih =>
    obtain ⟨value, hvalue, h⟩ := bind_ok h
    obtain ⟨rest, hrest, -⟩ := map_ok h
    rcases List.mem_cons.mp hsub with rfl | hsub
    · exact ⟨value, hvalue⟩
    · exact ih hrest hsub

/-- A PDO with a communication record is imported with all it reads. -/
theorem importPdo_reads {direction : PdoDirection} {n : ℕ} {entries : List OdEntry}
    {r : Option PdoDef × List OdEntry} (h : importPdo ss direction n entries = .ok r)
    (hrecord : (getSectionProps ss (indexText (direction.commBase + UInt16.ofNat n))).isSome = true) :
    let commIdx := direction.commBase + UInt16.ofNat n
    let mapIdx := direction.mapBase + UInt16.ofNat n
    (∃ p, r.1 = some p) ∧
    (∃ cobId, parsePdoCobIdDefault (commProps ss commIdx 1) commIdx = .ok cobId) ∧
    (∃ transmissionType, readTransmissionType ss direction commIdx = .ok transmissionType) ∧
    (∃ inhibitTime, readInhibitTime ss direction commIdx = .ok inhibitTime) ∧
    (∃ eventTimer, parsePdoDefault (commProps ss commIdx 5) 0 16 commIdx 5 "event timer".toList =
      .ok eventTimer) ∧
    ∃ count, parsePdoMappingCount (getSectionProps ss (subText mapIdx 0)) mapIdx = .ok count ∧
      ∀ sub ∈ mappedSubs count, ∃ value, mappingValue ss mapIdx sub = .ok value := by
  unfold importPdo at h
  dsimp only at h ⊢
  have hfound : ¬(getSectionProps ss (indexText (direction.commBase + UInt16.ofNat n))).isNone = true := by
    rwa [Option.isNone_iff_eq_none, ← Option.not_isSome_iff_eq_none, not_not]
  rw [if_neg hfound] at h
  obtain ⟨cobId, hcobId, h⟩ := bind_ok h
  obtain ⟨transmissionType, htransmission, h⟩ := bind_ok h
  obtain ⟨inhibitTime, hinhibit, h⟩ := bind_ok h
  obtain ⟨eventTimer, hevent, h⟩ := bind_ok h
  obtain ⟨count, hcount, h⟩ := bind_ok h
  obtain ⟨mapped, hmapped, h⟩ := bind_ok h
  cases h
  exact ⟨⟨_, rfl⟩, ⟨_, hcobId⟩, ⟨_, htransmission⟩, ⟨_, hinhibit⟩, ⟨_, hevent⟩, count, hcount,
    fun sub hsub => importMappings_reads hmapped hsub⟩

end

/-! ## Spellings that matter -/

/-- A property that no PDO parameter has. -/
def badProps : Props := [("DefaultValue".toList, "x".toList)]

def countProps64 : Props := [("DefaultValue".toList, "64".toList)]

theorem parsePdoDefault_bad (default width : ℕ) (index : UInt16) (sub : UInt8) (what : List Char)
    {value : ℕ} :
    parsePdoDefault (some badProps) default width index sub what ≠ .ok value := by
  have hget : getProp badProps "DefaultValue".toList = some ['x'] := by decide
  have hparse : parseInt ['x'] = none := by decide
  have htrim : (trim ['x']).isEmpty = false := by decide
  rw [parsePdoDefault, Option.bind_some, hget]
  dsimp only
  rw [htrim, if_neg (by decide), hparse]
  exact fun h => by cases h

theorem parsePdoCobIdDefault_bad (index : UInt16) {cobId : Option Derive.CobIdSpec} :
    parsePdoCobIdDefault (some badProps) index ≠ .ok cobId := by
  have hget : getProp badProps "DefaultValue".toList = some ['x'] := by decide
  have hparse : parsePdoCobId ['x'] = none := by decide
  have htrim : (trim ['x']).isEmpty = false := by decide
  rw [parsePdoCobIdDefault, Option.bind_some, hget]
  dsimp only
  rw [htrim, if_neg (by decide), hparse]
  exact fun h => by cases h

/-- The communication record of a PDO, and its mapping record with all entries in use. -/
def probeFront (direction : PdoDirection) (n : ℕ) (counted : Bool) : List Section :=
  ⟨indexText (direction.commBase + UInt16.ofNat n), []⟩ ::
    if counted then [⟨subText (direction.mapBase + UInt16.ofNat n) 0, countProps64⟩] else []

section
variable {direction : PdoDirection} {n : ℕ} (hn : n < 512) {counted : Bool}

include hn in
theorem probeFront_address {s : Section} (hs : s ∈ probeFront direction n counted) :
    s.address = some (direction.commBase + UInt16.ofNat n, none) ∨
      counted = true ∧ s.address = some (direction.mapBase + UInt16.ofNat n, some 0) := by
  rcases List.mem_cons.mp hs with rfl | hs
  · exact .inl (ReadByPdos.record direction n hn).parse
  · cases counted with
    | false => cases hs
    | true =>
      rw [List.mem_singleton.mp hs]
      exact .inr ⟨rfl, parseSectionIndex_subText _ _⟩

theorem probeFront_clean {s : Section} (hs : s ∈ probeFront direction n counted) : s.Clean := by
  have hkeys : ∀ p ∈ countProps64, isKey p.1 = true := by decide
  have hvalues : ∀ p ∈ countProps64, '\n' ∉ p.2 ∧ trim p.2 = p.2 := by decide
  rcases List.mem_cons.mp hs with rfl | hs
  · obtain ⟨hline, hne⟩ := name_of_digits (digits_indexText (direction.commBase + UInt16.ofNat n))
    exact ⟨⟨hline, by simp⟩, hne, by simp⟩
  · cases counted with
    | false => cases hs
    | true =>
      obtain ⟨hline, hne⟩ := name_subText (direction.mapBase + UInt16.ofNat n) 0
      rw [List.mem_singleton.mp hs]
      exact ⟨⟨hline, hkeys⟩, hne, hvalues⟩

theorem probeFront_props {s : Section} (hs : s ∈ probeFront direction n counted) :
    s.props = [] ∨ s.props = countProps64 := by
  rcases List.mem_cons.mp hs with rfl | hs
  · exact .inl rfl
  · cases counted with
    | false => cases hs
    | true => exact .inr (by rw [List.mem_singleton.mp hs])

theorem parsePdoMappingCount_64 (index : UInt16) :
    parsePdoMappingCount (some countProps64) index = .ok 64 := by
  have hget : getProp countProps64 "DefaultValue".toList = some "64".toList := by decide
  have hparse : parseInt "64".toList = some 64 := by decide
  have htrim : (trim "64".toList).isEmpty = false := by decide
  have hread : parsePdoDefault (some countProps64) 0 8 index 0 "PDO mapping count".toList = .ok 64 := by
    rw [parsePdoDefault, Option.bind_some, hget]
    dsimp only
    rw [htrim, if_neg (by decide), hparse]
    rfl
  rw [parsePdoMappingCount, hread]
  rfl

include hn in
theorem probeFront_bare : BareRecords (probeFront direction n counted) where
  parameters := by
    intro index sub hsub
    refine getSectionProps_eq_none (parseSectionIndex_subText index sub) fun s hs => ?_
    rcases probeFront_address hn hs with haddress | ⟨-, haddress⟩
    · rw [haddress]
      exact fun heq => by cases heq
    · rw [haddress]
      intro heq
      cases heq
      exact hsub rfl
  counts := by
    intro index
    cases hprops : getSectionProps (probeFront direction n counted) (subText index 0) with
    | none => exact ⟨0, rfl⟩
    | some props =>
      obtain ⟨s, hs, rfl⟩ := Option.map_eq_some_iff.mp hprops
      rcases probeFront_props (List.mem_of_find?_eq_some hs) with hnil | hcount
      · rw [hnil]
        exact ⟨0, rfl⟩
      · rw [hcount]
        exact ⟨64, parsePdoMappingCount_64 index⟩

end

/-- A file that consists of records of one PDO and a section that it does not see is accepted, with the
PDOs of the records. -/
theorem imported_unseen (lang : Lang) (capacityOverrides : UInt16 → Option ℕ) {front : List Section}
    {name : List Char} {props : Props} (hclean : ∀ s ∈ front ++ [Section.mk name props], s.Clean)
    (hnodup : ((front ++ [Section.mk name props]).filterMap Section.address).Nodup)
    (hpdo : ∀ s ∈ front ++ [Section.mk name props], ∀ b, s.address = some b → isPdoIndex b.1 = true)
    (htype : ∀ s ∈ front ++ [Section.mk name props], getProp s.props "DataType".toList = none)
    (hbare : BareRecords front) (hunseen : ∀ b key, ReadByPdos b key → eqIgnoreAsciiCase name key = false) :
    ∃ r, imported lang capacityOverrides (textOf (front ++ [⟨name, props⟩])) = some r ∧
      importPdos front pdoNumbers [] = .ok r.swap := by
  obtain ⟨r, hr⟩ : ∃ r, importPdos front pdoNumbers [] = .ok r :=
    importPdos_ok (fun direction n => hbare.importPdo direction n) []
  have hread (b : Address) (key : List Char) (hb : ReadByPdos b key) :
      getSectionProps (front ++ [⟨name, props⟩]) key = getSectionProps front key := by
    unfold getSectionProps
    rw [List.find?_append, List.find?_cons, hunseen b key hb]
    simp
  refine ⟨r.swap, ?_, by rw [Prod.swap_swap]; exact hr⟩
  rw [imported_eq, parseSections_written hclean, validateUnique_ok hnodup (by simp),
    validateDataTypes_ok htype, importEntries_nil lang capacityOverrides hpdo]
  have hpdos := importPdos_congr (fun number => lt_of_mem_pdoNumbers) (fun b key hb => hread b key hb.readByPdos)
  simp only [Except.bind, hpdos, hr]
  rfl

theorem ReadByPdos.key_eq {b : Address} {key key' : List Char} (h : ReadByPdos b key)
    (h' : ReadByPdos b key') : key = key' := by
  have hform {key : List Char} (h : ReadByPdos b key) :
      key = match b.2 with | none => indexText b.1 | some sub => subText b.1 sub := by
    cases h <;> rfl
  rw [hform h, hform h']

theorem isPdoIndex_commIdx (direction : PdoDirection) {n : ℕ} (hn : n < 512) :
    isPdoIndex (direction.commBase + UInt16.ofNat n) = true := by
  have hidx := toNat_commIdx direction hn
  simp only [isPdoIndex, Bool.or_eq_true, Bool.and_eq_true, decide_eq_true_eq, UInt16.le_iff_toNat_le, hidx,
    UInt16.reduceToNat]
  cases direction <;> dsimp only <;> omega

theorem isPdoIndex_mapIdx (direction : PdoDirection) {n : ℕ} (hn : n < 512) :
    isPdoIndex (direction.mapBase + UInt16.ofNat n) = true := by
  have hidx := toNat_mapIdx direction hn
  simp only [isPdoIndex, Bool.or_eq_true, Bool.and_eq_true, decide_eq_true_eq, UInt16.le_iff_toNat_le, hidx,
    UInt16.reduceToNat]
  cases direction <;> dsimp only <;> omega

theorem ReadByPdos.isPdoIndex {b : Address} {key : List Char} (h : ReadByPdos b key) :
    isPdoIndex b.1 = true := by
  cases h with
  | record direction n hn => exact isPdoIndex_commIdx direction hn
  | parameter direction n hn sub hsub => exact isPdoIndex_commIdx direction hn
  | mapping direction n hn sub hsub => exact isPdoIndex_mapIdx direction hn

/-- An accepted file has read all of its PDOs. -/
theorem importPdo_of_imported {lang : Lang} {capacityOverrides : UInt16 → Option ℕ} {content : List Char}
    {r : List OdEntry × List PdoDef} (h : imported lang capacityOverrides content = some r)
    (direction : PdoDirection) {n : ℕ} (hn : n < 512) :
    ∃ entries r', importPdo (parseSections content) direction n entries = .ok r' ∧
      ∀ p, r'.1 = some p → p ∈ r.2 := by
  have hmem : (direction, n) ∈ pdoNumbers := by
    rw [pdoNumbers, List.mem_append]
    cases direction with
    | tpdo => exact .inl (List.mem_map.mpr ⟨n, List.mem_range.mpr hn, rfl⟩)
    | rpdo => exact .inr (List.mem_map.mpr ⟨n, List.mem_range.mpr hn, rfl⟩)
  rw [imported_eq] at h
  split_ifs at h
  obtain ⟨entries, -, h⟩ := bind_ok (toOption_eq_some.mp h)
  obtain ⟨pdos, hpdos, rfl⟩ := map_ok h
  exact importPdos_each hpdos hmem

theorem importPdos_nil (numbers : List (PdoDirection × ℕ)) (entries : List OdEntry) :
    importPdos [] numbers entries = .ok ([], entries) := by
  induction numbers with
  | nil => rfl
  | cons number rest ih =>
    have hnone : importPdo [] number.1 number.2 entries = .ok (none, entries) := rfl
    rw [importPdos, hnone]
    change (importPdos [] rest entries).bind _ = _
    rw [ih]
    rfl

section
variable {old new name : List Char} {a : Address} (lang : Lang) (capacityOverrides : UInt16 → Option ℕ)

theorem unseen_of_address (hname : parseSectionIndex name = some a) {key : List Char}
    (hread : ReadByPdos a key) (hunseen : eqIgnoreAsciiCase name key = false) {b : Address}
    {key' : List Char} (hread' : ReadByPdos b key') :
    eqIgnoreAsciiCase name key' = false := by
  by_contra hseen
  rw [Bool.not_eq_false] at hseen
  have hb := hread'.parse
  rw [← parseSectionIndex_congr (beq_iff_eq.mp hseen), hname] at hb
  cases Option.some.inj hb
  rw [hread.key_eq hread', hseen] at hunseen
  cases hunseen

theorem single_clean (hname : parseSectionIndex name = some a) :
    ∀ s ∈ [] ++ [Section.mk name []], s.Clean := by
  intro s hs
  rw [List.mem_singleton.mp hs]
  exact ⟨⟨line_of_address hname, by simp⟩, ne_nil_of_address hname, by simp⟩

/-- A file with nothing but a section that no PDO looks up is accepted, without PDOs. -/
theorem single_unseen (hname : parseSectionIndex name = some a) (hpdo : isPdoIndex a.1 = true)
    (hunseen : ∀ b key, ReadByPdos b key → eqIgnoreAsciiCase name key = false) :
    ∃ r, imported lang capacityOverrides (textOf ([] ++ [⟨name, []⟩])) = some r ∧ r.2 = [] := by
  have hsection : (Section.mk name []).address = some a := hname
  have hnodup : (([] ++ [Section.mk name []]).filterMap Section.address).Nodup := by
    rw [List.nil_append, List.filterMap_cons_some hsection, List.filterMap_nil]
    exact List.nodup_singleton _
  have hpdos : ∀ s ∈ [] ++ [Section.mk name []], ∀ b, s.address = some b → isPdoIndex b.1 = true := by
    intro s hs b hb
    rw [List.mem_singleton.mp hs, hsection] at hb
    cases hb
    exact hpdo
  have htype : ∀ s ∈ [] ++ [Section.mk name []], getProp s.props "DataType".toList = none := by
    intro s hs
    rw [List.mem_singleton.mp hs]
    rfl
  obtain ⟨r, himported, hread⟩ := imported_unseen lang capacityOverrides (single_clean hname) hnodup
    hpdos htype ⟨fun _ _ _ => rfl, fun _ => ⟨0, rfl⟩⟩ hunseen
  rw [importPdos_nil] at hread
  exact ⟨r, himported, (congrArg Prod.fst (Except.ok.inj hread)).symm⟩

theorem record_seen {direction : PdoDirection} {n : ℕ} (hn : n < 512)
    (hname : parseSectionIndex name = some (direction.commBase + UInt16.ofNat n, none))
    (hseen : eqIgnoreAsciiCase name (indexText (direction.commBase + UInt16.ofNat n)) = true)
    {r : List OdEntry × List PdoDef}
    (h : imported lang capacityOverrides (textOf ([] ++ [⟨name, []⟩])) = some r) : r.2 ≠ [] := by
  obtain ⟨entries, r', himport, hsome⟩ := importPdo_of_imported h direction hn
  rw [parseSections_written (single_clean hname)] at himport
  have hrecord : (getSectionProps ([] ++ [Section.mk name []])
      (indexText (direction.commBase + UInt16.ofNat n))).isSome = true := by
    rw [getSectionProps, List.nil_append, List.find?_singleton, hseen]
    rfl
  obtain ⟨p, hp⟩ := (importPdo_reads himport hrecord).1
  exact List.ne_nil_of_mem (hsome p hp)

theorem probe_clean {direction : PdoDirection} {n : ℕ} {counted : Bool}
    (hname : parseSectionIndex name = some a) :
    ∀ s ∈ probeFront direction n counted ++ [Section.mk name badProps], s.Clean := by
  have hkeys : ∀ p ∈ badProps, isKey p.1 = true := by decide
  have hvalues : ∀ p ∈ badProps, '\n' ∉ p.2 ∧ trim p.2 = p.2 := by decide
  intro s hs
  rcases List.mem_append.mp hs with hs | hs
  · exact probeFront_clean hs
  · rw [List.mem_singleton.mp hs]
    exact ⟨⟨line_of_address hname, hkeys⟩, ne_nil_of_address hname, hvalues⟩

/-- A record of parameters or of mapping entries whose section is looked up is read. -/
theorem badProps_seen {direction : PdoDirection} {n : ℕ} (hn : n < 512) {counted : Bool} {key : List Char}
    (hread : ReadByPdos a key) (hname : parseSectionIndex name = some a)
    (hseen : eqIgnoreAsciiCase name key = true)
    (hnew : ∀ s ∈ probeFront direction n counted, s.address ≠ some a)
    (hfails : ∀ entries r, getSectionProps (probeFront direction n counted ++ [⟨name, badProps⟩]) key =
        some badProps →
      importPdo (probeFront direction n counted ++ [⟨name, badProps⟩]) direction n entries ≠ .ok r) :
    imported lang capacityOverrides (textOf (probeFront direction n counted ++ [⟨name, badProps⟩])) =
      none := by
  have hclean : ∀ s ∈ probeFront direction n counted ++ [Section.mk name badProps], s.Clean :=
    probe_clean hname
  have hkey : getSectionProps (probeFront direction n counted ++ [⟨name, badProps⟩]) key = some badProps := by
    have hfront := getSectionProps_eq_none hread.parse hnew
    rw [getSectionProps, Option.map_eq_none_iff] at hfront
    rw [getSectionProps, List.find?_append, hfront, Option.none_or, List.find?_singleton, hseen]
    rfl
  cases himported : imported lang capacityOverrides
      (textOf (probeFront direction n counted ++ [⟨name, badProps⟩])) with
  | none => rfl
  | some r =>
    obtain ⟨entries, r', himport, -⟩ := importPdo_of_imported himported direction hn
    rw [parseSections_written hclean] at himport
    exact absurd himport (hfails entries r' hkey)

theorem badProps_unseen {direction : PdoDirection} {n : ℕ} (hn : n < 512) {counted : Bool}
    (hname : parseSectionIndex name = some a) (hpdo : isPdoIndex a.1 = true)
    (hnew : ∀ s ∈ probeFront direction n counted, s.address ≠ some a)
    (hunseen : ∀ b key, ReadByPdos b key → eqIgnoreAsciiCase name key = false) :
    imported lang capacityOverrides (textOf (probeFront direction n counted ++ [⟨name, badProps⟩])) ≠
      none := by
  have hfront : ((probeFront direction n counted).filterMap Section.address).Nodup := by
    have hcomm : (Section.mk (indexText (direction.commBase + UInt16.ofNat n)) []).address =
        some (direction.commBase + UInt16.ofNat n, none) := (ReadByPdos.record direction n hn).parse
    have hmap : (Section.mk (subText (direction.mapBase + UInt16.ofNat n) 0) countProps64).address =
        some (direction.mapBase + UInt16.ofNat n, some 0) := parseSectionIndex_subText _ _
    cases counted <;> simp [probeFront, hcomm, hmap]
  have hsection : (Section.mk name badProps).address = some a := hname
  have hnodup : ((probeFront direction n counted ++ [Section.mk name badProps]).filterMap
      Section.address).Nodup := by
    rw [List.filterMap_append, List.filterMap_cons_some hsection, List.filterMap_nil]
    refine hfront.append (List.nodup_singleton a) ?_
    intro b hb hmem
    obtain ⟨s, hs, haddress⟩ := List.mem_filterMap.mp hb
    rw [List.mem_singleton.mp hmem] at haddress
    exact hnew s hs haddress
  have hpdos : ∀ s ∈ probeFront direction n counted ++ [Section.mk name badProps], ∀ b,
      s.address = some b → isPdoIndex b.1 = true := by
    intro s hs b hb
    rcases List.mem_append.mp hs with hs | hs
    · rcases probeFront_address hn hs with haddress | ⟨-, haddress⟩ <;> rw [haddress] at hb <;> cases hb
      · exact isPdoIndex_commIdx direction hn
      · exact isPdoIndex_mapIdx direction hn
    · rw [List.mem_singleton.mp hs, hsection] at hb
      cases hb
      exact hpdo
  have htypes : ∀ s ∈ probeFront direction n counted ++ [Section.mk name badProps],
      getProp s.props "DataType".toList = none := by
    have hbad : getProp badProps "DataType".toList = none := by decide
    intro s hs
    rcases List.mem_append.mp hs with hs | hs
    · rcases probeFront_props hs with hprops | hprops <;> rw [hprops] <;> decide
    · rw [List.mem_singleton.mp hs]
      exact hbad
  obtain ⟨r, hr, -⟩ := imported_unseen lang capacityOverrides (probe_clean hname) hnodup hpdos htypes
    (probeFront_bare hn) hunseen
  rw [hr]
  exact Option.some_ne_none r

end

/-! ## One header, two spellings -/

theorem probe_record (direction : PdoDirection) (n : ℕ) (counted : Bool) (s : Section) :
    (getSectionProps (probeFront direction n counted ++ [s])
      (indexText (direction.commBase + UInt16.ofNat n))).isSome = true := by
  rw [getSectionProps, probeFront, List.cons_append, List.find?_cons, eqIgnoreAsciiCase, beq_self_eq_true]
  rfl

theorem probe_parameter_fails {direction : PdoDirection} {n : ℕ} {sub : UInt8}
    (hsub : sub = 1 ∨ sub = 2 ∨ sub = 5 ∨ direction = .tpdo ∧ sub = 3) {counted : Bool} {s : Section}
    (hkey : getSectionProps (probeFront direction n counted ++ [s])
      (subText (direction.commBase + UInt16.ofNat n) sub) = some badProps)
    (entries : List OdEntry) (r : Option PdoDef × List OdEntry) :
    importPdo (probeFront direction n counted ++ [s]) direction n entries ≠ .ok r := by
  intro h
  obtain ⟨-, ⟨cobId, hcobId⟩, ⟨transmissionType, htransmission⟩, ⟨inhibitTime, hinhibit⟩,
    ⟨eventTimer, hevent⟩, -⟩ := importPdo_reads h (probe_record direction n counted s)
  rcases hsub with rfl | rfl | rfl | ⟨rfl, rfl⟩
  · rw [commProps, hkey] at hcobId
    exact parsePdoCobIdDefault_bad _ hcobId
  · obtain ⟨value, hvalue, -⟩ := bind_ok htransmission
    rw [commProps, hkey] at hvalue
    exact parsePdoDefault_bad _ _ _ _ _ hvalue
  · rw [commProps, hkey] at hevent
    exact parsePdoDefault_bad _ _ _ _ _ hevent
  · rw [readInhibitTime, commProps, hkey] at hinhibit
    exact parsePdoDefault_bad _ _ _ _ _ hinhibit

theorem parsePdoMappingCount_bad (index : UInt16) {count : ℕ} :
    parsePdoMappingCount (some badProps) index ≠ .ok count := by
  intro h
  unfold parsePdoMappingCount at h
  split at h
  · cases h
  · next hread => exact parsePdoDefault_bad _ _ _ _ _ hread

theorem mem_mappedSubs_64 {sub : UInt8} (hle : sub.toNat ≤ pdoMaxMappings) (hpos : sub ≠ 0) :
    sub ∈ mappedSubs 64 := by
  have hmax : pdoMaxMappings = 64 := rfl
  have hne : sub.toNat ≠ 0 := fun h => hpos (UInt8.toNat_inj.mp h)
  refine List.mem_map.mpr ⟨sub.toNat - 1, List.mem_range.mpr (by omega), ?_⟩
  rw [Nat.sub_add_cancel (by omega), UInt8.ofNat_toNat]

/-- The count of the mapping record is 64, unless the count itself is what cannot be read. -/
theorem probe_mapping_fails {direction : PdoDirection} {n : ℕ} (hn : n < 512) {sub : UInt8}
    (hle : sub.toNat ≤ pdoMaxMappings) {s : Section}
    (hkey : getSectionProps (probeFront direction n (sub != 0) ++ [s])
      (subText (direction.mapBase + UInt16.ofNat n) sub) = some badProps)
    (entries : List OdEntry) (r : Option PdoDef × List OdEntry) :
    importPdo (probeFront direction n (sub != 0) ++ [s]) direction n entries ≠ .ok r := by
  intro h
  obtain ⟨-, -, -, -, -, count, hcount, hvalues⟩ := importPdo_reads h (probe_record direction n (sub != 0) s)
  by_cases hzero : sub = 0
  · subst hzero
    rw [hkey] at hcount
    exact parsePdoMappingCount_bad _ hcount
  · have hrecord : getSectionProps (probeFront direction n (sub != 0) ++ [s])
        (subText (direction.mapBase + UInt16.ofNat n) 0) = some countProps64 := by
      have hother : eqIgnoreAsciiCase (indexText (direction.commBase + UInt16.ofNat n))
          (subText (direction.mapBase + UInt16.ofNat n) 0) = false := by
        by_contra hsame
        rw [Bool.not_eq_false] at hsame
        have hparse := parseSectionIndex_congr (beq_iff_eq.mp hsame)
        rw [(ReadByPdos.record direction n hn).parse, parseSectionIndex_subText] at hparse
        cases congrArg Prod.snd (Option.some.inj hparse)
      rw [getSectionProps, probeFront, bne_iff_ne.mpr hzero, if_pos rfl, List.cons_append, List.find?_cons,
        hother, List.cons_append, List.find?_cons, eqIgnoreAsciiCase, beq_self_eq_true]
      rfl
    rw [hrecord, parsePdoMappingCount_64] at hcount
    cases hcount
    obtain ⟨value, hvalue⟩ := hvalues sub (mem_mappedSubs_64 hle hzero)
    rw [mappingValue, hkey] at hvalue
    exact parsePdoDefault_bad _ _ _ _ _ hvalue

section
variable {old new : List Char} {a : Address}

/-- If the PDOs see only one of two spellings, there are files that are imported differently. -/
theorem imported_differs (h : SpellsSame old new a) {key : List Char} (hread : ReadByPdos a key)
    (hold : eqIgnoreAsciiCase old key = true) (hnew : eqIgnoreAsciiCase new key = false) (lang : Lang)
    (capacityOverrides : UInt16 → Option ℕ) :
    ∃ front props, imported lang capacityOverrides (textOf (front ++ [⟨old, props⟩])) ≠
      imported lang capacityOverrides (textOf (front ++ [⟨new, props⟩])) := by
  have hunseen (b : Address) (key' : List Char) (hb : ReadByPdos b key') :
      eqIgnoreAsciiCase new key' = false :=
    unseen_of_address h.new hread hnew hb
  have hprobe (direction : PdoDirection) (n : ℕ) (hn : n < 512) (counted : Bool)
      (hfront : ∀ s ∈ probeFront direction n counted, s.address ≠ some a)
      (hfails : ∀ entries r, getSectionProps (probeFront direction n counted ++ [⟨old, badProps⟩]) key =
          some badProps →
        importPdo (probeFront direction n counted ++ [⟨old, badProps⟩]) direction n entries ≠ .ok r) :
      ∃ front props, imported lang capacityOverrides (textOf (front ++ [⟨old, props⟩])) ≠
        imported lang capacityOverrides (textOf (front ++ [⟨new, props⟩])) := by
    refine ⟨probeFront direction n counted, badProps, ?_⟩
    rw [badProps_seen lang capacityOverrides hn hread h.old hold hfront hfails]
    exact (badProps_unseen lang capacityOverrides hn h.new hread.isPdoIndex hfront hunseen).symm
  cases hread with
  | record direction n hn =>
    obtain ⟨r, himported, hpdos⟩ :=
      single_unseen lang capacityOverrides h.new (isPdoIndex_commIdx direction hn) hunseen
    refine ⟨[], [], fun heq => ?_⟩
    rw [himported] at heq
    exact record_seen lang capacityOverrides hn h.old hold heq hpdos
  | parameter direction n hn sub hsub =>
    refine hprobe direction n hn false ?_ fun entries r hkey => probe_parameter_fails hsub hkey entries r
    intro s hs heq
    rcases probeFront_address hn hs with haddress | ⟨hcounted, -⟩
    · rw [haddress] at heq
      cases heq
    · cases hcounted
  | mapping direction n hn sub hsub =>
    refine hprobe direction n hn (sub != 0) ?_ fun entries r hkey =>
      probe_mapping_fails hn hsub hkey entries r
    intro s hs heq
    rcases probeFront_address hn hs with haddress | ⟨hcounted, haddress⟩ <;> rw [haddress] at heq <;>
      have hsub' := congrArg Prod.snd (Option.some.inj heq)
    · cases hsub'
    · cases Option.some.inj hsub'
      cases hcounted

theorem SpellsSame.symm (h : SpellsSame old new a) : SpellsSame new old a := ⟨h.new, h.old⟩

/-- Two spellings of an address stand for one another in all files exactly when the PDOs see both of
them or neither. In one file it is enough that the PDOs of this file do. -/
theorem respelling_unchanged_iff (h : SpellsSame old new a) (lang : Lang)
    (capacityOverrides : UInt16 → Option ℕ) :
    ((∀ content content', ReplacesHeader old new content content' →
        imported lang capacityOverrides content' = imported lang capacityOverrides content) ↔
      SeenAlike a old new) ∧
    ∀ content content', ReplacesHeader old new content content' →
      SeenAlikeIn (parseSections content) a old new →
        imported lang capacityOverrides content' = imported lang capacityOverrides content := by
  have hfile {content content' : List Char} (hreplaced : ReplacesHeader old new content content')
      (halike : SeenAlikeIn (parseSections content) a old new) :
      imported lang capacityOverrides content' = imported lang capacityOverrides content :=
    imported_respelled h hreplaced halike lang capacityOverrides
  refine ⟨⟨?_, ?_⟩, fun _ _ hreplaced halike => hfile hreplaced halike⟩
  · intro hsame key hread
    have hreplaced := replacesHeader_textOf (line_of_address h.old) (line_of_address h.new)
    cases hold : eqIgnoreAsciiCase old key <;> cases hnew : eqIgnoreAsciiCase new key
    · rfl
    · obtain ⟨front, props, hdiffers⟩ := imported_differs h.symm hread hnew hold lang capacityOverrides
      exact absurd (hsame _ _ (hreplaced front props)) hdiffers
    · obtain ⟨front, props, hdiffers⟩ := imported_differs h hread hold hnew lang capacityOverrides
      exact absurd (hsame _ _ (hreplaced front props)).symm hdiffers
    · rfl
  · exact fun halike _ _ hreplaced => hfile hreplaced fun key hread => halike key hread.readByPdos

end

theorem respelling_unchanged_device_type :
    SpellsSame "1000".toList "01000".toList (0x1000, none) ∧
      ∀ content content', ReplacesHeader "1000".toList "01000".toList content content' →
        imported asciiLang (fun _ => none) content' = imported asciiLang (fun _ => none) content := by
  have h : SpellsSame "1000".toList "01000".toList (0x1000, none) := ⟨by decide, by decide⟩
  refine ⟨h, (respelling_unchanged_iff h asciiLang fun _ => none).1.mpr fun key hread => ?_⟩
  exact absurd hread.isPdoIndex (by decide)

/-- A byte, and a transmit PDO of one entry whose section has the given name. -/
def mappedByte : List Section :=
  [⟨"2000".toList, [("ParameterName".toList, "Speed".toList), ("DataType".toList, "0x0005".toList)]⟩,
    ⟨"1800".toList, []⟩, ⟨"1A00sub0".toList, [("DefaultValue".toList, ['1'])]⟩]

def mappedByteEds (name : List Char) : List Char :=
  textOf (mappedByte ++ [⟨name, [("DefaultValue".toList, "0x20000008".toList)]⟩])

def byteEntry (pdo : Bool) : OdEntry := ⟨0x2000, "speed".toList, .var ⟨.u8, none, some (.int 0), .ro, pdo⟩⟩

/-- The leading zero loses the mapping. -/
theorem respelling_loses_mapping :
    SpellsSame "1A00sub1".toList "1A00sub01".toList (0x1A00, some 1) ∧
      ReplacesHeader "1A00sub1".toList "1A00sub01".toList (mappedByteEds "1A00sub1".toList)
        (mappedByteEds "1A00sub01".toList) ∧
      imported asciiLang (fun _ => none) (mappedByteEds "1A00sub1".toList) =
        some ([byteEntry true], [mappedPdo [speedMapping]]) ∧
      imported asciiLang (fun _ => none) (mappedByteEds "1A00sub01".toList) =
        some ([byteEntry false], [mappedPdo []]) := by
  refine ⟨⟨by decide, by decide⟩, replacesHeader_textOf (by decide) (by decide) _ _, ?_, ?_⟩
  · rw [imported, parseEdsContent_recorded]
    decide
  · rw [imported, parseEdsContent_recorded]
    decide

end Canopen.Eds
